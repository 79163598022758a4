import AppHome.Lib.Interleave
import AppHome.Revocation.Backends

/-!
# The two phases of a lookup

`is_revoked` of the memory list looks under a read lock and, when it finds an expired entry, again
under a write lock; the clock is read before each. `revoke` reads it under its write lock. Any
number of calls run side by side:

* `Shared` : the clock, the entries and, as a history variable, the calls of `revoke` that have
  completed;
* `Shared.latest` : the entry the latest of them made for a token;
* `Shared.Faithful` : the entry stored for a token is that one, unless it has reached its deadline;
* `lookup_atomic` : what a lookup can take out of the list, and what it answers.
-/

namespace AppHome

def RevokedEntry.deadline (e : RevokedEntry) : Instant := e.revokedAt + e.ttl

theorem RevokedEntry.deadline_le_of_not_live {e : RevokedEntry} {now t : Instant}
    (h : e.live t = false) (ht : t ≤ now) (hpast : e.revokedAt ≤ now) : e.deadline ≤ now :=
  (end_le_of_not_withinTtl h).trans (max_le ht hpast)

theorem RevokedEntry.live_of_lt {e : RevokedEntry} {t : Instant} (hpast : e.revokedAt ≤ t)
    (h : t < e.deadline) :
    e.live t = true := by
  refine withinTtl_of_lt ?_ h
  exact pos_of_lt_add_right (lt_of_le_of_lt hpast h)

end AppHome

namespace AppHome.Phases

open Interleave

/-! ## Steps -/

structure Shared where
  now : Instant
  entries : MemoryAccessTokenBlacklist
  revokes : List (Uuid × RevokedEntry)

inductive Op where
  | revoke (jti : Uuid) (ttlSecs : Nat)
  | instantNow
  | readPhase (jti : Uuid) (now : Instant)
  | writePhase (jti : Uuid) (now : Instant)

abbrev Res : Op → Type
  | .revoke _ _ => Unit
  | .instantNow => Instant
  | .readPhase _ _ => Option Bool
  | .writePhase _ _ => Bool

/-- A step holds its lock from beginning to end. -/
def exec (s : Shared) (_ : Nat) (o : Op) (_ : Unit) : Res o × Shared :=
  match o with
  | .revoke jti ttlSecs =>
    ((), { s with entries := s.entries.revoke jti ttlSecs s.now
                  revokes := s.revokes ++ [(jti, ⟨s.now, ofSecs ttlSecs⟩)] })
  | .instantNow => (s.now, s)
  | .readPhase jti now => (s.entries.lookup jti now, s)
  | .writePhase jti now =>
    ((s.entries.recheck jti now).1, { s with entries := (s.entries.recheck jti now).2 })

/-- Time passes. -/
def tick (s : Shared) (nanos : Nat) : Shared := { s with now := s.now + nanos }

def machine : Machine Shared Op Res Unit Nat := ⟨exec, tick⟩

/-! ## Calls -/

abbrev Method := Prog Op Res

def revoke (jti : Uuid) (ttlSecs : Nat) : Method Unit := .op (.revoke jti ttlSecs) .ret

def isRevoked (jti : Uuid) : Method Bool :=
  .op .instantNow fun now => .op (.readPhase jti now) fun
    | some answer => .ret answer
    | none => .op .instantNow fun now => .op (.writePhase jti now) .ret

inductive Task where
  | revoke (jti : Uuid) (ttlSecs : Nat)
  | isRevoked (jti : Uuid)

inductive Outcome where
  | revoked
  | answered (answer : Bool)

def Task.prog : Task → Method Outcome
  | .revoke jti ttlSecs => Phases.revoke jti ttlSecs >>= fun _ => .ret .revoked
  | .isRevoked jti => Phases.isRevoked jti >>= fun answer => .ret (.answered answer)

/-- Any number of calls on a new list, none of them begun. -/
def calls (tasks : Nat → Task) (start : Instant) : Cfg Shared Op Res Outcome :=
  ⟨⟨start, Table.empty, []⟩, fun i => (tasks i).prog⟩

/-! ## The latest revocation -/

namespace Shared

/-- What the completed calls of `revoke` have made of a token, in order. -/
def revokesOf (s : Shared) (jti : Uuid) : List RevokedEntry :=
  (s.revokes.filter fun r => r.1 = jti).map (·.2)

def latest (s : Shared) (jti : Uuid) : Option RevokedEntry := (s.revokesOf jti).getLast?

/-- The entry of a token is that of its latest revocation, or there is none because that has reached
its deadline. -/
structure Faithful (s : Shared) : Prop where
  past : ∀ {jti e}, s.latest jti = some e → e.revokedAt ≤ s.now
  stored : ∀ jti, s.entries.find? jti = (s.latest jti).map (Prod.mk jti) ∨
    s.entries.find? jti = none ∧ ∃ e, s.latest jti = some e ∧ e.deadline ≤ s.now

variable {s : Shared}

theorem Faithful.find? (h : s.Faithful) {jti : Uuid} {r : Uuid × RevokedEntry}
    (hr : s.entries.find? jti = some r) :
    s.latest jti = some r.2 := by
  rcases h.stored jti with hstored | ⟨hnone, -⟩
  · rw [hr] at hstored
    obtain ⟨e, he, rfl⟩ := Option.map_eq_some_iff.mp hstored.symm
    exact he
  · rw [hr] at hnone
    cases hnone

theorem Faithful.find?_latest (h : s.Faithful) {jti : Uuid} {e : RevokedEntry}
    (he : s.latest jti = some e) (hnow : s.now < e.deadline) :
    s.entries.find? jti = some (jti, e) := by
  rcases h.stored jti with hstored | ⟨-, e', he', hdone⟩
  · rw [hstored, he]
    rfl
  · rw [he] at he'
    cases he'
    exact absurd hnow (not_lt.mpr hdone)

theorem Faithful.tick (h : s.Faithful) (nanos : Nat) : (tick s nanos).Faithful := by
  have hlater : s.now ≤ s.now + nanos := Int.le_add_of_nonneg_right (Int.natCast_nonneg nanos)
  refine ⟨fun he => (h.past he).trans hlater, fun jti => ?_⟩
  rcases h.stored jti with hstored | ⟨hnone, e, he, hdone⟩
  · exact Or.inl hstored
  · exact Or.inr ⟨hnone, e, he, hdone.trans hlater⟩

theorem revokesOf_revoke (s : Shared) (i : Nat) (jti jti' : Uuid) (ttlSecs : Nat) :
    (exec s i (.revoke jti ttlSecs) ()).2.revokesOf jti' =
      if jti = jti' then s.revokesOf jti' ++ [⟨s.now, ofSecs ttlSecs⟩] else s.revokesOf jti' := by
  simp only [revokesOf, exec, List.filter_append, List.map_append]
  split_ifs with heq
  · simp [heq]
  · simp [heq]

theorem latest_revoke (s : Shared) (i : Nat) (jti jti' : Uuid) (ttlSecs : Nat) :
    (exec s i (.revoke jti ttlSecs) ()).2.latest jti' =
      if jti = jti' then some ⟨s.now, ofSecs ttlSecs⟩ else s.latest jti' := by
  unfold latest
  rw [revokesOf_revoke]
  split_ifs
  · exact List.getLast?_concat
  · rfl

theorem Faithful.revoke (h : s.Faithful) (i : Nat) (jti : Uuid) (ttlSecs : Nat) :
    (exec s i (.revoke jti ttlSecs) ()).2.Faithful := by
  constructor
  · intro jti' e he
    rw [latest_revoke] at he
    split_ifs at he
    · cases he
      exact le_rfl
    · exact h.past he
  · intro jti'
    rw [latest_revoke]
    show (s.entries.revoke jti ttlSecs s.now).find? jti' = _ ∨
        (s.entries.revoke jti ttlSecs s.now).find? jti' = none ∧ _
    rw [MemoryAccessTokenBlacklist.revoke, Table.find?_put]
    split_ifs with heq
    · subst heq
      exact Or.inl rfl
    · rw [Table.find?_filter]
      rcases h.stored jti' with hstored | ⟨hnone, hdone⟩
      · cases hlatest : s.latest jti' with
        | none =>
            rw [hstored, hlatest]
            exact Or.inl rfl
        | some e =>
            rw [hstored, hlatest, Option.map_some, Option.filter_some]
            split_ifs with hlive
            · exact Or.inl rfl
            · refine Or.inr ⟨rfl, e, rfl, ?_⟩
              exact RevokedEntry.deadline_le_of_not_live (Bool.eq_false_iff.mpr hlive) le_rfl
                (h.past hlatest)
      · rw [hnone]
        exact Or.inr ⟨rfl, hdone⟩

theorem Faithful.writePhase (h : s.Faithful) (i : Nat) (jti : Uuid) {t : Instant} (ht : t ≤ s.now) :
    (exec s i (.writePhase jti t) ()).2.Faithful := by
  refine ⟨h.past, fun jti' => ?_⟩
  show (s.entries.recheck jti t).2.find? jti' = _ ∨
      (s.entries.recheck jti t).2.find? jti' = none ∧ _
  unfold MemoryAccessTokenBlacklist.recheck
  split
  · next r hr =>
      split_ifs with hlive
      · exact h.stored jti'
      · rw [Table.find?_erase]
        split_ifs with heq
        · subst heq
          have hlatest := h.find? hr
          refine Or.inr ⟨rfl, r.2, hlatest, ?_⟩
          exact RevokedEntry.deadline_le_of_not_live (Bool.eq_false_iff.mpr hlive) ht
            (h.past hlatest)
        · exact h.stored jti'
  · exact h.stored jti'

end Shared

/-! ## Calls side by side -/

/-- The clock reading a phase works with is not ahead. -/
def Op.Punctual (s : Shared) : Op → Prop
  | .readPhase _ t => t ≤ s.now
  | .writePhase _ t => t ≤ s.now
  | _ => True

/-- Time only advances, revocations only accumulate, and the list stays faithful. -/
def phasesContract : Contract Shared Op where
  rely _ s s' := s.now ≤ s'.now ∧ s.revokes <+: s'.revokes ∧ (s.Faithful → s'.Faithful)
  guar _ s o := o.Punctual s

theorem exec_rely {s : Shared} {o : Op} (ho : o.Punctual s) (i : Nat) (f : Unit) :
    s.now ≤ (exec s i o f).2.now ∧ s.revokes <+: (exec s i o f).2.revokes ∧
      (s.Faithful → (exec s i o f).2.Faithful) := by
  cases o with
  | revoke jti ttlSecs => exact ⟨le_rfl, List.prefix_append _ _, fun h => h.revoke i jti ttlSecs⟩
  | instantNow => exact ⟨le_rfl, List.prefix_rfl, id⟩
  | readPhase jti t => exact ⟨le_rfl, List.prefix_rfl, id⟩
  | writePhase jti t => exact ⟨le_rfl, List.prefix_rfl, fun h => h.writePhase i jti ho⟩

theorem tick_rely (s : Shared) (nanos : Nat) :
    s.now ≤ (tick s nanos).now ∧ s.revokes <+: (tick s nanos).revokes ∧
    (s.Faithful → (tick s nanos).Faithful) :=
  ⟨Int.le_add_of_nonneg_right (Int.natCast_nonneg nanos), List.prefix_rfl, fun h => h.tick nanos⟩

theorem phasesContract_sound : phasesContract.Sound machine where
  refl _ _ := ⟨le_rfl, List.prefix_rfl, id⟩
  trans h h' := ⟨h.1.trans h'.1, h.2.1.trans h'.2.1, fun hs => h'.2.2 (h.2.2 hs)⟩
  exec {_ j _ _} f ho _ := exec_rely ho j f

theorem Shared.length_revokesOf_le {s s' : Shared} (h : s.revokes <+: s'.revokes) (jti : Uuid) :
    (s.revokesOf jti).length ≤ (s'.revokesOf jti).length :=
  (h.sublist.filter _).map _ |>.length_le

/-- The token's latest revocation when the lookup began has reached its deadline, or there is a
later one. -/
def Superseded (jti : Uuid) (e : RevokedEntry) (revokes : Nat) (s : Shared) : Prop :=
  e.deadline ≤ s.now ∨ revokes < (s.revokesOf jti).length

theorem Superseded.mono {jti : Uuid} {e : RevokedEntry} {revokes : Nat} {s s' : Shared}
    (h : Superseded jti e revokes s) (hnow : s.now ≤ s'.now) (hrevokes : s.revokes <+: s'.revokes) :
    Superseded jti e revokes s' :=
  h.imp (fun h => h.trans hnow) fun h => h.trans_le (Shared.length_revokesOf_le hrevokes jti)

theorem latest_of_not_superseded {jti : Uuid} {e : RevokedEntry} {s s' : Shared}
    (he : s.latest jti = some e) (hrevokes : s.revokes <+: s'.revokes)
    (hs : ¬ Superseded jti e (s.revokesOf jti).length s') :
    s'.latest jti = some e := by
  have hsub : (s.revokesOf jti).Sublist (s'.revokesOf jti) := (hrevokes.sublist.filter _).map _
  have hlen : (s'.revokesOf jti).length ≤ (s.revokesOf jti).length :=
    not_lt.mp fun h => hs (Or.inr h)
  rw [Shared.latest, ← hsub.eq_of_length_le hlen]
  exact he

section Lookup
variable {jti : Uuid} {e : RevokedEntry} {i : Nat} {s₀ : Shared}

/-- A phase that runs before the latest revocation is superseded finds it alive. -/
theorem find?_live (h₀ : s₀.Faithful) (he : s₀.latest jti = some e) {s : Shared}
    (hrely : phasesContract.rely i s₀ s) (hs : ¬ Superseded jti e (s₀.revokesOf jti).length s)
    {t : Instant} (hfrom : s₀.now ≤ t) (hto : t ≤ s.now) :
    s.entries.find? jti = some (jti, e) ∧ e.live t = true := by
  have hnow : s.now < e.deadline := not_le.mp fun h => hs (Or.inl h)
  refine ⟨(hrely.2.2 h₀).find?_latest (latest_of_not_superseded he hrely.2.1 hs) hnow, ?_⟩
  exact RevokedEntry.live_of_lt ((h₀.past he).trans hfrom) (hto.trans_lt hnow)

/-- A lookup keeps the contract, and answers `true` unless the revocation it began under is
superseded. -/
theorem wp_isRevoked (A : Prop) (hA : A → s₀.Faithful ∧ s₀.latest jti = some e) :
    wp machine phasesContract i (isRevoked jti)
      (fun answer s => A → answer = true ∨ Superseded jti e (s₀.revokesOf jti).length s) s₀ := by
  intro s₁ h₁
  refine ⟨trivial, fun _ => ?_⟩
  intro s₂ h₂
  change phasesContract.rely i s₁ s₂ at h₂
  have h₀₂ := phasesContract_sound.trans h₁ h₂
  refine ⟨h₂.1, fun _ => ?_⟩
  simp only [machine, exec]
  cases hlookup : s₂.entries.lookup jti s₁.now with
  | some answer =>
      intro ha
      by_cases hs : Superseded jti e (s₀.revokesOf jti).length s₂
      · exact Or.inr hs
      · obtain ⟨hfind, hlive⟩ := find?_live (hA ha).1 (hA ha).2 h₀₂ hs h₁.1 h₂.1
        simp only [MemoryAccessTokenBlacklist.lookup, hfind, hlive, if_true,
          Option.some.injEq] at hlookup
        exact Or.inl hlookup.symm
  | none =>
      intro s₃ h₃
      refine ⟨trivial, fun _ => ?_⟩
      intro s₄ h₄
      change phasesContract.rely i s₃ s₄ at h₄
      have h₀₃ := phasesContract_sound.trans h₀₂ h₃
      refine ⟨h₄.1, fun _ ha => ?_⟩
      by_cases hs : Superseded jti e (s₀.revokesOf jti).length s₄
      · exact Or.inr hs
      · obtain ⟨hfind, hlive⟩ :=
          find?_live (hA ha).1 (hA ha).2 (phasesContract_sound.trans h₀₃ h₄) hs h₀₃.1 h₄.1
        have hanswer : (s₄.entries.recheck jti s₃.now).1 = true := by
          simp only [MemoryAccessTokenBlacklist.recheck, hfind, hlive, if_true]
        exact Or.inl hanswer

end Lookup

theorem wp_isRevokedCall {jti : Uuid} {e : RevokedEntry} {i : Nat} {s₀ : Shared} (A : Prop)
    (hA : A → s₀.Faithful ∧ s₀.latest jti = some e) :
    wp machine phasesContract i (Task.isRevoked jti).prog
      (fun o s => A → o = .answered false → Superseded jti e (s₀.revokesOf jti).length s) s₀ := by
  change wp _ _ i (isRevoked jti >>= _) _ s₀
  rw [wp_bind]
  refine wp_mono ?_ (wp_isRevoked A hA)
  intro answer s h ha ho
  cases ho
  exact (h ha).resolve_left Bool.false_ne_true

theorem wp_task (t : Task) (i : Nat) (s : Shared) :
    wp machine phasesContract i t.prog (fun _ _ => True) s := by
  cases t with
  | revoke jti ttlSecs =>
      intro s' _
      exact ⟨trivial, fun _ => trivial⟩
  | isRevoked jti =>
      refine wp_mono (fun _ _ _ => trivial) (wp_isRevokedCall (e := ⟨0, 0⟩) False False.elim)

section Run
variable (tasks : Nat → Task) (start : Instant) (l : List (Label Unit Nat))

theorem run_wp_task (i : Nat) :
    wp machine phasesContract i ((machine.run (calls tasks start) l).thread i)
    (fun _ _ => True) (machine.run (calls tasks start) l).shared :=
  run_wp phasesContract_sound (fun _ _ _ _ _ _ => trivial)
    (fun _ c nanos _ => tick_rely c.shared nanos)
    (along_true machine _ l) (fun i => wp_task (tasks i) i _) i

theorem run_faithful : (machine.run (calls tasks start) l).shared.Faithful := by
  refine run_shared phasesContract_sound (fun _ _ _ _ _ _ => trivial)
    (fun _ c nanos _ => tick_rely c.shared nanos)
    (fun {c i o k f} _ _ ho h => (exec_rely ho i f).2.2 h) (fun _ h => h.tick _)
    (along_true machine _ l)
    (fun i => wp_task (tasks i) i _) ⟨fun he => ?_, fun jti => Or.inl rfl⟩
  cases he

theorem step_revokesOf (c : Cfg Shared Op Res Outcome) (a : Label Unit Nat) (jti : Uuid) :
    (machine.step c a).shared.revokesOf jti = c.shared.revokesOf jti ∨
    ∃ e, (machine.step c a).shared.revokesOf jti = c.shared.revokesOf jti ++ [e] ∧
      (machine.step c a).shared.entries.find? jti = some (jti, e) := by
  cases a with
  | ext nanos => exact Or.inl rfl
  | run i f =>
      cases hi : c.thread i with
      | ret o =>
          rw [step_ret machine f hi]
          exact Or.inl rfl
      | op o k =>
          rw [step_op machine f hi]
          cases o with
          | instantNow => exact Or.inl rfl
          | readPhase jti' t => exact Or.inl rfl
          | writePhase jti' t => exact Or.inl rfl
          | revoke jti' ttlSecs =>
              have hrevokes := Shared.revokesOf_revoke c.shared i jti' jti ttlSecs
              by_cases heq : jti' = jti
              · subst heq
                rw [if_pos rfl] at hrevokes
                refine Or.inr ⟨_, hrevokes, ?_⟩
                show ((c.shared.entries.filter _).put _).find? jti' = _
                rw [Table.find?_put, if_pos rfl]
              · rw [if_neg heq] at hrevokes
                exact Or.inl hrevokes

/-- An entry stays until its deadline, or until a revocation of its token replaces it. -/
theorem step_entry (a : Label Unit Nat) {jti : Uuid} {e : RevokedEntry}
    (he : (machine.run (calls tasks start) l).shared.entries.find? jti = some (jti, e)) :
    (machine.run (calls tasks start) (l ++ [a])).shared.entries.find? jti = some (jti, e) ∨
    e.deadline ≤ (machine.run (calls tasks start) (l ++ [a])).shared.now ∨
    ∃ e', (machine.run (calls tasks start) (l ++ [a])).shared.revokesOf jti =
        (machine.run (calls tasks start) l).shared.revokesOf jti ++ [e'] ∧
      (machine.run (calls tasks start) (l ++ [a])).shared.entries.find? jti = some (jti, e') := by
  have hafter := run_faithful tasks start (l ++ [a])
  have hlatest := (run_faithful tasks start l).find? he
  have hstep := step_revokesOf (machine.run (calls tasks start) l) a jti
  rw [run_append, run_cons, run_nil] at hafter ⊢
  rcases hstep with hsame | ⟨e', hrevokes, hfind⟩
  · by_cases hnow : (machine.step (machine.run (calls tasks start) l) a).shared.now < e.deadline
    · refine Or.inl (hafter.find?_latest ?_ hnow)
      rw [Shared.latest, hsame]
      exact hlatest
    · exact Or.inr (Or.inl (not_lt.mp hnow))
  · exact Or.inr (Or.inr ⟨e', hrevokes, hfind⟩)

/-- A lookup that begins after the latest revocation of its token answers `true` until that is
superseded. -/
theorem answer_true (l' : List (Label Unit Nat)) {i : Nat} {jti : Uuid} {e : RevokedEntry}
    {answer : Bool} (hi : tasks i = .isRevoked jti)
    (hbegin : (machine.run (calls tasks start) l).thread i = (tasks i).prog)
    (he : (machine.run (calls tasks start) l).shared.latest jti = some e)
    (hs : ¬ Superseded jti e ((machine.run (calls tasks start) l).shared.revokesOf jti).length
      (machine.run (calls tasks start) (l ++ l')).shared)
    (hend : (machine.run (calls tasks start) (l ++ l')).thread i = .ret (.answered answer)) :
    answer = true := by
  have hfaithful := run_faithful tasks start l
  have hwp := run_wp_task tasks start l
  rw [run_append] at hs hend
  generalize machine.run (calls tasks start) l = c at *
  -- from `c` on, thread `i` is a lookup that begins under the revocation `e`
  let Q : Nat → Outcome → Shared → Prop := fun j o s => j = i → o = .answered false →
    Superseded jti e (c.shared.revokesOf jti).length s
  have hQ : ∀ j, wp machine phasesContract j (c.thread j) (Q j) c.shared := by
    intro j
    by_cases hj : j = i
    · subst hj
      rw [hbegin, hi]
      exact wp_mono (fun o s h _ ho => h trivial ho)
        (wp_isRevokedCall True fun _ => ⟨hfaithful, he⟩)
    · exact wp_mono (fun o s _ hji => absurd hji hj) (hwp j)
  have hpost : Q i (.answered answer) (machine.run c l').shared :=
    run_post phasesContract_sound (fun j o s s' hrely h hj ho => (h hj ho).mono hrely.1 hrely.2.1)
      (fun _ c nanos _ => tick_rely c.shared nanos) (along_true machine c l') hQ hend
  cases answer with
  | true => rfl
  | false => exact absurd (hpost rfl rfl) hs

end Run

/-- **A lookup is as good as atomic.** In every run of revocations and lookups on a new list:

* a step leaves an entry in place until its own deadline, unless it is a revocation of the same
  token;
* the write phase of a lookup leaves the latest revocation of its token in place until its deadline,
  also one that was completed after the read phase;
* a lookup that begins after the latest revocation of its token, during which no other revocation of
  it completes and which ends before the deadline, answers `true`;
* right after a revocation, the entries of other tokens have not reached their deadline. -/
theorem lookup_atomic (tasks : Nat → Task) (start : Instant) :
    (∀ l a jti e, (machine.run (calls tasks start) l).shared.entries.find? jti = some (jti, e) →
      (machine.run (calls tasks start) (l ++ [a])).shared.entries.find? jti = some (jti, e) ∨
      e.deadline ≤ (machine.run (calls tasks start) (l ++ [a])).shared.now ∨
      ∃ e', (machine.run (calls tasks start) (l ++ [a])).shared.revokesOf jti =
          (machine.run (calls tasks start) l).shared.revokesOf jti ++ [e'] ∧
        (machine.run (calls tasks start) (l ++ [a])).shared.entries.find? jti = some (jti, e')) ∧
    (∀ l i jti t k e, (machine.run (calls tasks start) l).thread i = .op (.writePhase jti t) k →
      (machine.run (calls tasks start) l).shared.latest jti = some e →
      (machine.run (calls tasks start) l).shared.now < e.deadline →
      (machine.run (calls tasks start) (l ++ [.run i ()])).shared.entries.find? jti =
        some (jti, e)) ∧
    (∀ l l' i jti e answer, tasks i = .isRevoked jti →
      (machine.run (calls tasks start) l).thread i = (tasks i).prog →
      (machine.run (calls tasks start) l).shared.latest jti = some e →
      (machine.run (calls tasks start) (l ++ l')).shared.revokesOf jti =
        (machine.run (calls tasks start) l).shared.revokesOf jti →
      (machine.run (calls tasks start) (l ++ l')).shared.now < e.deadline →
      (machine.run (calls tasks start) (l ++ l')).thread i = .ret (.answered answer) →
        answer = true) ∧
    (∀ l i jti ttlSecs k, (machine.run (calls tasks start) l).thread i =
      .op (.revoke jti ttlSecs) k →
      ∀ r ∈ (machine.run (calls tasks start) (l ++ [.run i ()])).shared.entries.rows, r.1 ≠ jti →
        (machine.run (calls tasks start) l).shared.now < r.2.deadline) := by
  refine ⟨fun l a jti e he => step_entry tasks start l a he, ?_, ?_, ?_⟩
  · intro l i jti t k e hi he hnow
    have hafter := run_faithful tasks start (l ++ [.run i ()])
    rw [run_append, run_cons, run_nil, step_op machine () hi] at hafter ⊢
    exact hafter.find?_latest he hnow
  · intro l l' i jti e answer hi hbegin he hsame hnow hend
    refine answer_true tasks start l l' hi hbegin he ?_ hend
    rintro (hdone | hlater)
    · exact absurd hnow (not_lt.mpr hdone)
    · rw [hsame] at hlater
      exact lt_irrefl _ hlater
  · intro l i jti ttlSecs k hi r hr hne
    rw [run_append, run_cons, run_nil, step_op machine () hi] at hr
    rcases Table.mem_put.mp hr with rfl | ⟨hr, -⟩
    · exact absurd rfl hne
    · have hlive : withinTtl _ r.2.revokedAt r.2.ttl = true := (Table.mem_filter.mp hr).2
      exact lt_end_of_withinTtl hlive

/-- Token 1 is revoked for a second, looked up, revoked for another second and looked up again, and
token 2 is revoked. -/
def renewedTasks : Nat → Task
  | 0 => .revoke 1 1
  | 1 => .isRevoked 1
  | 2 => .revoke 1 1
  | 3 => .isRevoked 1
  | _ => .revoke 2 1

/-- The lookup has found the first revocation expired and is about to take the write lock. -/
def fellThrough : List (Label Unit Nat) := [.run 0 (), .ext 1000000000, .run 1 (), .run 1 ()]

/-- The second revocation completes, and the lookup goes on at once. -/
def renewedInTime : List (Label Unit Nat) := fellThrough ++ [.run 2 (), .run 1 ()]

/-- The lookup leaves the second revocation in place, and so does the revocation of token 2. The
second lookup finds it. -/
theorem lookup_atomic_renewed :
    (machine.run (calls renewedTasks 0) (renewedInTime ++ [.run 1 ()])).shared.entries.find? 1 =
      some (1, ⟨1000000000, 1000000000⟩) ∧
    (∃ answer, (machine.run (calls renewedTasks 0)
      (renewedInTime ++ [.run 3 (), .run 3 ()])).thread 3 = .ret (.answered answer) ∧
      answer = true) ∧
    (machine.run (calls renewedTasks 0) (renewedInTime ++ [.run 4 ()])).shared.entries.find? 1 =
      some (1, ⟨1000000000, 1000000000⟩) ∧
    ∀ r ∈ (machine.run (calls renewedTasks 0) (renewedInTime ++ [.run 4 ()])).shared.entries.rows,
      r.1 ≠ 2 → (machine.run (calls renewedTasks 0) renewedInTime).shared.now < r.2.deadline := by
  obtain ⟨hstays, hwrite, hanswer, hunexpired⟩ := lookup_atomic renewedTasks 0
  refine ⟨?_, ⟨true, rfl, ?_⟩, ?_, hunexpired renewedInTime 4 2 1 _ rfl⟩
  · exact hwrite renewedInTime 1 1 1000000000 _ _ rfl rfl (by decide)
  · exact hanswer renewedInTime [.run 3 (), .run 3 ()] 3 1 _ true rfl rfl rfl rfl (by decide) rfl
  · rcases hstays renewedInTime (.run 4 ()) 1 ⟨1000000000, 1000000000⟩ rfl with hkept | hover |
      ⟨e, hrevokes, -⟩
    · exact hkept
    · exact absurd hover (by decide)
    · have hsame :
          (machine.run (calls renewedTasks 0) (renewedInTime ++ [.run 4 ()])).shared.revokesOf 1 =
          (machine.run (calls renewedTasks 0) renewedInTime).shared.revokesOf 1 := rfl
      exact absurd (hsame.symm.trans hrevokes) (by simp)

/-- The second revocation completes, and another second passes before the lookup goes on. -/
def renewedInBetween : List (Label Unit Nat) :=
  fellThrough ++ [.run 2 (), .ext 1000000000, .run 1 ()]

/-- A revocation completed between the phases that has reached its own deadline is taken out by the
lookup. -/
theorem renewed_erased :
    (∃ k, (machine.run (calls renewedTasks 0) fellThrough).thread 1 = .op .instantNow k) ∧
    (machine.run (calls renewedTasks 0) fellThrough).thread 2 = (renewedTasks 2).prog ∧
    (machine.run (calls renewedTasks 0) renewedInBetween).thread 2 = .ret .revoked ∧
    (machine.run (calls renewedTasks 0) renewedInBetween).shared.entries.find? 1 =
      some (1, ⟨1000000000, 1000000000⟩) ∧
    (machine.run (calls renewedTasks 0) (renewedInBetween ++ [.run 1 ()])).shared.entries.find? 1 =
      none ∧
    (machine.run (calls renewedTasks 0) (renewedInBetween ++ [.run 1 ()])).thread 1 =
      .ret (.answered false) :=
  ⟨⟨_, rfl⟩, rfl, rfl, rfl, rfl, rfl⟩

end AppHome.Phases
