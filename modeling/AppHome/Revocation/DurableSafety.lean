import AppHome.Revocation.Durable

/-!
# Every copy of a durable revocation reaches its deadline

Every call of `revoke` for a token comes early enough that its TTL reaches the token's deadline `D`
(`Cluster.Timely`). Then every copy of the revocation reaches `D` as well (`Cluster.Bounded`): the
key in Redis, the row of the outbox, the entry of a pending set and the statements still to take
effect.

* `Cluster.Step` : what one step may do, when it meets its promise `Op.Fit` (`exec_step`);
* `Cluster.Protected`, `Cluster.Shielded` : Redis has the token, or the outbox, or the instance's
  pending set;
* `Cluster.Keeps`, `keeping` : how the state may change under such steps, and the contract that says
  so.
-/

namespace AppHome.Durable

open Interleave

section Deadline
variable (D : Instant) (jti : Uuid)

/-! ## The invariant -/

/-- Every `revoke` of the token was called with a TTL that reaches the deadline. -/
def Cluster.Timely (s : Cluster) : Prop :=
  ∀ c ∈ s.calls, c.jti = jti → D ≤ c.time + ofSecs c.ttlSecs

/-- Redis has the token until the deadline, or the deadline has passed. -/
def Cluster.InRedis (s : Cluster) : Prop :=
  D ≤ s.now ∨ ∃ e, s.redis.find? jti = some (jti, e) ∧ D ≤ e

/-- A TTL that reaches the deadline from now on, if it is for this token. -/
def Cluster.Reaches (s : Cluster) (jti' : Uuid) (ttlSecs : Nat) : Prop :=
  jti' = jti → D ≤ s.now + ofSecs ttlSecs

/-- A statement that does no harm: it stores the token for long enough, or deletes its row only when
Redis has it. -/
def Write.Fit (s : Cluster) : Write → Prop
  | .setEx jti' ttlSecs => s.Reaches D jti jti' ttlSecs
  | .journal jti' ttlSecs => s.Reaches D jti jti' ttlSecs
  | .deleteExpired => True
  | .deleteFlushed flushed => jti ∈ flushed → s.InRedis D jti

/-- Every copy of the revocation reaches the deadline. -/
structure Cluster.Bounded (s : Cluster) : Prop where
  keys : ∀ e, s.redis.find? jti = some (jti, e) → D ≤ e
  rows : ∀ r ∈ s.outbox.rows, r.jti = jti → D ≤ r.expiresAt ∧ D ≤ s.now + ofSecs r.ttlSecs
  pending : ∀ inst e, (s.pending inst).find? jti = some (jti, e) →
    e.addedAt ≤ s.now ∧ D ≤ e.addedAt + e.ttl
  late : ∀ w ∈ s.late, w.Fit D jti s

/-- Redis or the outbox has the token. -/
def Cluster.Protected (s : Cluster) : Prop :=
  s.InRedis D jti ∨ ∃ r ∈ s.outbox.rows, r.jti = jti

/-- Redis or the pending set of the instance has the token. -/
def Cluster.Shielded (inst : Nat) (s : Cluster) : Prop :=
  s.InRedis D jti ∨ ∃ e, (s.pending inst).find? jti = some (jti, e)

/-- What a call promises about its next step. -/
def Op.Fit (s : Cluster) : Op → Prop
  | .write w => w.Fit D jti s
  | .pendingInsert _ jti' ttlSecs => s.Reaches D jti jti' ttlSecs
  | .pendingLookup _ _ now => now ≤ s.now
  | .pendingRetain _ flushed now => now ≤ s.now ∧ (jti ∈ flushed → s.InRedis D jti)
  | _ => True

/-- Nothing about the token is stored anywhere. -/
structure Cluster.Fresh (s : Cluster) : Prop where
  keys : s.redis.find? jti = none
  rows : s.outbox.find? jti = none
  pending : ∀ inst, (s.pending inst).find? jti = none
  late : s.late = []

variable {D jti} {s s' : Cluster}

theorem Cluster.Fresh.bounded (h : s.Fresh jti) : s.Bounded D jti where
  keys e he := by
    rw [h.keys] at he
    cases he
  rows r hr hj := absurd hj (Table.find?_eq_none.mp h.rows r hr)
  pending inst e he := by
    rw [h.pending inst] at he
    cases he
  late w hw := by
    rw [h.late] at hw
    cases hw

theorem Cluster.Timely.of_subset (h : s'.Timely D jti) (hc : s.calls ⊆ s'.calls) : s.Timely D jti :=
  fun c hcs => h c (hc hcs)

/-- An entry that is no longer live has reached the deadline. -/
theorem Cluster.Bounded.deadline_le_now (h : s.Bounded D jti) {inst : Nat} {e : PendingEntry}
    {now : Instant} (he : (s.pending inst).find? jti = some (jti, e)) (hnow : now ≤ s.now)
    (hl : e.live now = false) :
    D ≤ s.now := by
  obtain ⟨hadded, hD⟩ := h.pending inst e he
  exact hD.trans ((end_le_of_not_withinTtl hl).trans (max_le hnow hadded))

theorem Cluster.InRedis.holds (h : s.InRedis D jti) (hnow : s.now < D) :
    s.redis.holds jti s.now = true := by
  rcases h with hD | ⟨e, he, hD⟩
  · exact absurd hnow (not_lt.mpr hD)
  · simpa only [Redis.holds_of_find? he, decide_eq_true_eq] using lt_of_lt_of_le hnow hD

/-! ## What a step keeps -/

/-- Time goes on and calls stay recorded; while the calls are timely the copies keep reaching the
deadline, Redis keeps the token, and `P` is kept. -/
structure Cluster.Keeps (D : Instant) (jti : Uuid) (P : Cluster → Prop)
    (s s' : Cluster) : Prop where
  now : s.now ≤ s'.now
  calls : s.calls ⊆ s'.calls
  bounded : s'.Timely D jti → s.Bounded D jti → s'.Bounded D jti
  inRedis : s'.Timely D jti → s.Bounded D jti → s.InRedis D jti → s'.InRedis D jti
  inv : s'.Timely D jti → s.Bounded D jti → P s → P s'

theorem Cluster.Keeps.refl (P : Cluster → Prop) (s : Cluster) : s.Keeps D jti P s :=
  ⟨le_rfl, fun _ h => h, fun _ h => h, fun _ _ h => h, fun _ _ h => h⟩

theorem Cluster.Keeps.trans {P : Cluster → Prop} {s'' : Cluster} (h : s.Keeps D jti P s')
    (h' : s'.Keeps D jti P s'') : s.Keeps D jti P s'' where
  now := h.now.trans h'.now
  calls := fun _ hc => h'.calls (h.calls hc)
  bounded ht hB := h'.bounded ht (h.bounded (ht.of_subset h'.calls) hB)
  inRedis ht hB hR :=
    have ht' := ht.of_subset h'.calls
    h'.inRedis ht (h.bounded ht' hB) (h.inRedis ht' hB hR)
  inv ht hB hP :=
    have ht' := ht.of_subset h'.calls
    h'.inv ht (h.bounded ht' hB) (h.inv ht' hB hP)

/-- While the calls are timely, the copies reach the deadline and `X` holds. -/
def Cluster.While (D : Instant) (jti : Uuid) (X : Cluster → Prop) (s : Cluster) : Prop :=
  s.Timely D jti → s.Bounded D jti ∧ X s

theorem Cluster.While.mono {P X Y : Cluster → Prop} (h : s.While D jti X)
    (hk : s.Keeps D jti P s')
    (hXY : s'.Timely D jti → s.Bounded D jti → (s.InRedis D jti → s'.InRedis D jti) →
      (P s → P s') → X s → Y s') :
    s'.While D jti Y := by
  intro ht
  obtain ⟨hB, hX⟩ := h (ht.of_subset hk.calls)
  exact ⟨hk.bounded ht hB, hXY ht hB (hk.inRedis ht hB) (hk.inv ht hB) hX⟩

/-! ### Statements -/

theorem Cluster.perform_frame {w : Write} (h : s.perform w = some s') :
    s'.now = s.now ∧ s'.calls = s.calls ∧ s'.pending = s.pending ∧ s'.late = s.late := by
  unfold Cluster.perform at h
  split at h
  · cases h
    exact ⟨rfl, rfl, rfl, rfl⟩
  · split_ifs at h
    cases h
    exact ⟨rfl, rfl, rfl, rfl⟩
  · cases h
    exact ⟨rfl, rfl, rfl, rfl⟩
  · cases h
    exact ⟨rfl, rfl, rfl, rfl⟩

theorem Cluster.Reaches.mono {jti' : Uuid} {ttlSecs : Nat} (h : s.Reaches D jti jti' ttlSecs)
    (hnow : s.now ≤ s'.now) : s'.Reaches D jti jti' ttlSecs :=
  fun hj => (h hj).trans (add_le_add_left hnow _)

theorem Write.Fit.mono {w : Write} (h : w.Fit D jti s) (hnow : s.now ≤ s'.now)
    (hR : s.InRedis D jti → s'.InRedis D jti) : w.Fit D jti s' := by
  cases w with
  | setEx jti' ttlSecs => exact Cluster.Reaches.mono h hnow
  | journal jti' ttlSecs => exact Cluster.Reaches.mono h hnow
  | deleteExpired => trivial
  | deleteFlushed flushed => exact fun hj => hR (h hj)

/-- The rows after `INSERT … ON CONFLICT DO NOTHING`: those from before, and one with
the new key. -/
theorem journal_rows (t : Outbox) (r : OutboxRow) :
    (∀ r' ∈ ((t.insert? r).getD t).rows, r' ∈ t.rows ∨ r' = r) ∧
    (∀ r' ∈ t.rows, r' ∈ ((t.insert? r).getD t).rows) ∧
    ∃ r' ∈ ((t.insert? r).getD t).rows, r'.jti = r.jti := by
  by_cases hfree : ∀ r' ∈ t.rows, r'.jti ≠ r.jti
  · obtain ⟨t', ht, hrows⟩ := Table.insert?_of_fresh hfree
    simpa [ht, hrows] using fun r' (h : r' ∈ t.rows) => Or.inl h
  · obtain ⟨r', hr', hj⟩ : ∃ r' ∈ t.rows, r'.jti = r.jti := by
      push Not at hfree
      exact hfree
    have hnone : t.insert? r = none := by
      cases ht : t.insert? r with
      | none => rfl
      | some t' => exact absurd hj ((Table.insert?_eq_some ht).1 r' hr')
    rw [hnone]
    exact ⟨fun r'' h => Or.inl h, fun r'' h => h, r', hr', hj⟩

section Perform
variable {w : Write} (hB : s.Bounded D jti) (hfit : w.Fit D jti s) (h : s.perform w = some s')
include hfit h

theorem Cluster.perform_inRedis (hR : s.InRedis D jti) : s'.InRedis D jti := by
  have hnow := (Cluster.perform_frame h).1
  rcases hR with hD | ⟨e, he, hD⟩
  · exact Or.inl (hnow ▸ hD)
  · refine Or.inr ?_
    cases w with
    | setEx jti' ttlSecs =>
        cases h
        by_cases hj : jti' = jti
        · subst hj
          exact ⟨_, by rw [Redis.find?_setEx, if_pos rfl], hfit rfl⟩
        · exact ⟨e, by rw [Redis.find?_setEx, if_neg hj, he], hD⟩
    | journal jti' ttlSecs =>
        simp only [Cluster.perform, Option.ite_none_right_eq_some, Option.some.injEq] at h
        obtain ⟨-, rfl⟩ := h
        exact ⟨e, he, hD⟩
    | deleteExpired =>
        cases h
        exact ⟨e, he, hD⟩
    | deleteFlushed flushed =>
        cases h
        exact ⟨e, he, hD⟩

include hB

theorem Cluster.perform_bounded : s'.Bounded D jti := by
  obtain ⟨hnow, -, hpending, hlate⟩ := Cluster.perform_frame h
  have hR := Cluster.perform_inRedis hfit h
  have hpend : ∀ inst e, (s'.pending inst).find? jti = some (jti, e) →
      e.addedAt ≤ s'.now ∧ D ≤ e.addedAt + e.ttl := by
    rw [hpending, hnow]
    exact hB.pending
  have hlate' : ∀ w ∈ s'.late, w.Fit D jti s' := by
    rw [hlate]
    exact fun w hw => (hB.late w hw).mono (ge_of_eq hnow) hR
  cases w with
  | setEx jti' ttlSecs =>
      cases h
      refine ⟨fun e he => ?_, hB.rows, hpend, hlate'⟩
      rw [Redis.find?_setEx] at he
      split_ifs at he with hj
      · cases he
        exact hfit rfl
      · exact hB.keys e he
  | journal jti' ttlSecs =>
      simp only [Cluster.perform, Option.ite_none_right_eq_some, Option.some.injEq] at h
      obtain ⟨-, rfl⟩ := h
      refine ⟨hB.keys, fun r hr hj => ?_, hpend, hlate'⟩
      rcases (journal_rows ..).1 r hr with hr | rfl
      · exact hB.rows r hr hj
      · exact ⟨hfit hj, hfit hj⟩
  | deleteExpired =>
      cases h
      exact ⟨hB.keys, fun r hr => hB.rows r (Table.mem_filter.mp hr).1, hpend, hlate'⟩
  | deleteFlushed flushed =>
      cases h
      exact ⟨hB.keys, fun r hr => hB.rows r (Table.mem_filter.mp hr).1, hpend, hlate'⟩

/-- A row of the token leaves the outbox only when its deadline has passed or Redis
has the token. -/
theorem Cluster.perform_protected (hP : s.Protected D jti) : s'.Protected D jti := by
  rcases hP with hR | ⟨r, hr, hj⟩
  · exact Or.inl (Cluster.perform_inRedis hfit h hR)
  cases w with
  | setEx jti' ttlSecs =>
      cases h
      exact Or.inr ⟨r, hr, hj⟩
  | journal jti' ttlSecs =>
      simp only [Cluster.perform, Option.ite_none_right_eq_some, Option.some.injEq] at h
      obtain ⟨-, rfl⟩ := h
      exact Or.inr ⟨r, (journal_rows ..).2.1 r hr, hj⟩
  | deleteExpired =>
      cases h
      by_cases hlive : s.now < r.expiresAt
      · exact Or.inr ⟨r, by simp [hr, hlive], hj⟩
      · exact Or.inl (Or.inl ((hB.rows r hr hj).1.trans (not_lt.mp hlive)))
  | deleteFlushed flushed =>
      by_cases hmem : jti ∈ flushed
      · exact Or.inl (Cluster.perform_inRedis hfit h (hfit hmem))
      · cases h
        exact Or.inr ⟨r, by simp [hr, hj, hmem], hj⟩

end Perform

/-! ### Steps -/

/-- What one step may do to the state. A pending entry of the token is removed only when Redis has
the token. -/
inductive Cluster.Step (D : Instant) (jti : Uuid) (s : Cluster) : Cluster → Prop where
  | same : Step D jti s s
  | tick (nanos : Nat) : Step D jti s { s with now := s.now + nanos }
  | call (c : RevokeCall) : Step D jti s { s with calls := s.calls ++ [c] }
  | write {w : Write} {s' : Cluster} (hfit : w.Fit D jti s) (h : s.perform w = some s') :
    Step D jti s s'
  | postpone {w : Write} (hfit : w.Fit D jti s) : Step D jti s { s with late := s.late ++ [w] }
  | forget (n : Nat) : Step D jti s { s with late := s.late.eraseIdx n }
  | insert (inst : Nat) {jti' : Uuid} {ttlSecs : Nat} (h : s.Reaches D jti jti' ttlSecs) :
      Step D jti s (s.insertPending inst jti' ttlSecs)
  | retain (inst : Nat) {keep : Uuid × PendingEntry → Bool}
      (h : ∀ e, (s.pending inst).find? jti = some (jti, e) → keep (jti, e) = false →
        s.InRedis D jti) :
      Step D jti s (s.retain inst keep)

theorem Cluster.now_le_tick (s : Cluster) (nanos : Nat) : s.now ≤ s.now + nanos :=
  Int.le_add_of_nonneg_right (Int.natCast_nonneg nanos)

theorem Cluster.Step.now_le (h : s.Step D jti s') : s.now ≤ s'.now := by
  cases h with
  | tick nanos => exact s.now_le_tick nanos
  | write hfit h => exact ge_of_eq (Cluster.perform_frame h).1
  | _ => exact le_rfl

theorem Cluster.Step.calls_subset (h : s.Step D jti s') : s.calls ⊆ s'.calls := by
  cases h with
  | call c => exact List.subset_append_left ..
  | write hfit h => exact fun c hc => (Cluster.perform_frame h).2.1 ▸ hc
  | _ => exact fun c hc => hc

theorem Cluster.Step.inRedis (h : s.Step D jti s') (hR : s.InRedis D jti) : s'.InRedis D jti := by
  cases h with
  | tick nanos => exact hR.imp_left fun hD => hD.trans (s.now_le_tick nanos)
  | write hfit h => exact Cluster.perform_inRedis hfit h hR
  | _ => exact hR

theorem find?_retain {inst inst' : Nat} {keep : Uuid × PendingEntry → Bool} :
    ((s.retain inst keep).pending inst').find? jti =
      if inst' = inst then ((s.pending inst).find? jti).filter keep else
        (s.pending inst').find? jti := by
  simp only [Cluster.retain, Function.update_apply]
  split_ifs
  · exact Table.find?_filter ..
  · rfl

theorem find?_insertPending {inst inst' : Nat} {jti' : Uuid} {ttlSecs : Nat} :
    ((s.insertPending inst jti' ttlSecs).pending inst').find? jti =
      if inst' = inst ∧ jti' = jti then some (jti', ⟨s.now, ofSecs ttlSecs⟩)
      else (s.pending inst').find? jti := by
  simp only [Cluster.insertPending, Function.update_apply]
  by_cases hi : inst' = inst
  · subst hi
    simp [Table.find?_put]
  · simp [hi]

theorem Cluster.Bounded.retain (hB : s.Bounded D jti) (inst : Nat)
    (keep : Uuid × PendingEntry → Bool) :
    (s.retain inst keep).Bounded D jti := by
  refine ⟨hB.keys, hB.rows, fun inst' e he => ?_, fun w hw => (hB.late w hw).mono le_rfl id⟩
  rw [find?_retain] at he
  split_ifs at he with hi
  · exact hB.pending inst e (Option.filter_eq_some_iff.mp he).1
  · exact hB.pending inst' e he

theorem Cluster.Step.bounded (h : s.Step D jti s') (hB : s.Bounded D jti) : s'.Bounded D jti := by
  have hlate : ∀ w ∈ s.late, w.Fit D jti s' := fun w hw => (hB.late w hw).mono h.now_le h.inRedis
  cases h with
  | same => exact hB
  | tick nanos =>
      have hnow := s.now_le_tick nanos
      refine ⟨hB.keys, fun r hr hj => ?_, fun inst e he => ?_, hlate⟩
      · obtain ⟨hexp, httl⟩ := hB.rows r hr hj
        exact ⟨hexp, httl.trans (add_le_add_left hnow _)⟩
      · obtain ⟨hadded, hD⟩ := hB.pending inst e he
        exact ⟨hadded.trans hnow, hD⟩
  | call c => exact ⟨hB.keys, hB.rows, hB.pending, hlate⟩
  | write hfit h => exact Cluster.perform_bounded hB hfit h
  | postpone hfit =>
      refine ⟨hB.keys, hB.rows, hB.pending, fun w hw => ?_⟩
      rcases List.mem_append.mp hw with hw | hw
      · exact hlate w hw
      · rw [List.mem_singleton] at hw
        subst hw
        exact hfit.mono le_rfl id
  | forget n =>
    exact ⟨hB.keys, hB.rows, hB.pending, fun w hw => hlate w (List.mem_of_mem_eraseIdx hw)⟩
  | retain inst h => exact hB.retain inst _
  | insert inst h =>
      refine ⟨hB.keys, hB.rows, fun inst' e he => ?_, hlate⟩
      rw [find?_insertPending] at he
      split_ifs at he with hi
      · cases he
        exact ⟨le_rfl, h hi.2⟩
      · exact hB.pending inst' e he

theorem Cluster.Step.protected (h : s.Step D jti s') (hB : s.Bounded D jti)
    (hP : s.Protected D jti) :
    s'.Protected D jti := by
  cases h with
  | write hfit h => exact Cluster.perform_protected hB hfit h hP
  | tick nanos => exact hP.imp_left (Cluster.Step.inRedis (.tick nanos))
  | _ => exact hP

theorem Cluster.Step.shielded {inst : Nat} (h : s.Step D jti s') (hP : s.Shielded D jti inst) :
    s'.Shielded D jti inst := by
  rcases hP with hR | ⟨e, he⟩
  · exact Or.inl (h.inRedis hR)
  cases h with
  | write hfit h => exact Or.inr ⟨e, by rw [(Cluster.perform_frame h).2.2.1, he]⟩
  | insert inst' h =>
      refine Or.inr ?_
      rw [find?_insertPending]
      split_ifs with hi
      · exact ⟨_, by rw [hi.2]⟩
      · exact ⟨e, he⟩
  | @retain inst' keep h =>
      by_cases hi : inst = inst'
      · subst hi
        cases hk : keep (jti, e) with
        | false => exact Or.inl (h e he hk)
        | true =>
          exact Or.inr ⟨e, by rw [find?_retain, if_pos rfl, he, Option.filter_some, if_pos hk]⟩
      · exact Or.inr ⟨e, by rw [find?_retain, if_neg hi, he]⟩
  | _ => exact Or.inr ⟨e, he⟩

theorem performed_step {w : Write} (hfit : w.Fit D jti s) :
    s.Step D jti ((s.perform w).getD s) := by
  cases h : s.perform w with
  | none => exact .same
  | some s' => exact .write hfit h

theorem performed_of_done {w : Write} {i : Nat} {f : Fate} (h : (exec s i (.write w) f).1 = true) :
    s.perform w = some (exec s i (.write w) f).2 := by
  cases f with
  | done =>
      obtain ⟨s', hs'⟩ := Option.isSome_iff_exists.mp h
      simp only [exec, hs', Option.getD_some]
  | failed => cases h
  | failedApplied => cases h
  | failedLate => cases h

theorem exec_step (hB : s.Bounded D jti) {o : Op} (hfit : o.Fit D jti s) (i : Nat) (f : Fate) :
    s.Step D jti (exec s i o f).2 := by
  cases o with
  | call jti' ttlSecs => exact .call _
  | write w =>
      cases f with
      | done => exact performed_step hfit
      | failed => exact .same
      | failedApplied => exact performed_step hfit
      | failedLate => exact .postpone hfit
  | existsKey jti' => cases f <;> exact .same
  | selectBatch => cases f <;> exact .same
  | instantNow => exact .same
  | pendingInsert inst jti' ttlSecs => exact .insert inst hfit
  | pendingLookup inst jti' now =>
      simp only [exec]
      split
      · next e' he' =>
          split_ifs with hl
          · exact .same
          · refine .retain inst fun e he hk => ?_
            have hj : jti = jti' := by simpa using hk
            subst hj
            rw [he] at he'
            cases he'
            exact Or.inl (hB.deadline_le_now he hfit (Bool.eq_false_iff.mpr hl))
      · exact .same
  | pendingRetain inst flushed now =>
      refine .retain inst fun e he hk => ?_
      by_cases hmem : jti ∈ flushed
      · exact hfit.2 hmem
      · have hl : e.live now = false := by simpa [hmem] using hk
        exact Or.inl (hB.deadline_le_now he hfit.1 hl)
  | pendingPrune inst =>
      refine .retain inst fun e he hk => ?_
      exact Or.inl (hB.deadline_le_now he le_rfl hk)

/-- A pending entry of the token goes only when Redis has the token. -/
theorem Cluster.Step.inRedis_of_removed {inst : Nat} (h : s.Step D jti s') {e : PendingEntry}
    (he : (s.pending inst).find? jti = some (jti, e)) (hgone : (s'.pending inst).find? jti = none) :
    s.InRedis D jti := by
  cases h with
  | write hfit h =>
      rw [(Cluster.perform_frame h).2.2.1, he] at hgone
      cases hgone
  | insert inst' h =>
      rw [find?_insertPending] at hgone
      split_ifs at hgone
      rw [he] at hgone
      cases hgone
  | @retain inst' keep h =>
      rw [find?_retain] at hgone
      split_ifs at hgone with hi
      · subst hi
        refine h e he ?_
        simpa [he] using hgone
      · rw [he] at hgone
        cases hgone
  | _ =>
      rw [he] at hgone
      cases hgone

/-! ## The contract -/

/-- A property that steps keep. -/
def Kept (D : Instant) (jti : Uuid) (P : Cluster → Prop) : Prop :=
  ∀ s s' : Cluster, s.Bounded D jti → s.Step D jti s' → P s → P s'

theorem protected_kept : Kept D jti (Cluster.Protected D jti) := fun _ _ hB h => h.protected hB

theorem shielded_kept (inst : Nat) : Kept D jti (Cluster.Shielded D jti inst) :=
  fun _ _ _ h => h.shielded

theorem true_kept : Kept D jti fun _ => True := fun _ _ _ _ _ => trivial

variable {P : Cluster → Prop}

theorem Cluster.Step.keeps (hP : Kept D jti P) (h : s.Step D jti s') : s.Keeps D jti P s' :=
  ⟨h.now_le, h.calls_subset, fun _ => h.bounded, fun _ _ => h.inRedis, fun _ hB => hP _ _ hB h⟩

theorem Cluster.keeps_of_step (hP : Kept D jti P) (hnow : s.now ≤ s'.now)
    (hcalls : s.calls ⊆ s'.calls) (h : s.Timely D jti → s.Bounded D jti → s.Step D jti s') :
    s.Keeps D jti P s' where
  now := hnow
  calls := hcalls
  bounded ht hB := (h (ht.of_subset hcalls) hB).bounded hB
  inRedis ht hB := (h (ht.of_subset hcalls) hB).inRedis
  inv ht hB := hP _ _ hB (h (ht.of_subset hcalls) hB)

theorem performed_frame (s : Cluster) (w : Write) :
    ((s.perform w).getD s).now = s.now ∧ ((s.perform w).getD s).calls = s.calls ∧
      ((s.perform w).getD s).late = s.late := by
  cases h : s.perform w with
  | none => exact ⟨rfl, rfl, rfl⟩
  | some s' =>
      obtain ⟨hnow, hcalls, -, hlate⟩ := Cluster.perform_frame h
      exact ⟨hnow, hcalls, hlate⟩

theorem exec_frame (s : Cluster) (i : Nat) (o : Op) (f : Fate) :
    (exec s i o f).2.now = s.now ∧ s.calls ⊆ (exec s i o f).2.calls := by
  cases o with
  | call jti' ttlSecs => exact ⟨rfl, List.subset_append_left ..⟩
  | write w =>
      obtain ⟨hnow, hcalls, -⟩ := performed_frame s w
      cases f with
      | done => exact ⟨hnow, fun c hc => hcalls ▸ hc⟩
      | failed => exact ⟨rfl, fun c hc => hc⟩
      | failedApplied => exact ⟨hnow, fun c hc => hcalls ▸ hc⟩
      | failedLate => exact ⟨rfl, fun c hc => hc⟩
  | existsKey jti' => cases f <;> exact ⟨rfl, fun c hc => hc⟩
  | selectBatch => cases f <;> exact ⟨rfl, fun c hc => hc⟩
  | pendingLookup inst jti' now =>
      simp only [exec]
      split
      · split_ifs <;> exact ⟨rfl, fun c hc => hc⟩
      · exact ⟨rfl, fun c hc => hc⟩
  | _ => exact ⟨rfl, fun c hc => hc⟩

/-- Every call keeps the copies of the token reaching the deadline, and relies on the others for
that and for `P`. -/
def keeping (D : Instant) (jti : Uuid) (P : Cluster → Prop) : Contract Cluster Op :=
  ⟨fun _ => Cluster.Keeps D jti P, fun _ s o => s.While D jti fun s => o.Fit D jti s⟩

theorem exec_keeps (hP : Kept D jti P) {o : Op} (hfit : s.While D jti fun s => o.Fit D jti s)
    (i : Nat) (f : Fate) : s.Keeps D jti P (exec s i o f).2 := by
  obtain ⟨hnow, hcalls⟩ := exec_frame s i o f
  exact Cluster.keeps_of_step hP (ge_of_eq hnow) hcalls fun ht hB => exec_step hB (hfit ht).2 i f

theorem keeping_sound (hP : Kept D jti P) : (keeping D jti P).Sound machine :=
  ⟨fun _ => .refl P, .trans, fun {_ j _ _} f hg _ => exec_keeps hP hg j f⟩

/-- What happens around the calls is no worse, unless a restart breaks `P`. -/
theorem move_keeps (hP : Kept D jti P) (e : Move)
    (hrestart : ∀ inst, e = .restart inst → P s → P (s.retain inst fun _ => false)) :
    s.Keeps D jti P (move s e) := by
  cases e with
  | tick nanos => exact (Cluster.Step.tick nanos).keeps hP
  | restart inst =>
      exact ⟨le_rfl, fun c hc => hc, fun _ hB => hB.retain inst _, fun _ _ hR => hR, fun _ _ =>
        hrestart inst rfl⟩
  | takeEffect n =>
      simp only [move]
      split
      · next w hw =>
          obtain ⟨hnow, hcalls, hlate⟩ := performed_frame s w
          have hmem : w ∈ s.late := List.mem_of_getElem? hw
          have hdone : s.Keeps D jti P ((s.perform w).getD s) :=
            Cluster.keeps_of_step hP (ge_of_eq hnow) (fun c hc => hcalls ▸ hc)
              fun _ hB => performed_step (hB.late w hmem)
          rw [← hlate]
          exact hdone.trans ((Cluster.Step.forget n).keeps hP)
      · exact .refl P s

end Deadline

end AppHome.Durable
