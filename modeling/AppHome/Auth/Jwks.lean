import AppHome.Auth.Domain
import AppHome.Lib.Component

/-!
# The cache of Google's key set

`JwksCache::get_or_fetch` looks at its cell, fetches when there is nothing fresh in it, and then
writes the cell or reads it again. The cell is locked for each of these steps alone, so any number
of calls overlap. A key set is a value of any type `K`.

* `Duration`, `StdInstant` : the standard library's, with the range of `Instant` and the sum that
  can leave it;
* `Shared` : the clock, the cell and, as a history variable, how the fetches so far have ended;
* `getOrFetch` : the call, as a program over the steps of `Op`;
* `Stage`, `Stage.next` : where a call stands and everything its next step can do (`step_stage`);
* `Inv` : what each stage knows of its own fetch, and where the cell comes from (`inv_step`,
  `inv_run`);
* `Stored` : a call whose fetch succeeded has answered;
* `dated` : an entry lives until the sum of its lifetime and the clock as its call read it;
* `cache_keeps_answering` : what calls answer, and what they do to the cell.
-/

namespace AppHome.Jwks

open Interleave

/-! ## Time -/

/-- `std::time::Duration`. -/
structure Duration where
  secs : UInt64
  nanos : Nat
  nanos_lt : nanos < 10 ^ 9

def Duration.fromSecs (secs : UInt64) : Duration := ⟨secs, 0, by decide⟩

/-- `std::time::Instant`, with the `i64` seconds of the platform. -/
structure StdInstant where
  secs : Int
  nanos : Nat
  secs_mem : -2 ^ 63 ≤ secs ∧ secs < 2 ^ 63
  nanos_lt : nanos < 10 ^ 9

namespace StdInstant

/-- The derived `<`. -/
def lt (t u : StdInstant) : Bool := t.secs < u.secs || (t.secs = u.secs && t.nanos < u.nanos)

/-- `Instant::checked_add`. The sum written `+` panics where there is none. -/
def checkedAdd (t : StdInstant) (d : Duration) : Option StdInstant :=
  if hlt : t.secs + d.secs.toNat + ((t.nanos + d.nanos) / 10 ^ 9 : Nat) < 2 ^ 63 then
    some ⟨t.secs + d.secs.toNat + ((t.nanos + d.nanos) / 10 ^ 9 : Nat),
      (t.nanos + d.nanos) % 10 ^ 9, ⟨by have := t.secs_mem; omega, hlt⟩, Nat.mod_lt _ (by decide)⟩
  else none

end StdInstant

/-! ## Steps -/

structure CachedJwks (K : Type) where
  jwks : K
  expiresAt : StdInstant

/-- What a fetch returns: a key set with its lifetime, or an error. -/
abbrev Fetched (K : Type) := Except AuthError (K × Duration)

structure Shared (K : Type) where
  now : StdInstant
  inner : Option (CachedJwks K)
  fetches : List (Nat × Fetched K)

inductive Op (K : Type) where
  | freshRead
  | fetch
  | instantNow
  | write (cached : CachedJwks K)
  | staleRead

abbrev Res {K : Type} : Op K → Type
  | .freshRead => Option K
  | .fetch => Fetched K
  | .instantNow => StdInstant
  | .write _ => Unit
  | .staleRead => Option K

section Cache
variable {K : Type}

/-- The cached key set if it has not expired. -/
def Shared.fresh (s : Shared K) : Option K :=
  (s.inner.filter fun cached => s.now.lt cached.expiresAt).map (·.jwks)

def Shared.fetched (s : Shared K) (i : Nat) (outcome : Fetched K) : Shared K :=
  { s with fetches := s.fetches ++ [(i, outcome)] }

/-- A step holds its lock, if it takes one, from beginning to end. How a fetch ends is its fate. -/
def exec (s : Shared K) (i : Nat) (o : Op K) (f : Fetched K) : Res o × Shared K :=
  match o with
  | .freshRead => (s.fresh, s)
  | .fetch => (f, s.fetched i f)
  | .instantNow => (s.now, s)
  | .write cached => ((), { s with inner := some cached })
  | .staleRead => (s.inner.map (·.jwks), s)

/-- The clock goes on. -/
def advance (s : Shared K) (t : StdInstant) :
    Shared K := if s.now.lt t then { s with now := t } else s

def machine : Machine (Shared K) (Op K) Res (Fetched K) StdInstant := ⟨exec, advance⟩

variable (K) in
/-- A step of a call, with how the fetch ends if it is one, or of the clock. -/
abbrev Step := Label (Fetched K) StdInstant

/-! ## Calls -/

inductive Reply (K : Type) where
  | ok (jwks : K)
  | err (e : AuthError)
  /-- `Instant::now() + ttl` has panicked. -/
  | panicked

abbrev Call (K : Type) := Prog (Op K) Res (Reply K)

def writeCached (jwks : K) (expiresAt : StdInstant) : Call K :=
  .op (.write ⟨jwks, expiresAt⟩) fun _ => .ret (.ok jwks)

/-- After a fetch that succeeded. The clock is read before the write lock is taken. -/
def storeFetched (jwks : K) (ttl : Duration) : Call K :=
  .op .instantNow fun now =>
    match now.checkedAdd ttl with
    | none => .ret .panicked
    | some expiresAt => writeCached jwks expiresAt

/-- After a fetch that failed. -/
def serveStale (e : AuthError) : Call K :=
  .op .staleRead fun
    | some jwks => .ret (.ok jwks)
    | none => .ret (.err e)

def refresh : Call K :=
  .op .fetch fun
    | .ok (jwks, ttl) => storeFetched jwks ttl
    | .error e => serveStale e

def getOrFetch : Call K :=
  .op .freshRead fun
    | some jwks => .ret (.ok jwks)
    | none => refresh

/-- Any number of calls on a new cache, none of them begun. -/
def calls (start : StdInstant) : Cfg (Shared K) (Op K) Res (Reply K) :=
  ⟨⟨start, none, []⟩, fun _ => getOrFetch⟩

/-! ## Stages -/

inductive Stage (K : Type) where
  | start
  | refresh
  | store (jwks : K) (ttl : Duration)
  | write (jwks : K) (expiresAt : StdInstant)
  | stale (e : AuthError)
  | done (r : Reply K)

def Stage.prog : Stage K → Call K
  | .start => getOrFetch
  | .refresh => Jwks.refresh
  | .store jwks ttl => storeFetched jwks ttl
  | .write jwks expiresAt => writeCached jwks expiresAt
  | .stale e => serveStale e
  | .done r => .ret r

/-- The next step of a call, and what it does to the shared state. -/
def Stage.next (s : Shared K) (i : Nat) (f : Fetched K) : Stage K → Stage K × Shared K
  | .start =>
    match s.fresh with
    | some jwks => (.done (.ok jwks), s)
    | none => (.refresh, s)
  | .refresh =>
    match f with
    | .ok (jwks, ttl) => (.store jwks ttl, s.fetched i f)
    | .error e => (.stale e, s.fetched i f)
  | .store jwks ttl =>
    match s.now.checkedAdd ttl with
    | none => (.done .panicked, s)
    | some expiresAt => (.write jwks expiresAt, s)
  | .write jwks expiresAt => (.done (.ok jwks), { s with inner := some ⟨jwks, expiresAt⟩ })
  | .stale e =>
    match s.inner with
    | some cached => (.done (.ok cached.jwks), s)
    | none => (.done (.err e), s)
  | .done r => (.done r, s)

/-- **Everything a step can do.** -/
theorem step_stage {c : Cfg (Shared K) (Op K) Res (Reply K)} {i : Nat} {st : Stage K}
    (h : c.thread i = st.prog) (f : Fetched K) : machine.step c (.run i f) =
      ⟨(st.next c.shared i f).2, Function.update c.thread i (st.next c.shared i f).1.prog⟩ := by
  cases st with
  | start =>
      rw [step_op machine f h]
      show (⟨c.shared, Function.update c.thread i _⟩ : Cfg (Shared K) (Op K) Res (Reply K)) = _
      simp only [machine, exec, Stage.next]
      cases c.shared.fresh <;> rfl
  | refresh =>
      rw [step_op machine f h]
      rcases f with e | ⟨jwks, ttl⟩ <;> rfl
  | store jwks ttl =>
      rw [step_op machine f h]
      simp only [machine, exec, Stage.next]
      cases c.shared.now.checkedAdd ttl <;> rfl
  | write jwks expiresAt =>
      rw [step_op machine f h]
      rfl
  | stale e =>
      rw [step_op machine f h]
      simp only [machine, exec, Stage.next]
      cases c.shared.inner <;> rfl
  | done r =>
      rw [step_ret machine f h]
      show c = ⟨c.shared, Function.update c.thread i (.ret r)⟩
      rw [← show c.thread i = .ret r from h, Function.update_eq_self]

/-! ## What is known at each stage -/

/-- How the fetches of a call have ended. -/
def Shared.fetchesOf (s : Shared K) (i : Nat) : List (Fetched K) :=
  (s.fetches.filter fun p => p.1 = i).map (·.2)

theorem Shared.fetchesOf_fetched (s : Shared K) (i j : Nat) (f : Fetched K) :
    (s.fetched i f).fetchesOf j = if i = j then s.fetchesOf j ++ [f] else s.fetchesOf j := by
  simp only [fetchesOf, fetched, List.filter_append, List.map_append]
  split_ifs with heq <;> simp [heq]

/-- A key set that a fetch has returned. -/
def Shared.Returned (s : Shared K) (jwks : K) : Prop := ∃ i ttl, .ok (jwks, ttl) ∈ s.fetchesOf i

/-- What the cell holds has been returned by a fetch. -/
def Shared.Sourced (s : Shared K) : Prop := ∀ cached, s.inner = some cached → s.Returned cached.jwks

/-- What a call knows of its own fetch. One that fetched with success and has answered leaves the
cell filled. -/
def Stage.At (s : Shared K) (i : Nat) : Stage K → Prop
  | .start => s.fetchesOf i = []
  | .refresh => s.fetchesOf i = []
  | .store jwks ttl => s.fetchesOf i = [.ok (jwks, ttl)]
  | .write jwks _ => ∃ ttl, s.fetchesOf i = [.ok (jwks, ttl)]
  | .stale e => s.fetchesOf i = [.error e]
  | .done (.ok jwks) => s.Returned jwks ∧ ∀ p, .ok p ∈ s.fetchesOf i → s.inner ≠ none
  | .done (.err e) => s.fetchesOf i = [.error e]
  | .done .panicked => ∃ jwks ttl, s.fetchesOf i = [.ok (jwks, ttl)]

/-- Between the states, fetches are only added, none to those of `i`, and the cell
is not emptied. -/
structure Shared.Keeps (i : Nat) (s s' : Shared K) : Prop where
  own : s'.fetchesOf i = s.fetchesOf i
  all : ∀ j, s.fetchesOf j ⊆ s'.fetchesOf j
  inner : s.inner ≠ none → s'.inner ≠ none

theorem Shared.Returned.mono {s s' : Shared K} (h : ∀ j, s.fetchesOf j ⊆ s'.fetchesOf j) {jwks : K}
    (hr : s.Returned jwks) : s'.Returned jwks := by
  obtain ⟨j, ttl, hmem⟩ := hr
  exact ⟨j, ttl, h j hmem⟩

theorem Stage.At.keep {s s' : Shared K} {i : Nat} {st : Stage K} (hk : s.Keeps i s')
    (h : st.At s i) : st.At s' i := by
  obtain ⟨hown, hall, hinner⟩ := hk
  cases st with
  | done r =>
      cases r with
      | ok jwks =>
          refine ⟨Shared.Returned.mono hall h.1, fun p hp => hinner (h.2 p ?_)⟩
          rwa [← hown]
      | err e => exact hown.trans h
      | panicked =>
          obtain ⟨jwks, ttl, hfetch⟩ := h
          exact ⟨jwks, ttl, hown.trans hfetch⟩
  | write jwks expiresAt =>
      obtain ⟨ttl, hfetch⟩ := h
      exact ⟨ttl, hown.trans hfetch⟩
  | start => exact hown.trans h
  | refresh => exact hown.trans h
  | store jwks ttl => exact hown.trans h
  | stale e => exact hown.trans h

theorem Shared.fresh_eq_some {s : Shared K} {jwks : K} (h : s.fresh = some jwks) :
    ∃ cached, s.inner = some cached ∧ s.now.lt cached.expiresAt = true ∧ cached.jwks = jwks := by
  obtain ⟨cached, hc, rfl⟩ := Option.map_eq_some_iff.mp h
  obtain ⟨hinner, hlt⟩ := Option.filter_eq_some_iff.mp hc
  exact ⟨cached, hinner, hlt, rfl⟩

theorem Shared.Keeps.refl (i : Nat) (s : Shared K) : s.Keeps i s :=
  ⟨rfl, fun _ => List.Subset.refl _, id⟩

theorem Shared.fetchesOf_subset (s : Shared K) (i : Nat) (f : Fetched K) (j : Nat) :
    s.fetchesOf j ⊆ (s.fetched i f).fetchesOf j := by
  rw [fetchesOf_fetched]
  split_ifs
  · exact List.subset_append_left _ _
  · exact List.Subset.refl _

theorem Shared.Keeps.fetched (s : Shared K) {i j : Nat} (hne : j ≠ i) (f : Fetched K) :
    s.Keeps j (s.fetched i f) := by
  refine ⟨?_, s.fetchesOf_subset i f, id⟩
  rw [fetchesOf_fetched, if_neg (Ne.symm hne)]

theorem Shared.Sourced.fetched {s : Shared K} (h : s.Sourced) (i : Nat) (f : Fetched K) :
    (s.fetched i f).Sourced :=
  fun cached hc => (h cached hc).mono (s.fetchesOf_subset i f)

/-- The next step keeps the cell's origin, leads to a stage the call is really at, and adds no fetch
to those of another call. -/
theorem next_at {s : Shared K} {i : Nat} {st : Stage K} (f : Fetched K) (hs : s.Sourced)
    (h : st.At s i) :
    (st.next s i f).2.Sourced ∧ (st.next s i f).1.At (st.next s i f).2 i ∧
      ∀ j, j ≠ i → s.Keeps j (st.next s i f).2 := by
  have hkeep : ∀ j, j ≠ i → s.Keeps j s := fun j _ => .refl j s
  cases st with
  | start =>
      simp only [Stage.next]
      cases hfresh : s.fresh with
      | none => exact ⟨hs, h, hkeep⟩
      | some jwks =>
          obtain ⟨cached, hinner, -, rfl⟩ := s.fresh_eq_some hfresh
          refine ⟨hs, ⟨hs cached hinner, fun p hp => ?_⟩, hkeep⟩
          rw [show s.fetchesOf i = [] from h] at hp
          cases hp
  | refresh =>
      have hown : (s.fetched i f).fetchesOf i = [f] := by
        rw [Shared.fetchesOf_fetched, if_pos rfl, show s.fetchesOf i = [] from h, List.nil_append]
      rcases f with e | ⟨jwks, ttl⟩
      · exact ⟨hs.fetched i _, hown, fun j hj => .fetched s hj _⟩
      · exact ⟨hs.fetched i _, hown, fun j hj => .fetched s hj _⟩
  | store jwks ttl =>
      simp only [Stage.next]
      cases s.now.checkedAdd ttl with
      | none => exact ⟨hs, ⟨jwks, ttl, h⟩, hkeep⟩
      | some expiresAt => exact ⟨hs, ⟨ttl, h⟩, hkeep⟩
  | write jwks expiresAt =>
      obtain ⟨ttl, hfetch⟩ := h
      have hreturned : s.Returned jwks := ⟨i, ttl, by rw [hfetch]; exact List.mem_singleton_self _⟩
      have hfilled : some (⟨jwks, expiresAt⟩ : CachedJwks K) ≠ none := Option.some_ne_none _
      refine ⟨fun cached hc => ?_, ⟨hreturned, fun _ _ => hfilled⟩,
        fun j _ => ⟨rfl, fun _ => List.Subset.refl _, fun _ => hfilled⟩⟩
      cases hc
      exact hreturned
  | stale e =>
      simp only [Stage.next]
      cases hinner : s.inner with
      | none => exact ⟨hs, h, hkeep⟩
      | some cached =>
          refine ⟨hs, ⟨hs cached hinner, fun p hp => ?_⟩, hkeep⟩
          rw [show s.fetchesOf i = [.error e] from h] at hp
          cases List.mem_singleton.mp hp
  | done r => exact ⟨hs, h, hkeep⟩

/-- Every call is at a stage, and the cell has its origin. -/
structure Inv (c : Cfg (Shared K) (Op K) Res (Reply K)) : Prop where
  sourced : c.shared.Sourced
  stage : ∀ i, ∃ st : Stage K, c.thread i = st.prog ∧ st.At c.shared i

theorem inv_step {c : Cfg (Shared K) (Op K) Res (Reply K)} (h : Inv c) (a : Step K) :
    Inv (machine.step c a) := by
  cases a with
  | ext t =>
      show Inv ⟨advance c.shared t, c.thread⟩
      unfold advance
      split_ifs
      · exact ⟨h.sourced, h.stage⟩
      · exact h
  | run i f =>
      obtain ⟨st, hprog, hat⟩ := h.stage i
      obtain ⟨hsourced, hnext, hkeep⟩ := next_at f h.sourced hat
      rw [step_stage hprog f]
      refine ⟨hsourced, fun j => ?_⟩
      by_cases hj : j = i
      · subst hj
        exact ⟨_, Function.update_self .., hnext⟩
      · obtain ⟨st', hprog', hat'⟩ := h.stage j
        exact ⟨st', (Function.update_of_ne hj ..).trans hprog', hat'.keep (hkeep j hj)⟩

theorem inv_run {c : Cfg (Shared K) (Op K) Res (Reply K)} (h : Inv c) (l : List (Step K)) :
    Inv (machine.run c l) := by
  induction l generalizing c with
  | nil => exact h
  | cons a l ih => exact ih (inv_step h a)

theorem inv_calls (start : StdInstant) :
    Inv (calls start : Cfg (Shared K) (Op K) Res (Reply K)) := by
  refine ⟨fun cached hc => ?_, fun i => ⟨.start, rfl, rfl⟩⟩
  cases hc

/-! ## Reading a thread's stage off its program -/

theorem Stage.eq_done {st : Stage K} {r : Reply K} (h : st.prog = .ret r) : st = .done r := by
  cases st with
  | done r' =>
      cases h
      rfl
  | _ => cases h

theorem Stage.eq_start {st : Stage K} (h : st.prog = getOrFetch) : st = .start := by
  cases st with
  | start => rfl
  | _ => cases h

theorem Inv.at_done {c : Cfg (Shared K) (Op K) Res (Reply K)} (h : Inv c) {i : Nat} {r : Reply K}
    (hi : c.thread i = .ret r) : (Stage.done r).At c.shared i := by
  obtain ⟨st, hprog, hat⟩ := h.stage i
  rw [hi] at hprog
  rwa [Stage.eq_done hprog.symm] at hat

/-- A call gives up in one place only: its fetch has failed and the cell is empty. -/
theorem Stage.next_err {s : Shared K} {i : Nat} {f : Fetched K} {st : Stage K} {e : AuthError}
    (h : (st.next s i f).1 = .done (.err e)) :
    (st = .stale e ∧ s.inner = none) ∨ st = .done (.err e) := by
  cases st with
  | start =>
      simp only [Stage.next] at h
      split at h <;> cases h
  | refresh =>
      simp only [Stage.next] at h
      split at h <;> cases h
  | store jwks ttl =>
      simp only [Stage.next] at h
      split at h <;> cases h
  | write jwks expiresAt => cases h
  | stale e' =>
      simp only [Stage.next] at h
      split at h
      · cases h
      · next hnone =>
          cases h
          exact Or.inl ⟨rfl, hnone⟩
  | done r => exact Or.inr h

theorem Stage.next_inner (s : Shared K) (i : Nat) (f : Fetched K) (st : Stage K) :
    (st.next s i f).2.inner = s.inner ∨ ∃ jwks expiresAt, st = .write jwks expiresAt := by
  cases st with
  | write jwks expiresAt => exact Or.inr ⟨jwks, expiresAt, rfl⟩
  | _ =>
      refine Or.inl ?_
      simp only [Stage.next]
      try split
      all_goals rfl

/-! ## Whole runs -/

/-- A call whose fetch succeeded has answered. -/
def Stored (c : Cfg (Shared K) (Op K) Res (Reply K)) : Prop :=
  ∃ j jwks ttl r, .ok (jwks, ttl) ∈ c.shared.fetchesOf j ∧ c.thread j = .ret (.ok r)

theorem Stored.filled {c : Cfg (Shared K) (Op K) Res (Reply K)} (h : Stored c) (hc : Inv c) :
    c.shared.inner ≠ none := by
  obtain ⟨j, jwks, ttl, r, hfetch, hj⟩ := h
  exact (hc.at_done hj).2 (jwks, ttl) hfetch

theorem filled_run {c : Cfg (Shared K) (Op K) Res (Reply K)} (h : c.shared.inner ≠ none)
    (l : List (Step K)) : (machine.run c l).shared.inner ≠ none := by
  refine run_rel (R := fun s s' => s.inner ≠ none → s'.inner ≠ none) (fun _ => id)
    (fun {s t u} (h : s.inner ≠ none → t.inner ≠ none) (h' : t.inner ≠ none → u.inner ≠ none) =>
      h' ∘ h)
    ?_ ?_ c l h
  · intro s i o f hs
    cases o with
    | write cached => exact Option.some_ne_none cached
    | _ => exact hs
  · intro s t hs
    show (advance s t).inner ≠ none
    unfold advance
    split_ifs <;> exact hs

theorem fetchesOf_of_done {c : Cfg (Shared K) (Op K) Res (Reply K)} {i : Nat} {r : Reply K}
    (h : c.thread i = .ret r) (l : List (Step K)) :
    (machine.run c l).shared.fetchesOf i = c.shared.fetchesOf i := by
  induction l generalizing c with
  | nil => rfl
  | cons a l ih =>
      cases a with
      | ext t =>
          refine (ih (c := machine.step c (.ext t)) h).trans ?_
          show (advance c.shared t).fetchesOf i = _
          unfold advance
          split_ifs <;> rfl
      | run j f =>
          by_cases hij : i = j
          · subst hij
            rw [run_cons, step_ret machine f h]
            exact ih h
          · refine (ih (c := machine.step c (.run j f))
              ((step_thread_of_ne machine hij f).trans h)).trans ?_
            cases hj : c.thread j with
            | ret r' => rw [step_ret machine f hj]
            | op o k =>
                rw [step_op machine f hj]
                cases o with
                | fetch => exact (Shared.Keeps.fetched c.shared hij f).1
                | _ => rfl

/-- Where a call fails: its own fetch has failed, and the cell is empty. -/
theorem err_step {c : Cfg (Shared K) (Op K) Res (Reply K)} (hc : Inv c) {i : Nat} {e : AuthError}
    {l : List (Step K)} (hbegin : c.thread i = getOrFetch)
    (hend : (machine.run c l).thread i = .ret (.err e)) :
    ∃ l₁ l₂ f, l = l₁ ++ .run i f :: l₂ ∧ (machine.run c l₁).thread i = serveStale e ∧
      (machine.run c l₁).shared.fetchesOf i = [.error e] ∧
      (machine.run c l₁).shared.inner = none := by
  have hne : c.thread i ≠ .ret (.err e) := by
    rw [hbegin]
    intro heq
    cases heq
  obtain ⟨l₁, f, l₂, hl, hbefore, hstep⟩ := run_finish machine hne hend
  have hinv := inv_run hc l₁
  obtain ⟨st, hprog, hat⟩ := hinv.stage i
  rw [step_stage hprog f] at hstep
  simp only [Function.update_self] at hstep
  have hnext := Stage.eq_done hstep
  rcases Stage.next_err hnext with ⟨rfl, hnone⟩ | rfl
  · exact ⟨l₁, l₂, f, hl, hprog, hat, hnone⟩
  · exact absurd hprog hbefore

/-- A call that begins after a store does not fail. -/
theorem no_err_after_store {c : Cfg (Shared K) (Op K) Res (Reply K)} (hc : Inv c) {i : Nat}
    (hstored : Stored c) (hbegin : c.thread i = getOrFetch) (l : List (Step K))
    (e : AuthError) : (machine.run c l).thread i ≠ .ret (.err e) := by
  intro hend
  obtain ⟨l₁, -, -, -, -, -, hnone⟩ := err_step hc hbegin hend
  exact filled_run (hstored.filled hc) l₁ hnone

/-- A call whose fetch succeeded answers with the step that writes the cell. -/
theorem answer_stores {c : Cfg (Shared K) (Op K) Res (Reply K)} (hc : Inv c) {i : Nat}
    {f : Fetched K} {jwks r : K} {ttl : Duration} (hbefore : ∀ r, c.thread i ≠ .ret r)
    (hfetch : .ok (jwks, ttl) ∈ (machine.step c (.run i f)).shared.fetchesOf i)
    (hend : (machine.step c (.run i f)).thread i = .ret (.ok r)) :
    r = jwks ∧ c.shared.fetchesOf i = [.ok (jwks, ttl)] ∧ ∃ expiresAt,
      c.thread i = writeCached jwks expiresAt ∧
      (machine.step c (.run i f)).shared.inner = some ⟨jwks, expiresAt⟩ := by
  obtain ⟨st, hprog, hat⟩ := hc.stage i
  rw [step_stage hprog f] at hfetch hend ⊢
  simp only [Function.update_self] at hend
  have hnext := Stage.eq_done hend
  cases st with
  | start =>
      simp only [Stage.next] at hfetch hnext
      split at hfetch
      · rw [show c.shared.fetchesOf i = [] from hat] at hfetch
        cases hfetch
      · next hnone =>
          rw [hnone] at hnext
          cases hnext
  | refresh =>
      simp only [Stage.next] at hnext
      split at hnext <;> cases hnext
  | store jwks' ttl' =>
      simp only [Stage.next] at hnext
      split at hnext <;> cases hnext
  | write jwks' expiresAt =>
      obtain ⟨ttl', hown⟩ := hat
      cases hnext
      rw [show ((Stage.write r expiresAt).next c.shared i f).2.fetchesOf i = [.ok (r, ttl')] from
        hown] at hfetch
      cases List.mem_singleton.mp hfetch
      exact ⟨rfl, hown, expiresAt, hprog, rfl⟩
  | stale e =>
      simp only [Stage.next] at hfetch
      have hown : c.shared.fetchesOf i = [.error e] := hat
      split at hfetch
      · rw [hown] at hfetch
        cases List.mem_singleton.mp hfetch
      · rw [hown] at hfetch
        cases List.mem_singleton.mp hfetch
  | done r' => exact absurd hprog (hbefore r')

/-- A call that finds an unexpired entry answers it and does not fetch. -/
theorem fresh_answers {c : Cfg (Shared K) (Op K) Res (Reply K)} (hc : Inv c) {i : Nat}
    (hbegin : c.thread i = getOrFetch) {cached : CachedJwks K}
    (hinner : c.shared.inner = some cached) (hlt : c.shared.now.lt cached.expiresAt = true)
    (f : Fetched K) :
    (machine.step c (.run i f)).thread i = .ret (.ok cached.jwks) ∧
      ∀ l, (machine.run c (.run i f :: l)).shared.fetchesOf i = [] := by
  obtain ⟨st, hprog, hat⟩ := hc.stage i
  obtain rfl := Stage.eq_start (hprog.symm.trans hbegin)
  have hfresh : c.shared.fresh = some cached.jwks := by
    rw [Shared.fresh, hinner, Option.filter_some, if_pos hlt]
    rfl
  have hstep := step_stage hprog f
  simp only [Stage.next, hfresh] at hstep
  have hdone : (machine.step c (.run i f)).thread i = .ret (.ok cached.jwks) := by
    rw [hstep]
    exact Function.update_self ..
  refine ⟨hdone, fun l => ?_⟩
  rw [run_cons, fetchesOf_of_done hdone, hstep]
  exact hat

theorem failed_keeps_inner {c : Cfg (Shared K) (Op K) Res (Reply K)} (hc : Inv c) {i : Nat}
    {f : Fetched K} {e : AuthError}
    (hfailed : (machine.step c (.run i f)).shared.fetchesOf i = [.error e]) :
    (machine.step c (.run i f)).shared.inner = c.shared.inner := by
  obtain ⟨st, hprog, hat⟩ := hc.stage i
  rw [step_stage hprog f] at hfailed ⊢
  rcases Stage.next_inner c.shared i f st with hsame | ⟨jwks, expiresAt, rfl⟩
  · exact hsame
  · obtain ⟨ttl, hfetch⟩ := hat
    cases hfetch.symm.trans hfailed

theorem fetchesOf_run (c : Cfg (Shared K) (Op K) Res (Reply K)) (l : List (Step K)) (i : Nat) :
    c.shared.fetchesOf i ⊆ (machine.run c l).shared.fetchesOf i := by
  refine run_rel (R := fun s s' => s.fetchesOf i ⊆ s'.fetchesOf i) (fun _ => List.Subset.refl _)
    (fun h h' => List.Subset.trans h h') ?_ ?_ c l
  · intro s j o f
    cases o with
    | fetch => exact s.fetchesOf_subset j f i
    | _ => exact List.Subset.refl _
  · intro s t
    show s.fetchesOf i ⊆ (advance s t).fetchesOf i
    unfold advance
    split_ifs <;> exact List.Subset.refl _

/-! ## The deadline of an entry -/

/-- The clock was read when its sum with `ttl` is as `P` says, or the fetch returned something else
than a key set to be kept for `ttl`. -/
def Dated (ttl : Duration) (P : Option StdInstant → Prop) : (o : Op K) → Res o → Prop
  | .fetch, f => ∀ jwks, f ≠ .ok (jwks, ttl)
  | .instantNow, now => P (now.checkedAdd ttl)
  | _, _ => False

/-- The operation writes an entry with such a deadline. -/
def WritesDated (P : Option StdInstant → Prop) (o : Op K) : Prop :=
  ∃ jwks expiresAt, o = .write ⟨jwks, expiresAt⟩ ∧ P (some expiresAt)

theorem until_getOrFetch (ttl : Duration) (P : Option StdInstant → Prop) :
    (getOrFetch : Call K).Until (WritesDated P) (Dated ttl P) fun r => r = .panicked → ¬ P none := by
  have hquiet : ∀ {o : Op K}, (∀ cached, o ≠ .write cached) → ¬ WritesDated P o := by
    rintro o ho ⟨jwks, expiresAt, rfl, -⟩
    exact ho _ rfl
  refine ⟨hquiet (fun _ h => by cases h), fun fresh _ => ?_⟩
  cases fresh with
  | some jwks => exact fun h => by cases h
  | none =>
      refine ⟨hquiet (fun _ h => by cases h), fun f hf => ?_⟩
      obtain ⟨jwks, hjwks⟩ := not_forall.mp hf
      rw [not_not.mp hjwks]
      refine ⟨hquiet (fun _ h => by cases h), fun now hnow => ?_⟩
      have hsum : ¬ P (now.checkedAdd ttl) := hnow
      show Prog.Until _ _ _ (match now.checkedAdd ttl with
        | none => .ret .panicked
        | some expiresAt => writeCached jwks expiresAt)
      cases hadd : now.checkedAdd ttl with
      | none =>
          rw [hadd] at hsum
          exact fun _ => hsum
      | some expiresAt =>
          rw [hadd] at hsum
          refine ⟨?_, fun _ _ h => by cases h⟩
          rintro ⟨jwks', expiresAt', h, hP⟩
          cases h
          exact hsum hP

/-- A call that has come to such a write, or has panicked, read the clock after its fetch. -/
theorem dated {start : StdInstant} {l : List (Step K)} {i : Nat} {jwks : K} {ttl : Duration}
    {P : Option StdInstant → Prop}
    (hfetch : (machine.run (calls start) l).shared.fetchesOf i = [.ok (jwks, ttl)])
    (hreaches : ((machine.run (calls start) l).thread i).Reaches (WritesDated P)
      fun r => r = .panicked → ¬ P none) :
    ∃ l₁, l₁ <+: l ∧ (machine.run (calls start) l₁).thread i = storeFetched jwks ttl ∧
      P ((machine.run (calls start) l₁).shared.now.checkedAdd ttl) := by
  obtain ⟨l₁, f, l₂, o, k, rfl, hthread, hopens⟩ :=
    run_until machine (c := calls start) (until_getOrFetch ttl P) hreaches
  obtain ⟨st, hprog, hat⟩ := (inv_run (inv_calls start) l₁).stage i
  have hlater := fetchesOf_run (machine.run (calls start) l₁) (.run i f :: l₂) i
  rw [← run_append, hfetch] at hlater
  cases o with
  | fetch =>
      have hstep := fetchesOf_run (machine.step (machine.run (calls start) l₁) (.run i f)) l₂ i
      rw [← run_cons, ← run_append, hfetch, step_op machine f hthread] at hstep
      have hmem : f ∈ ((machine.run (calls start) l₁).shared.fetched i f).fetchesOf i := by
        rw [Shared.fetchesOf_fetched, if_pos rfl]
        exact List.mem_append_right _ (List.mem_singleton_self f)
      exact absurd (List.mem_singleton.mp (hstep hmem)) (hopens jwks)
  | instantNow =>
      cases st with
      | store jwks' ttl' =>
          have hown : (machine.run (calls start) l₁).shared.fetchesOf i = [.ok (jwks', ttl')] := hat
          rw [hown] at hlater
          cases List.mem_singleton.mp (hlater (List.mem_singleton_self _))
          exact ⟨l₁, List.prefix_append .., hprog, hopens⟩
      | _ => cases hthread.symm.trans hprog
  | _ => exact hopens.elim

/-- Where the calls on a new cache stand after the steps `l`. -/
def after (start : StdInstant) (l : List (Step K)) : Cfg (Shared K) (Op K) Res (Reply K) :=
  machine.run (calls start) l

/-- **The cache does not go back to failure.** In any interleaving of any number of calls on a new
cache, whatever their fetches return:
* an answer is a key set that some fetch returned;
* a call whose fetch succeeded answers it and leaves it in the cell, until the sum of its lifetime
  and the clock as the call read it after the fetch;
* a call fails only when its own fetch failed, at a read of the empty cell before which no call with
  a successful fetch had answered, so none that begins after such an answer fails;
* a call that finds an unexpired entry answers it and does not fetch;
* no step of a call whose fetch failed, that fetch included, changes the cell;
* and a call panics only on a lifetime that cannot be added to the clock as it read it. -/
theorem cache_keeps_answering (start : StdInstant) (l : List (Step K)) (i : Nat) :
    (∀ jwks, (after start l).thread i = .ret (.ok jwks) →
      ∃ j ttl, .ok (jwks, ttl) ∈ (after start l).shared.fetchesOf j) ∧
    (∀ (f : Fetched K) (jwks r : K) (ttl : Duration), (∀ r, (after start l).thread i ≠ .ret r) →
      .ok (jwks, ttl) ∈ (after start (l ++ [(.run i f : Step K)])).shared.fetchesOf i →
      (after start (l ++ [(.run i f : Step K)])).thread i = .ret (.ok r) →
      r = jwks ∧ ∃ (l₁ : List (Step K)) (expiresAt : StdInstant), l₁ <+: l ∧
        (after start l₁).thread i = storeFetched jwks ttl ∧
        (after start l₁).shared.now.checkedAdd ttl = some expiresAt ∧
        (after start (l ++ [(.run i f : Step K)])).shared.inner = some ⟨jwks, expiresAt⟩) ∧
    (∀ e, (after start l).thread i = .ret (.err e) →
      ∃ (l₁ l₂ : List (Step K)) (f : Fetched K), l = l₁ ++ .run i f :: l₂ ∧
        (after start l₁).thread i = serveStale e ∧
        (after start l₁).shared.fetchesOf i = [.error e] ∧
        (after start l₁).shared.inner = none ∧ ¬ Stored (after start l₁)) ∧
    (Stored (after start l) → (after start l).thread i = getOrFetch →
      ∀ (l' : List (Step K)) (e : AuthError), (after start (l ++ l')).thread i ≠ .ret (.err e)) ∧
    (∀ (cached : CachedJwks K) (f : Fetched K), (after start l).thread i = getOrFetch →
      (after start l).shared.inner = some cached →
        (after start l).shared.now.lt cached.expiresAt = true →
      (after start (l ++ [(.run i f : Step K)])).thread i = .ret (.ok cached.jwks) ∧
        ∀ l', (after start (l ++ (.run i f : Step K) :: l')).shared.fetchesOf i = []) ∧
    (∀ (f : Fetched K) (e : AuthError),
      (after start (l ++ [(.run i f : Step K)])).shared.fetchesOf i = [.error e] →
      (after start (l ++ [(.run i f : Step K)])).shared.inner = (after start l).shared.inner) ∧
    ((after start l).thread i = .ret .panicked →
      ∃ (l₁ : List (Step K)) (jwks : K) (ttl : Duration), l₁ <+: l ∧
        (after start l).shared.fetchesOf i = [.ok (jwks, ttl)] ∧
        (after start l₁).thread i = storeFetched jwks ttl ∧
        (after start l₁).shared.now.checkedAdd ttl = none) := by
  have hinv : Inv (after start l : Cfg (Shared K) (Op K) Res (Reply K)) :=
    inv_run (inv_calls start) l
  have hafter : ∀ l', after start (l ++ l') = machine.run (after start l) l' :=
    run_append machine _ l
  simp only [hafter, run_cons, run_nil]
  refine ⟨fun jwks h => (hinv.at_done h).1, ?_, fun e h => ?_, ?_, ?_, ?_, fun h => ?_⟩
  · intro f jwks r ttl hbefore hfetch hend
    obtain ⟨hr, hown, expiresAt, hwrite, hinner⟩ := answer_stores hinv hbefore hfetch hend
    obtain ⟨l₁, hl₁, hstore, hsum⟩ := dated (P := (· = some expiresAt)) hown (by
      rw [show (machine.run (calls start) l).thread i = _ from hwrite]
      exact ⟨jwks, expiresAt, rfl, rfl⟩)
    exact ⟨hr, l₁, expiresAt, hl₁, hstore, hsum, hinner⟩
  · obtain ⟨l₁, l₂, f, hl, hthread, hfetch, hnone⟩ := err_step (inv_calls start) rfl h
    exact ⟨l₁, l₂, f, hl, hthread, hfetch, hnone,
      fun hstored => hstored.filled (inv_run (inv_calls start) l₁) hnone⟩
  · exact fun hstored hbegin l' e => no_err_after_store hinv hstored hbegin l' e
  · exact fun cached f hbegin hinner hlt => fresh_answers hinv hbegin hinner hlt f
  · exact fun f e hfailed => failed_keeps_inner hinv hfailed
  · obtain ⟨jwks, ttl, hown⟩ := hinv.at_done h
    obtain ⟨l₁, hl₁, hstore, hsum⟩ := dated (P := (· = none)) hown (by
      rw [show (machine.run (calls start) l).thread i = _ from h]
      exact fun hno => hno rfl rfl)
    exact ⟨l₁, jwks, ttl, hl₁, hown, hstore, hsum⟩

end Cache

/-! ## An outage -/

theorem zero_mem_range : -2 ^ 63 ≤ (0 : Int) ∧ (0 : Int) < 2 ^ 63 := by decide

/-- A clock at its zero. -/
def zeroClock : StdInstant := ⟨0, 0, zero_mem_range, (Duration.fromSecs 0).nanos_lt⟩

def twentySecondsLater : StdInstant := (zeroClock.checkedAdd (.fromSecs 20)).getD zeroClock

def unreachable : Fetched Nat := .error (.internalError "error sending request")

/-- Calls `0` and `1` find the cell empty, and `0` fetches the key set `5` with ten
seconds to live. -/
def firstFetch : List (Step Nat) :=
  [.run 0 unreachable, .run 1 unreachable, .run 0 (.ok (5, .fromSecs 10)), .run 0 unreachable]

/-- Call `0` stores it. Then the fetch of `1` fails, and, when the entry has expired,
that of `2`. -/
def outage : List (Step Nat) :=
  firstFetch ++
    ([.run 0 unreachable, .run 1 unreachable, .run 1 unreachable, .ext twentySecondsLater,
    .run 2 unreachable, .run 2 unreachable, .run 2 unreachable] : List (Step Nat))

theorem outage_stored : Stored (after zeroClock outage) := by
  have hfetch : (after zeroClock outage).shared.fetchesOf 0 = [.ok (5, .fromSecs 10)] := rfl
  refine ⟨0, 5, .fromSecs 10, 5, ?_, rfl⟩
  rw [hfetch]
  exact List.mem_singleton_self _

/-- The store, the two stale answers, and a call that begins after them. -/
theorem cache_keeps_answering_outage :
    (∃ l₁ expiresAt, l₁ <+: firstFetch ∧
      (after zeroClock l₁).thread 0 = storeFetched 5 (.fromSecs 10) ∧
      (after zeroClock l₁).shared.now.checkedAdd (.fromSecs 10) = some expiresAt ∧
      (after zeroClock (firstFetch ++ [.run 0 unreachable])).shared.inner = some ⟨5, expiresAt⟩) ∧
    (after zeroClock outage).thread 1 = .ret (.ok 5) ∧
    (after zeroClock outage).thread 2 = .ret (.ok 5) ∧
    (after zeroClock outage).shared.fetchesOf 2 = [unreachable] ∧
    (after zeroClock outage).shared.fresh = none ∧
    (∃ j ttl, .ok (5, ttl) ∈ (after zeroClock outage).shared.fetchesOf j) ∧
    ∀ (l : List (Step Nat)) (e : AuthError),
      (after zeroClock (outage ++ l)).thread 3 ≠ .ret (.err e) := by
  have hfetch : (after zeroClock (firstFetch ++ [.run 0 unreachable])).shared.fetchesOf 0 =
    [.ok (5, .fromSecs 10)] := rfl
  have hmem : .ok (5, .fromSecs 10) ∈
      (after zeroClock (firstFetch ++ [.run 0 unreachable])).shared.fetchesOf 0 := by
    rw [hfetch]
    exact List.mem_singleton_self _
  have hend : (after zeroClock (firstFetch ++ [.run 0 unreachable])).thread 0 = .ret (.ok 5) := rfl
  have hstore := (cache_keeps_answering zeroClock firstFetch 0).2.1 unreachable 5 5 (.fromSecs 10)
    (fun r h => by cases h) hmem hend
  have hanswer := (cache_keeps_answering zeroClock outage 2).1 5 rfl
  have hlater := (cache_keeps_answering zeroClock outage 3).2.2.2.1 outage_stored rfl
  exact ⟨hstore.2, rfl, rfl, rfl, rfl, hanswer, hlater⟩

end AppHome.Jwks
