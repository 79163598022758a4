import AppHome.Auth.UseCases
import AppHome.Lib.Permits

/-!
# The bcrypt limiter

`BcryptLimiter` holds a pointer to a semaphore, and its clones hold the same one. A call of
`run_bounded` waits for a permit, moves it into the task it gives to the blocking pool, and waits
for that task. The caller's future can be dropped at any point; the task is then detached and keeps
its permit.

* `Stage`, `Job.move` : where a call stands, what can happen to it and who gives a permit back when;
* `State`, `step`, `run` : any interleaving of limiters, clones, calls and moves;
* `Accounted` : the permits of a limiter add up (`step_accounted`, `run_accounted`);
* `permits_never_leak` : what this says of the closures that run, and `limit_reached` that the limit
  is exact;
* `answered_run` : what the callers get is an answer of `runBounded`.
-/

namespace AppHome

open Permits

/-- The `Arc<Semaphore>`, as an index into the semaphores there are. -/
structure BcryptLimiter where
  semaphore : Nat
  deriving DecidableEq

namespace BcryptLimiter

/-- Where a call of `run_bounded` stands. `caller` says whether its future is still there. -/
inductive Stage (α : Type) where
  /-- In `acquire_owned`, without a permit. -/
  | waiting
  /-- A permit is the future's own: the semaphore has handed it over, and `spawn_blocking` is still
  to come. -/
  | granted
  /-- The closure, with the permit in it, is in the queue of the blocking pool. -/
  | dispatched (caller : Bool)
  | running (caller : Bool)
  | ended (answer : Option (Except AuthError α))

/-- A call: the limiter it is made on, what its closure computes, and where it stands. -/
structure Job (α : Type) where
  limiter : BcryptLimiter
  f : α
  stage : Stage α

/-- What can happen to a call. -/
inductive Move where
  | grant
  | dispatch
  | start
  | returns
  | panics (e : String)
  /-- The caller's future is dropped. -/
  | cancel
  /-- The pool drops a task that has not started, as it does when the runtime shuts down. -/
  | abort (e : String)

section Jobs
variable {α : Type}

/-- Only a caller that is still there gets the answer. -/
def answer (caller : Bool) (fate : TaskFate) (f : α) : Option (Except AuthError α) :=
  if caller then some (runBounded fate f) else none

/-- The stage a move leads to and what it does to the permits, if it can happen. -/
def Job.move (j : Job α) (m : Move) : Option (Stage α × Effect) :=
  match j.stage, m with
  | .waiting, .grant => some (.granted, .take)
  | .waiting, .cancel => some (.ended none, .keep)
  -- `permit` is moved into the closure
  | .granted, .dispatch => some (.dispatched true, .keep)
  -- it is dropped with the future
  | .granted, .cancel => some (.ended none, .giveBack)
  | .dispatched caller, .start => some (.running caller, .keep)
  -- a dropped `JoinHandle` detaches the task
  | .dispatched _, .cancel => some (.dispatched false, .keep)
  | .dispatched caller, .abort e => some (.ended (answer caller (.failed e) j.f), .giveBack)
  | .running _, .cancel => some (.running false, .keep)
  -- `_permit` is dropped when the closure ends, also by unwinding
  | .running caller, .returns => some (.ended (answer caller .completed j.f), .giveBack)
  | .running caller, .panics e => some (.ended (answer caller (.failed e) j.f), .giveBack)
  | .ended _, .cancel => some (.ended none, .keep)
  | _, _ => none

@[simp] def Stage.isGranted : Stage α → Bool
  | .granted => true
  | _ => false

@[simp] def Stage.isDispatched : Stage α → Bool
  | .dispatched _ => true
  | _ => false

@[simp] def Stage.isRunning : Stage α → Bool
  | .running _ => true
  | _ => false

/-- There is a permit in the future or in the closure. -/
def Stage.holds (s : Stage α) : Bool := s.isGranted || s.isDispatched || s.isRunning

/-- **Every move accounts for the permit**: one that ends the owner of a permit gives it back, one
that passes it on keeps it. -/
theorem Job.move_accounts {j : Job α} {m : Move} {stage : Stage α} {e : Effect}
    (h : j.move m = some (stage, e)) :
    e.Accounts Stage.holds j.stage stage := by
  unfold Job.move at h
  split at h <;> cases h <;> simp_all [Effect.Accounts, Stage.holds]

end Jobs

/-! ## Limiters, clones and calls -/

/-- All semaphores with their free permits, all limiters and all calls. -/
structure State (α : Type) where
  semaphores : List Nat
  limiters : List BcryptLimiter
  jobs : List (Job α)

/-- `Semaphore::MAX_PERMITS`, that is `usize::MAX >> 3`. -/
def maxPermits : Nat := (2 ^ 64 - 1) >>> 3

section Steps
variable {α : Type}

def State.empty : State α := ⟨[], [], []⟩

/-- `Semaphore::new`, which panics on too many permits. -/
def State.newSemaphore (s : State α) (permits : Nat) : Option (Nat × State α) :=
  if permits > maxPermits then none
  else some (s.semaphores.length, { s with semaphores := s.semaphores ++ [permits] })

def new (maxConcurrent : Nat) (s : State α) : Option (BcryptLimiter × State α) := do
  let (semaphore, s) ← s.newSemaphore (max maxConcurrent 1)
  return (⟨semaphore⟩, { s with limiters := s.limiters ++ [⟨semaphore⟩] })

/-- The clone of the `Arc` points to the same semaphore. -/
def clone (l : BcryptLimiter) : BcryptLimiter := ⟨l.semaphore⟩

def State.free (s : State α) (l : BcryptLimiter) : Nat := s.semaphores.getD l.semaphore 0

/-- The calls on a limiter or on a clone of it whose stage satisfies `p`. -/
def State.count (s : State α) (p : Stage α → Bool) (l : BcryptLimiter) : Nat :=
  s.jobs.countP fun j => j.limiter = l && p j.stage

inductive Action (α : Type) where
  | new (maxConcurrent : Nat)
  | clone (i : Nat)
  | call (i : Nat) (f : α)
  | move (i : Nat) (m : Move)

/-- The move of a call, when it can happen. -/
def State.move? (s : State α) (i : Nat) (m : Move) : Option (State α) := do
  let j ← s.jobs[i]?
  let (stage, e) ← j.move m
  let free ← e.apply (s.free j.limiter)
  return { s with
    semaphores := s.semaphores.set j.limiter.semaphore free
    jobs := s.jobs.set i { j with stage } }

/-- What is not possible changes nothing; a panic in `new` leaves no limiter behind. -/
def step (s : State α) : Action α → State α
  | .new maxConcurrent => ((new maxConcurrent s).map (·.2)).getD s
  | .clone i => (s.limiters[i]?.map fun l => { s with limiters := s.limiters ++ [l.clone] }).getD s
  | .call i f =>
    (s.limiters[i]?.map fun l => { s with jobs := s.jobs ++ [⟨l, f, .waiting⟩] }).getD s
  | .move i m => (s.move? i m).getD s

def run (s : State α) (actions : List (Action α)) : State α := actions.foldl step s

theorem new_eq_some {n : Nat} {s s' : State α} {l : BcryptLimiter} (h : new n s = some (l, s')) :
    l = ⟨s.semaphores.length⟩ ∧ s' = ⟨s.semaphores ++ [max n 1], s.limiters ++ [l], s.jobs⟩ := by
  unfold new State.newSemaphore at h
  split_ifs at h
  · cases h
  · cases h
    exact ⟨rfl, rfl⟩

theorem State.move?_eq_some {s s' : State α} {i : Nat} {m : Move} (h : s.move? i m = some s') :
    ∃ j stage e free, s.jobs[i]? = some j ∧ j.move m = some (stage, e) ∧
      e.apply (s.free j.limiter) = some free ∧
      s' = ⟨s.semaphores.set j.limiter.semaphore free, s.limiters,
        s.jobs.set i { j with stage }⟩ := by
  obtain ⟨j, hj, h⟩ := Option.bind_eq_some_iff.mp h
  obtain ⟨⟨stage, e⟩, hm, h⟩ := Option.bind_eq_some_iff.mp h
  obtain ⟨free, hfree, h⟩ := Option.bind_eq_some_iff.mp h
  exact ⟨j, stage, e, free, hj, hm, hfree, (Option.some.inj h).symm⟩

/-- **Everything a step can do**: nothing, make a limiter or a clone, begin a call, or move one. -/
theorem step_rule {s : State α} {P : State α → Prop} (a : Action α) (hstay : P s)
    (hnew : ∀ n l s', new n s = some (l, s') → P s')
    (hclone : ∀ l ∈ s.limiters, P { s with limiters := s.limiters ++ [l.clone] })
    (hcall : ∀ l ∈ s.limiters, ∀ f, P { s with jobs := s.jobs ++ [⟨l, f, .waiting⟩] })
    (hmove : ∀ i m s', s.move? i m = some s' → P s') : P (step s a) := by
  have hgetD : ∀ o : Option (State α), (∀ s', o = some s' → P s') → P (o.getD s) := by
    intro o ho
    cases o with
    | none => exact hstay
    | some s' => exact ho s' rfl
  cases a with
  | new n =>
      apply hgetD
      intro s' h
      obtain ⟨⟨l, s''⟩, hp, rfl⟩ := Option.map_eq_some_iff.mp h
      exact hnew n l s'' hp
  | clone i =>
      apply hgetD
      intro s' h
      obtain ⟨l, hl, rfl⟩ := Option.map_eq_some_iff.mp h
      exact hclone l (List.mem_of_getElem? hl)
  | call i f =>
      apply hgetD
      intro s' h
      obtain ⟨l, hl, rfl⟩ := Option.map_eq_some_iff.mp h
      exact hcall l (List.mem_of_getElem? hl) f
  | move i m => exact hgetD _ (hmove i m)

/-! ## No dangling pointers -/

/-- Every limiter, and the limiter of every call, points to a semaphore. -/
structure State.Sound (s : State α) : Prop where
  limiters : ∀ l ∈ s.limiters, l.semaphore < s.semaphores.length
  jobs : ∀ j ∈ s.jobs, j.limiter.semaphore < s.semaphores.length

theorem step_sound {s : State α} (h : s.Sound) (a : Action α) : (step s a).Sound := by
  refine step_rule a h ?_ ?_ ?_ ?_
  · intro n l s' hnew
    obtain ⟨rfl, rfl⟩ := new_eq_some hnew
    have hlen : (s.semaphores ++ [max n 1]).length = s.semaphores.length + 1 := List.length_append
    constructor
    · intro l hl
      rw [List.mem_append, List.mem_singleton] at hl
      rcases hl with hl | rfl
      · exact hlen ▸ Nat.lt_succ_of_lt (h.limiters l hl)
      · exact hlen ▸ Nat.lt_succ_self _
    · intro j hj
      exact hlen ▸ Nat.lt_succ_of_lt (h.jobs j hj)
  · intro l hl
    refine ⟨fun l' hl' => ?_, h.jobs⟩
    rw [List.mem_append, List.mem_singleton] at hl'
    rcases hl' with hl' | rfl
    · exact h.limiters l' hl'
    · exact h.limiters l hl
  · intro l hl f
    refine ⟨h.limiters, fun j hj => ?_⟩
    rw [List.mem_append, List.mem_singleton] at hj
    rcases hj with hj | rfl
    · exact h.jobs j hj
    · exact h.limiters l hl
  · intro i m s' hmove
    obtain ⟨j, stage, e, free, hj, -, -, rfl⟩ := State.move?_eq_some hmove
    refine ⟨fun l hl => ?_, fun j' hj' => ?_⟩
    · rw [List.length_set]
      exact h.limiters l hl
    · rw [List.length_set]
      rcases List.mem_or_eq_of_mem_set hj' with hj' | rfl
      · exact h.jobs j' hj'
      · exact h.jobs j (List.mem_of_getElem? hj)

theorem run_sound {s : State α} (h : s.Sound) (actions : List (Action α)) :
    (run s actions).Sound := by
  induction actions generalizing s with
  | nil => exact h
  | cons a actions ih => exact ih (step_sound h a)

theorem empty_sound : (State.empty : State α).Sound :=
  ⟨by simp [State.empty], by simp [State.empty]⟩

/-! ## Permits -/

/-- The limiter has this many permits in all: free ones, and those of calls on it or on a clone of
it. -/
structure Accounted (l : BcryptLimiter) (permits : Nat) (s : State α) : Prop where
  there : l.semaphore < s.semaphores.length
  sum : s.free l + s.count Stage.holds l = permits

theorem new_fresh {n : Nat} {s s' : State α} {l : BcryptLimiter} (hs : s.Sound)
    (h : new n s = some (l, s')) :
    l.semaphore < s'.semaphores.length ∧ s'.free l = max 1 n ∧ s'.count Stage.holds l = 0 := by
  obtain ⟨rfl, rfl⟩ := new_eq_some h
  refine ⟨by simp, ?_, ?_⟩
  · rw [State.free, List.getD_append_right _ _ _ _ le_rfl, Nat.sub_self]
    exact Nat.max_comm n 1
  · apply List.countP_eq_zero.mpr
    intro j hj
    have hlt := hs.jobs j hj
    have hne : j.limiter ≠ ⟨s.semaphores.length⟩ := fun heq => by
      rw [heq] at hlt; exact lt_irrefl _ hlt
    simp [hne]

theorem new_accounted {n : Nat} {s s' : State α} {l : BcryptLimiter} (hs : s.Sound)
    (h : new n s = some (l, s')) :
    Accounted l (max 1 n) s' := by
  obtain ⟨hthere, hfree, hcount⟩ := new_fresh hs h
  exact ⟨hthere, by omega⟩

/-- A move of a call changes the permits of its own limiter only, and accounts for them. -/
theorem move_accounted {l : BcryptLimiter} {permits : Nat} {s s' : State α} {i : Nat} {m : Move}
    (h : Accounted l permits s) (hmove : s.move? i m = some s') : Accounted l permits s' := by
  obtain ⟨j, stage, e, free, hj, hm, hfree, rfl⟩ := State.move?_eq_some hmove
  have haccounts := Job.move_accounts hm
  refine ⟨by rw [List.length_set]; exact h.there, ?_⟩
  rw [← h.sum]
  by_cases hl : j.limiter = l
  · subst hl
    have hget : (s.semaphores.set j.limiter.semaphore free).getD j.limiter.semaphore 0 = free := by
      rw [List.getD_eq_getElem?_getD, List.getElem?_set_self h.there]
      rfl
    have he : e.Accounts (fun j' : Job α => j'.limiter = j.limiter && j'.stage.holds) j
        { j with stage } := by
      cases e <;> simpa [Effect.Accounts] using haccounts
    unfold State.count
    rw [State.free, hget]
    exact conserve hj he hfree
  · have hne : j.limiter.semaphore ≠ l.semaphore :=
      fun heq => hl (by cases hjl : j.limiter; cases l; simp_all)
    have hget : (s.semaphores.set j.limiter.semaphore free).getD l.semaphore 0 = s.free l := by
      rw [State.free, List.getD_eq_getElem?_getD,
        List.getElem?_set_ne hne, ← List.getD_eq_getElem?_getD]
    have he : Effect.keep.Accounts (fun j' : Job α => j'.limiter = l && j'.stage.holds) j
        { j with stage } := by
      simp [Effect.Accounts, hl]
    unfold State.count
    rw [State.free, hget]
    exact conserve hj he rfl

theorem step_accounted {l : BcryptLimiter} {permits : Nat} {s : State α}
    (h : Accounted l permits s) (a : Action α) :
    Accounted l permits (step s a) := by
  refine step_rule a h ?_ ?_ ?_ ?_
  · intro n l' s' hnew
    obtain ⟨rfl, rfl⟩ := new_eq_some hnew
    constructor
    · rw [List.length_append]
      exact Nat.lt_add_right _ h.there
    · rw [← h.sum, State.free, List.getD_append _ _ _ _ h.there]
      rfl
  · exact fun l' _ => ⟨h.there, h.sum⟩
  · intro l' hl' f
    refine ⟨h.there, ?_⟩
    rw [← h.sum]
    simp [State.count, State.free, List.countP_append, Stage.holds]
  · exact fun i m s' hmove => move_accounted h hmove

theorem run_accounted {l : BcryptLimiter} {permits : Nat} {s : State α} (h : Accounted l permits s)
    (actions : List (Action α)) : Accounted l permits (run s actions) := by
  induction actions generalizing s with
  | nil => exact h
  | cons a actions ih => exact ih (step_accounted h a)

theorem State.count_holds (s : State α) (l : BcryptLimiter) :
    s.count Stage.holds l =
      s.count Stage.isGranted l + s.count Stage.isDispatched l + s.count Stage.isRunning l := by
  unfold State.count
  induction s.jobs with
  | nil => rfl
  | cons j jobs ih =>
      simp only [List.countP_cons, ih]
      cases j.stage <;> simp [Stage.holds] <;> omega

/-- **No permit is lost and none is made**: whatever limiters, clones and calls there are, and
however the calls move, end and are dropped, the permits of a limiter are free, in the future of a
call that has not dispatched its closure yet, or in a closure that is dispatched or running. -/
theorem permits_never_leak (earlier later : List (Action α)) {maxConcurrent : Nat}
    {l : BcryptLimiter} {s : State α}
    (hnew : new maxConcurrent (run .empty earlier) = some (l, s)) :
    (run s later).count Stage.isRunning l ≤ max 1 maxConcurrent ∧
      (run s later).free l +
        ((run s later).count Stage.isGranted l + (run s later).count Stage.isDispatched l +
        (run s later).count Stage.isRunning l) = max 1 maxConcurrent ∧
      ((run s later).count Stage.isGranted l = 0 → (run s later).count Stage.isDispatched l = 0 →
        (run s later).count Stage.isRunning l = 0 →
          (run s later).free l = max 1 maxConcurrent) := by
  have hsum := (run_accounted (new_accounted (run_sound empty_sound earlier) hnew) later).sum
  rw [State.count_holds] at hsum
  refine ⟨by omega, hsum, fun hg hd hr => by omega⟩

/-- A limiter of two permits next to another one, and a clone of it. Of four calls the first runs
without its caller, the second has panicked, the third gave up waiting and the fourth has just been
handed a permit. -/
def busy : List (Action Nat) :=
  [.clone 1, .call 1 5, .call 2 6, .call 2 7, .call 1 8, .move 0 .grant, .move 0 .dispatch,
    .move 0 .start,
    .move 1 .grant, .move 1 .dispatch, .move 0 .cancel, .move 1 .start, .move 1 (.panics "boom"),
      .move 2 .cancel, .move 3 .grant]

/-- The first closure returns, and the pool drops that of the fourth. -/
def windDown : List (Action Nat) :=
  [.move 0 .returns, .move 3 .dispatch, .move 3 (.abort "shutdown")]

theorem permits_never_leak_busy : ∃ s : State Nat, new 2 (run .empty [.new 7]) = some (⟨1⟩, s) ∧
    (run s busy).count Stage.isGranted ⟨1⟩ = 1 ∧ (run s busy).count Stage.isRunning ⟨1⟩ = 1 ∧
    (run s busy).free ⟨1⟩ + ((run s busy).count Stage.isGranted ⟨1⟩ +
      (run s busy).count Stage.isDispatched ⟨1⟩ + (run s busy).count Stage.isRunning ⟨1⟩) =
        max 1 2 ∧
    (run s (busy ++ windDown)).free ⟨1⟩ = max 1 2 := by
  refine ⟨⟨[7, 2], [⟨0⟩, ⟨1⟩], []⟩, rfl, by decide, by decide, ?_, ?_⟩
  · exact (permits_never_leak [.new 7] busy rfl).2.1
  · exact (permits_never_leak [.new 7] (busy ++ windDown) rfl).2.2 (by decide) (by decide)
      (by decide)

/-- Two calls on a limiter of one permit. The closure of the first has returned, and its permit went
to the second, whose future has not been polled since: no closure runs or is dispatched, and no
permit is free. -/
theorem handed_over_not_free :
    let s := run (.empty : State Nat) [.new 1, .call 0 5, .call 0 6, .move 0 .grant,
      .move 0 .dispatch, .move 0 .start, .move 0 .returns, .move 1 .grant]
    s.count Stage.isDispatched ⟨0⟩ = 0 ∧ s.count Stage.isRunning ⟨0⟩ = 0 ∧ s.free ⟨0⟩ = 0 ∧
      s.free ⟨0⟩ ≠ max 1 1 := by
  decide

/-! ## The limit is exact -/

theorem step_move_last {s : State α} {jobs : List (Job α)} {j : Job α} {m : Move}
    {stage : Stage α} {e : Effect} {free : Nat} (hjobs : s.jobs = jobs ++ [j])
    (hm : j.move m = some (stage, e)) (hfree : e.apply (s.free j.limiter) = some free) :
    step s (.move jobs.length m) =
      ⟨s.semaphores.set j.limiter.semaphore free, s.limiters, jobs ++ [{ j with stage }]⟩ := by
  have hj : s.jobs[jobs.length]? = some j := by rw [hjobs, List.getElem?_concat_length]
  have hset : s.jobs.set jobs.length { j with stage } = jobs ++ [{ j with stage }] := by
    rw [hjobs, List.set_append_right _ _ le_rfl, Nat.sub_self]
    rfl
  show (s.move? jobs.length m).getD s = _
  unfold State.move?
  simp only [hj, hm, hfree, bind, Option.bind, hset]
  rfl

theorem start_one {s : State α} {l : BcryptLimiter} {i : Nat} (hl : s.limiters[i]? = some l)
    (hthere : l.semaphore < s.semaphores.length) (hfree : 0 < s.free l) (f : α) :
    ∃ actions, run s actions =
      ⟨s.semaphores.set l.semaphore (s.free l - 1), s.limiters,
        s.jobs ++ [⟨l, f, .running true⟩]⟩ := by
  have hget : ∀ k limiters jobs, (⟨s.semaphores.set l.semaphore k, limiters, jobs⟩ :
      State α).free l = k := by
    intro k limiters jobs
    rw [State.free, List.getD_eq_getElem?_getD, List.getElem?_set_self hthere]
    rfl
  refine ⟨[.call i f, .move s.jobs.length .grant, .move s.jobs.length .dispatch,
    .move s.jobs.length .start], ?_⟩
  have hcall : step s (.call i f) = ⟨s.semaphores, s.limiters, s.jobs ++ [⟨l, f, .waiting⟩]⟩ := by
    simp only [step, hl, Option.map_some, Option.getD_some]
  have htake : Effect.take.apply (s.free l) = some (s.free l - 1) := by
    obtain ⟨k, hk⟩ := Nat.exists_eq_add_of_lt hfree
    rw [hk, Nat.zero_add]
    rfl
  have hgrant : step ⟨s.semaphores, s.limiters, s.jobs ++ [⟨l, f, .waiting⟩]⟩
      (.move s.jobs.length .grant) =
      ⟨s.semaphores.set l.semaphore (s.free l - 1), s.limiters, s.jobs ++ [⟨l, f, .granted⟩]⟩ :=
    step_move_last (j := ⟨l, f, .waiting⟩) rfl rfl htake
  have hkeep : ∀ m stage stage', (⟨l, f, stage⟩ : Job α).move m = some (stage', .keep) →
      step ⟨s.semaphores.set l.semaphore (s.free l - 1), s.limiters, s.jobs ++ [⟨l, f, stage⟩]⟩
          (.move s.jobs.length m) =
        ⟨s.semaphores.set l.semaphore (s.free l - 1), s.limiters, s.jobs ++ [⟨l, f, stage'⟩]⟩ := by
    intro m stage stage' hm
    rw [step_move_last rfl hm (congrArg some (hget _ _ _)), List.set_set]
  show step (step (step (step s (.call i f)) (.move s.jobs.length .grant))
      (.move s.jobs.length .dispatch))
    (.move s.jobs.length .start) = _
  rw [hcall, hgrant, hkeep .dispatch .granted (.dispatched true) rfl,
    hkeep .start (.dispatched true) (.running true) rfl]

theorem start_many (f : α) {l : BcryptLimiter} {i k : Nat} {s : State α}
    (hl : s.limiters[i]? = some l) (hthere : l.semaphore < s.semaphores.length)
    (hk : k ≤ s.free l) :
    ∃ actions, (run s actions).count Stage.isRunning l = s.count Stage.isRunning l + k := by
  induction k generalizing s with
  | zero => exact ⟨[], rfl⟩
  | succ k ih =>
      obtain ⟨first, hfirst⟩ := start_one hl hthere (Nat.lt_of_lt_of_le (Nat.succ_pos k) hk) f
      have hfree : k ≤ (run s first).free l := by
        rw [hfirst, State.free, List.getD_eq_getElem?_getD, List.getElem?_set_self hthere]
        exact Nat.le_sub_one_of_lt hk
      have hthere' : l.semaphore < (run s first).semaphores.length := by
        rw [hfirst, List.length_set]
        exact hthere
      obtain ⟨rest, hrest⟩ := ih (s := run s first) (by rw [hfirst]; exact hl) hthere' hfree
      refine ⟨first ++ rest, ?_⟩
      have hone : (run s first).count Stage.isRunning l = s.count Stage.isRunning l + 1 := by
        rw [hfirst]
        simp [State.count, List.countP_append]
      rw [run, List.foldl_append]
      show (run (run s first) rest).count Stage.isRunning l = _
      rw [hrest, hone]
      omega

/-- **The limit is reached**: all of `max(1, max_concurrent)` closures can run at once. -/
theorem limit_reached (earlier : List (Action α)) {maxConcurrent : Nat} {l : BcryptLimiter}
    {s : State α} (hnew : new maxConcurrent (run .empty earlier) = some (l, s)) (f : α) :
    ∃ later, (run s later).count Stage.isRunning l = max 1 maxConcurrent := by
  obtain ⟨hthere, hfree, hcount⟩ := new_fresh (run_sound empty_sound earlier) hnew
  have hl : s.limiters[(run .empty earlier).limiters.length]? = some l := by
    rw [(new_eq_some hnew).2, List.getElem?_concat_length]
  obtain ⟨later, hlater⟩ := start_many f hl hthere hfree.ge
  refine ⟨later, ?_⟩
  rw [State.count_holds] at hcount
  omega

/-! ## Answers -/

/-- The semaphore is never closed, so a caller gets what its closure returned or the failure of its
task. -/
def Job.Answered (j : Job α) : Prop :=
  ∀ r, j.stage = .ended (some r) → r = runBounded .completed j.f ∨
    ∃ e, r = runBounded (.failed e) j.f

theorem Job.move_answered {j : Job α} {m : Move} {stage : Stage α} {e : Effect}
    (h : j.move m = some (stage, e)) :
    ({ j with stage } : Job α).Answered := by
  have hanswer : ∀ caller fate r, (Stage.ended (answer caller fate j.f)) = .ended (some r) →
      r = runBounded fate j.f := by
    intro caller fate r hr
    cases caller with
    | false => cases hr
    | true =>
        cases hr
        rfl
  unfold Job.move at h
  intro r hr
  split at h <;> cases h <;> try cases hr
  · exact Or.inr ⟨_, hanswer _ _ r hr⟩
  · exact Or.inl (hanswer _ _ r hr)
  · exact Or.inr ⟨_, hanswer _ _ r hr⟩

theorem answered_step {s : State α} (h : ∀ j ∈ s.jobs, j.Answered) (a : Action α) :
    ∀ j ∈ (step s a).jobs, j.Answered := by
  refine step_rule (P := fun s => ∀ j ∈ s.jobs, j.Answered) a h ?_ ?_ ?_ ?_
  · intro n l s' hnew
    rw [(new_eq_some hnew).2]
    exact h
  · exact fun l _ => h
  · intro l _ f j hj
    rw [List.mem_append, List.mem_singleton] at hj
    rcases hj with hj | rfl
    · exact h j hj
    · exact fun r hr => by cases hr
  · intro i m s' hmove j' hj'
    obtain ⟨j, stage, e, free, hj, hm, -, rfl⟩ := State.move?_eq_some hmove
    rcases List.mem_or_eq_of_mem_set hj' with hj' | rfl
    · exact h j' hj'
    · exact Job.move_answered hm

theorem answered_run (actions : List (Action α)) : ∀ j ∈ (run .empty actions).jobs, j.Answered := by
  have hrun : ∀ s : State α, (∀ j ∈ s.jobs, j.Answered) →
      ∀ j ∈ (run s actions).jobs, j.Answered := by
    induction actions with
    | nil => exact fun s h => h
    | cons a actions ih => exact fun s h => ih _ (answered_step h a)
  exact hrun .empty fun j hj => by cases hj

/-! ## The configured limit -/

def maxBcryptMaxConcurrent : Nat := 512

def validateBcryptMaxConcurrent (value : Nat) : Except String Unit :=
  if value = 0 then .error "BCRYPT_MAX_CONCURRENT must be at least 1"
  else if value > maxBcryptMaxConcurrent then
    .error ("BCRYPT_MAX_CONCURRENT must be at most " ++ toString maxBcryptMaxConcurrent ++
      " (Tokio's default blocking-thread pool size -- higher values add no real parallelism); got " ++
      toString value)
  else .ok ()

/-- A value that passed neither panics nor is clamped. -/
theorem new_of_validate {value : Nat} (h : validateBcryptMaxConcurrent value = .ok ())
    (s : State α) :
    max 1 value = value ∧ ∃ l s', new value s = some (l, s') := by
  unfold validateBcryptMaxConcurrent at h
  split_ifs at h with hzero hmax
  have hle : value ≤ 512 := not_lt.mp hmax
  refine ⟨by omega, ?_⟩
  have hpermits : ¬ max value 1 > maxPermits := by
    unfold maxPermits
    omega
  unfold new State.newSemaphore
  rw [if_neg hpermits]
  exact ⟨_, _, rfl⟩

end Steps

end BcryptLimiter

end AppHome
