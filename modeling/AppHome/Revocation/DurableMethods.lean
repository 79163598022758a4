import AppHome.Revocation.DurableSafety

/-!
# A durable revocation is never dropped

* `wp_step`, `wp_innerRevoke` : the rules for one step and for a revocation sent to Redis;
* `wp_revoke`, `wp_isRevoked`, `wp_flushPending` : what each method needs and leaves behind;
* `revocation_never_dropped` : once a `revoke` has answered `Ok`, Redis or the outbox has the token
  until its deadline;
* `revoking_instance_rejects` : the instance that answered `Ok` never answers `Ok(false)` before the
  deadline.
-/

namespace AppHome.Durable

open Interleave

section Deadline
variable {D : Instant} {jti : Uuid} {s s' : Cluster} {P : Cluster → Prop}

/-! ## The methods -/

/-- A fact about the state that outlives what others do. -/
def Lasting (D : Instant) (jti : Uuid) (P X : Cluster → Prop) : Prop :=
  ∀ s s' : Cluster, s.Keeps D jti P s' → s'.Timely D jti → s.Bounded D jti → X s → X s'

theorem Cluster.While.keep {X : Cluster → Prop} (h : s.While D jti X) (hX : Lasting D jti P X)
    (hk : s.Keeps D jti P s') : s'.While D jti X := by
  intro ht
  obtain ⟨hB, hXs⟩ := h (ht.of_subset hk.calls)
  exact ⟨hk.bounded ht hB, hX _ _ hk ht hB hXs⟩

theorem Cluster.While.imp {X Y : Cluster → Prop} (h : s.While D jti X) (hXY : ∀ s, X s → Y s) :
    s.While D jti Y := fun ht => ⟨(h ht).1, hXY s (h ht).2⟩

theorem lasting_true : Lasting D jti P fun _ => True := fun _ _ _ _ _ _ => trivial

theorem lasting_reaches (jti' : Uuid) (ttlSecs : Nat) :
    Lasting D jti P fun s => s.Reaches D jti jti' ttlSecs := fun _ _ hk _ _ h => h.mono hk.now

theorem lasting_inRedis (A : Prop) : Lasting D jti P fun s => A → s.InRedis D jti :=
  fun _ _ hk ht hB h hA => hk.inRedis ht hB (h hA)

theorem lasting_inv (A : Prop) : Lasting D jti P fun s => A → P s :=
  fun _ _ hk ht hB h hA => hk.inv ht hB (h hA)

theorem lasting_now (t : Instant) : Lasting D jti P fun s => t ≤ s.now :=
  fun _ _ hk _ _ h => le_trans h hk.now

theorem lasting_and {X Y : Cluster → Prop} (hX : Lasting D jti P X) (hY : Lasting D jti P Y) :
    Lasting D jti P fun s => X s ∧ Y s :=
  fun _ _ hk ht hB h => ⟨hX _ _ hk ht hB h.1, hY _ _ hk ht hB h.2⟩

section Methods
variable (hP : Kept D jti P) {i : Nat}
include hP

/-- **The rule for one step**: its promise follows from a lasting fact, and the rest of the method
starts in the state the step leaves. -/
theorem wp_step {α : Type} {o : Op} {k : Res o → Method α} {Q : α → Cluster → Prop}
    {X : Cluster → Prop} (hX : Lasting D jti P X) (h : s.While D jti X)
    (hfit : ∀ s, X s → o.Fit D jti s)
    (hk : ∀ s f, s.While D jti X → s.Keeps D jti P (exec s i o f).2 →
      wp machine (keeping D jti P) i (k (exec s i o f).1) Q (exec s i o f).2) :
    wp machine (keeping D jti P) i (.op o k) Q s := by
  intro s' hs'
  have h' : s'.While D jti X := h.keep hX hs'
  have hg : s'.While D jti fun s => o.Fit D jti s := fun ht => ⟨(h' ht).1, hfit _ (h' ht).2⟩
  exact ⟨hg, fun f => hk s' f h' (exec_keeps hP hg i f)⟩

theorem wp_innerRevoke {jti' : Uuid} {ttlSecs : Nat}
    {Q : Except BlacklistError Unit → Cluster → Prop} {X : Cluster → Prop}
    (hX : Lasting D jti P X) (h : s.While D jti fun s => s.Reaches D jti jti' ttlSecs ∧ X s)
    (hok : ∀ s, (s.While D jti fun s => (jti' = jti → s.InRedis D jti) ∧ X s) → Q (.ok ()) s)
    (herr : ∀ s, (s.While D jti fun s => s.Reaches D jti jti' ttlSecs ∧ X s) → Q (.error ⟨⟩) s) :
    wp machine (keeping D jti P) i (innerRevoke jti' ttlSecs) Q s := by
  unfold innerRevoke
  split_ifs with h0
  · subst h0
    refine hok s fun ht => ?_
    obtain ⟨hB, hreach, hXs⟩ := h ht
    exact ⟨hB, fun hj => Or.inl (by simpa [ofSecs] using hreach hj), hXs⟩
  · have hlast := lasting_and (lasting_reaches jti' ttlSecs) hX
    refine wp_step hP hlast h (fun s hs => hs.1) fun s f hs hk => ?_
    have herr' := herr _ (hs.keep hlast hk)
    cases f with
    | done =>
        refine hok _ fun ht => ?_
        obtain ⟨hB, hreach, hXs⟩ := hs (ht.of_subset hk.calls)
        refine ⟨hk.bounded ht hB, fun hj => Or.inr ?_, hX _ _ hk ht hB hXs⟩
        subst hj
        exact ⟨_, by rw [exec, Cluster.perform, Option.getD_some, Redis.find?_setEx, if_pos rfl],
          hreach rfl⟩
    | failed => exact herr'
    | failedApplied => exact herr'
    | failedLate => exact herr'

/-- A `revoke` that answers `Ok` establishes `P`, if Redis having the token does, and either the row
of the outbox or the pending entry does. -/
theorem wp_revoke {inst : Nat} {jti' : Uuid} {ttlSecs : Nat} (A : Prop)
    (hredis : A → jti' = jti ∧ ∀ s, Cluster.InRedis D jti s → P s)
    (hpath : A → (∀ s s', Cluster.perform s (.journal jti' ttlSecs) = some s' → P s') ∨
      ∀ s, P (Cluster.insertPending s inst jti' ttlSecs))
    (h : s.While D jti fun s => s.Reaches D jti jti' ttlSecs) :
    wp machine (keeping D jti P) i (revoke inst jti' ttlSecs)
      (fun r s => r = .ok () → s.While D jti fun s => A → P s) s := by
  unfold revoke
  rw [wp_bind]
  refine wp_innerRevoke hP lasting_true (h.imp fun s hs => ⟨hs, trivial⟩) ?_ ?_
  · intro s hs _
    exact hs.imp fun s hs hA => (hredis hA).2 s (hs.1 (hredis hA).1)
  · intro s hs
    change wp _ _ i (journal jti' ttlSecs >>= _) _ s
    rw [wp_bind]
    refine wp_step hP (lasting_reaches jti' ttlSecs) (hs.imp fun s hs => hs.1) (fun s hs => hs) ?_
    intro s f hs hk
    cases hdone : (exec s i (.write (.journal jti' ttlSecs)) f).1 with
    | false =>
        intro hr
        cases hr
    | true =>
        have hperf := performed_of_done hdone
        have hnext := hs.keep (lasting_reaches jti' ttlSecs) hk
        have hlast : Lasting D jti P fun s => s.Reaches D jti jti' ttlSecs ∧
            ((∀ s s', Cluster.perform s (.journal jti' ttlSecs) = some s' → P s') → P s) :=
          lasting_and (lasting_reaches jti' ttlSecs) (lasting_inv _)
        rw [if_pos rfl, wp_ret]
        refine wp_step (o := .pendingInsert inst jti' ttlSecs) hP hlast ?_ (fun s hs => hs.1) ?_
        · exact fun ht => ⟨(hnext ht).1, (hnext ht).2, fun hj => hj s _ hperf⟩
        · intro s f hs hk _
          refine hs.mono hk fun _ _ _ hinv hX hA => ?_
          rcases hpath hA with hj | hi
          · exact hinv (hX.2 hj)
          · exact hi s

omit hP in
theorem lookup_false {inst : Nat} {now : Instant} {f : Fate} (hB : s.Bounded D jti)
    (hnow : now ≤ s.now) (hS : s.Shielded D jti inst)
    (h : (exec s i (.pendingLookup inst jti now) f).1 = false) :
    (exec s i (.pendingLookup inst jti now) f).2.InRedis D jti := by
  refine (exec_step hB (o := .pendingLookup inst jti now) hnow i f).inRedis ?_
  rcases hS with hR | ⟨e, he⟩
  · exact hR
  · refine Or.inl (hB.deadline_le_now he hnow ?_)
    cases hl : e.live now with
    | false => rfl
    | true => simp [exec, he, hl] at h

/-- A check on an instance that is shielded answers `Ok(false)` only after the deadline. -/
theorem wp_isRevoked {inst : Nat} {jti' : Uuid} (A : Prop)
    (hA : A → jti' = jti ∧ ∀ s, P s → s.Shielded D jti inst) (h : s.While D jti fun s => A → P s) :
    wp machine (keeping D jti P) i (isRevoked inst jti')
      (fun r s => r = .ok false → s.While D jti fun s => A → D ≤ s.now) s := by
  refine wp_step hP (lasting_inv A) h (fun s hs => trivial) fun s f hs hk => ?_
  refine wp_step (o := .pendingLookup inst jti' s.now) hP
    (lasting_and (lasting_now s.now) (lasting_inv A))
    (fun ht => ⟨(hs ht).1, le_rfl, (hs ht).2⟩) (fun s hs => hs.1) fun s' f hs hk => ?_
  cases hfound : (exec s' i (.pendingLookup inst jti' s.now) f).1 with
  | true =>
      intro hr
      cases hr
  | false =>
      have hredis : (exec s' i (.pendingLookup inst jti' s.now) f).2.While D jti
          fun s => A → s.InRedis D jti := by
        intro ht
        obtain ⟨hB, hnow, hPs⟩ := hs (ht.of_subset hk.calls)
        refine ⟨hk.bounded ht hB, fun ha => ?_⟩
        obtain ⟨rfl, hshield⟩ := hA ha
        exact lookup_false hB hnow (hshield _ (hPs ha)) hfound
      refine wp_step (o := .existsKey jti') hP (lasting_inRedis A) hredis (fun s hs => trivial) ?_
      intro s f hs hk
      cases f with
      | done =>
          intro hr
          have hfree : s.redis.holds jti' s.now = false := by simpa [exec] using hr
          intro ht
          obtain ⟨hB, hR⟩ := hs ht
          refine ⟨hB, fun ha => ?_⟩
          obtain ⟨rfl, -⟩ := hA ha
          by_contra hlt
          rw [(hR ha).holds (not_le.mp hlt)] at hfree
          cases hfree
      | failed =>
          intro hr
          cases hr
      | failedApplied =>
          intro hr
          cases hr
      | failedLate =>
          intro hr
          cases hr

theorem wp_flushRows {rows : List (Uuid × Nat)} {flushed : List Uuid} {remaining : Nat}
    (h : s.While D jti fun s => (∀ row ∈ rows, s.Reaches D jti row.1 row.2) ∧
      (jti ∈ flushed → s.InRedis D jti)) :
    wp machine (keeping D jti P) i (flushRows rows flushed remaining)
      (fun r s => s.While D jti fun s => jti ∈ r.1 → s.InRedis D jti) s := by
  induction rows generalizing flushed remaining s with
  | nil => exact h.imp fun s hs => hs.2
  | cons row rows ih =>
      obtain ⟨jti', ttlSecs⟩ := row
      have hrows : Lasting D jti P fun s => ∀ row ∈ rows, s.Reaches D jti row.1 row.2 :=
        fun _ _ hk _ _ h row hrow => (h row hrow).mono hk.now
      unfold flushRows
      rw [wp_bind]
      refine wp_innerRevoke hP (lasting_and hrows (lasting_inRedis (jti ∈ flushed))) ?_ ?_ ?_
      · refine h.imp fun s hs => ⟨hs.1 _ (List.mem_cons_self ..), fun row hrow => ?_, hs.2⟩
        exact hs.1 row (List.mem_cons_of_mem _ hrow)
      · intro s hs
        refine ih (hs.imp fun s hs => ⟨hs.2.1, fun hj => ?_⟩)
        rcases List.mem_append.mp hj with hj | hj
        · exact hs.2.2 hj
        · exact hs.1 (List.mem_singleton.mp hj).symm
      · intro s hs
        exact ih (hs.imp fun s hs => hs.2)

theorem wp_dropFlushed {inst : Nat} {flushed : List Uuid} {remaining : Nat}
    (h : s.While D jti fun s => jti ∈ flushed → s.InRedis D jti) :
    wp machine (keeping D jti P) i (dropFlushed inst flushed remaining) (fun _ _ => True) s := by
  unfold dropFlushed
  split_ifs
  · trivial
  · have hlast : Lasting D jti P fun s => jti ∈ flushed → s.InRedis D jti := lasting_inRedis _
    refine wp_step hP hlast h (fun s hs => hs) fun s f hs hk => ?_
    cases (exec s i (.write (.deleteFlushed flushed)) f).1 with
    | false => trivial
    | true =>
        refine wp_step hP hlast (hs.keep hlast hk) (fun s hs => trivial) fun s f hs hk => ?_
        refine wp_step (o := .pendingRetain inst flushed s.now) hP
          (lasting_and (lasting_now s.now) hlast)
          (fun ht => ⟨(hs ht).1, le_rfl, (hs ht).2⟩) (fun s hs => hs) fun s f hs hk => trivial

omit hP in
theorem mem_batch {row : Uuid × Nat} (h : row ∈ s.batch) :
    ∃ r ∈ s.outbox.rows, (r.jti, r.ttlSecs) = row := by
  obtain ⟨r, hr, he⟩ := List.mem_map.mp h
  exact ⟨r, (List.mem_insertionSort _).mp (List.mem_of_mem_take hr), he⟩

theorem wp_flushPending {inst : Nat} (h : s.While D jti fun _ => True) :
    wp machine (keeping D jti P) i (flushPending inst) (fun _ _ => True) s := by
  refine wp_step hP lasting_true h (fun s hs => trivial) fun s f hs hk => ?_
  cases (exec s i (.write .deleteExpired) f).1 with
  | false => trivial
  | true =>
      refine wp_step hP lasting_true (hs.keep lasting_true hk) (fun s hs => trivial)
        fun s f hs hk => ?_
      cases f with
      | failed => trivial
      | failedApplied => trivial
      | failedLate => trivial
      | done =>
          change wp _ _ i (flushRows s.batch [] 0 >>= _) _ s
          rw [wp_bind]
          refine wp_mono ?_ (wp_flushRows hP ?_)
          · intro r s hr
            exact wp_dropFlushed hP hr
          · intro ht
            obtain ⟨hB, -⟩ := hs ht
            refine ⟨hB, fun row hrow hj => ?_, fun hj => absurd hj List.not_mem_nil⟩
            obtain ⟨r, hr, rfl⟩ := mem_batch hrow
            exact (hB.rows r hr hj).2

/-! ### Calls -/

/-- A call of `revoke`: while the calls are timely, its TTL reaches the deadline. -/
theorem wp_revokeCall {inst : Nat} {jti' : Uuid} {ttlSecs : Nat} (A : Prop)
    (hredis : A → jti' = jti ∧ ∀ s, Cluster.InRedis D jti s → P s)
    (hpath : A → (∀ s s', Cluster.perform s (.journal jti' ttlSecs) = some s' → P s') ∨
      ∀ s, P (Cluster.insertPending s inst jti' ttlSecs))
    (h : s.While D jti fun _ => True) :
    wp machine (keeping D jti P) i (Task.revoke inst jti' ttlSecs).prog
      (fun o s => o = .revoked (.ok ()) → s.While D jti fun s => A → P s) s := by
  refine wp_step hP lasting_true h (fun s hs => trivial) fun s f hs hk => ?_
  rw [wp_bind]
  refine wp_mono ?_ (wp_revoke hP A hredis hpath ?_)
  · rintro r s hr ho
    cases ho
    exact hr rfl
  · intro ht
    refine ⟨hk.bounded ht (hs (ht.of_subset hk.calls)).1, fun hj => ?_⟩
    exact ht ⟨jti', ttlSecs, s.now⟩ (by simp [exec]) hj

theorem wp_isRevokedCall {inst : Nat} {jti' : Uuid} (A : Prop)
    (hA : A → jti' = jti ∧ ∀ s, P s → s.Shielded D jti inst) (h : s.While D jti fun s => A → P s) :
    wp machine (keeping D jti P) i (Task.isRevoked inst jti').prog
      (fun o s => o = .answered (.ok false) → s.While D jti fun s => A → D ≤ s.now) s := by
  change wp _ _ i (isRevoked inst jti' >>= _) _ s
  rw [wp_bind]
  refine wp_mono ?_ (wp_isRevoked hP A hA h)
  rintro r s hr ho
  cases ho
  exact hr rfl

theorem wp_task (t : Task) (h : s.While D jti fun _ => True) :
    wp machine (keeping D jti P) i t.prog (fun _ _ => True) s := by
  cases t with
  | revoke inst jti' ttlSecs =>
      exact wp_mono (fun _ _ _ => trivial) (wp_revokeCall hP False False.elim False.elim h)
  | isRevoked inst jti' =>
      exact wp_mono (fun _ _ _ => trivial)
        (wp_isRevokedCall hP False False.elim (h.imp fun _ _ hF => hF.elim))
  | flushPending inst =>
      change wp _ _ i (flushPending inst >>= _) _ s
      rw [wp_bind]
      exact wp_mono (fun _ _ _ => trivial) (wp_flushPending hP h)
  | pendingCount inst =>
      exact wp_step hP lasting_true h (fun s hs => trivial) fun s f hs hk => trivial

end Methods

end Deadline

/-! ## A small cluster -/

/-- Nothing stored, clock at zero. -/
def plainCluster : Cluster := ⟨0, .empty, .empty, fun _ => .empty, [], []⟩

/-- Instance 0 revokes token 9 for ten seconds, checks it, and flushes. -/
def plainTasks : Nat → Task
  | 0 => .revoke 0 9 10
  | 1 => .isRevoked 0 9
  | _ => .flushPending 0

/-- The `revoke` of token 9 while Redis is down. -/
def outage : List (Label Fate Move) := [.run 0 .done, .run 0 .failed, .run 0 .done, .run 0 .done]

/-- Redis is back, and a flush has come to its last step. -/
def flushedOutage : List (Label Fate Move) := outage ++ List.replicate 5 (.run 2 .done)

theorem plainCluster_fresh (jti : Uuid) : plainCluster.Fresh jti := ⟨rfl, rfl, fun _ => rfl, rfl⟩

theorem timely_of_calls {s : Cluster} (h : s.calls = [⟨9, 10, 0⟩]) : s.Timely 10000000000 9 := by
  intro c hc _
  rw [h, List.mem_singleton] at hc
  subst hc
  decide

section Deadline
variable {D : Instant} {jti : Uuid} {s s' : Cluster} {P : Cluster → Prop}

/-! ## Redis or the outbox -/

theorem Cluster.Fresh.while (hs : s.Fresh jti) : s.While D jti fun _ => True :=
  fun _ => ⟨hs.bounded, trivial⟩

/-- **A durable revocation is never dropped**: once a `revoke` of the token has answered `Ok`, until
the deadline Redis holds an unexpired key for it or the outbox has a row. -/
theorem revocation_never_dropped (tasks : Nat → Task) (hs : s.Fresh jti)
    (l : List (Label Fate Move)) {i inst ttlSecs : Nat} (hi : tasks i = .revoke inst jti ttlSecs)
    (hret : (machine.run (instances tasks s) l).thread i = .ret (.revoked (.ok ())))
    (ht : (machine.run (instances tasks s) l).shared.Timely D jti)
    (hnow : (machine.run (instances tasks s) l).shared.now < D) :
    (machine.run (instances tasks s) l).shared.redis.holds jti
      (machine.run (instances tasks s) l).shared.now = true ∨
    ∃ r ∈ (machine.run (instances tasks s) l).shared.outbox.rows, r.jti = jti := by
  have hpost := run_post (keeping_sound protected_kept) (m := machine)
    (Q := fun k (o : Outcome) s => k = i → o = .revoked (.ok ()) →
      s.While D jti fun s => True → s.Protected D jti)
    (g := fun _ _ => True) (fun k o s s' hk h hki ho => (h hki ho).keep (lasting_inv True) hk)
    (fun k c e _ => move_keeps protected_kept e fun inst _ h => h)
    (along_true machine (instances tasks s) l) ?_ hret rfl rfl
  · rcases (hpost ht).2 trivial with hR | hrow
    · exact Or.inl (hR.holds hnow)
    · exact Or.inr hrow
  · intro k
    by_cases hk : k = i
    · subst hk
      change wp machine _ k (tasks k).prog _ s
      rw [hi]
      refine wp_mono (fun _ _ h _ => h) (wp_revokeCall protected_kept True ?_ ?_ hs.while)
      · exact fun _ => ⟨rfl, fun s hR => Or.inl hR⟩
      · refine fun _ => Or.inl fun s s' hperf => Or.inr ?_
        simp only [Cluster.perform, Option.ite_none_right_eq_some, Option.some.injEq] at hperf
        obtain ⟨-, rfl⟩ := hperf
        exact (journal_rows ..).2.2
    · exact wp_mono (fun _ _ _ hki => absurd hki hk) (wp_task protected_kept (tasks k) hs.while)

/-- Five seconds after an outage and a restart, the outbox has the row. -/
theorem revocation_never_dropped_outage :
    (machine.run (instances plainTasks plainCluster)
      (outage ++ [.ext (.restart 0), .ext (.tick 5000000000)])).thread 0 =
      .ret (.revoked (.ok ())) ∧
    ((machine.run (instances plainTasks plainCluster)
        (outage ++ [.ext (.restart 0), .ext (.tick 5000000000)])).shared.redis.holds 9
          5000000000 = true ∨
      ∃ r ∈ (machine.run (instances plainTasks plainCluster)
        (outage ++ [.ext (.restart 0), .ext (.tick 5000000000)])).shared.outbox.rows, r.jti = 9) :=
  ⟨rfl, revocation_never_dropped plainTasks (plainCluster_fresh 9) _ (i := 0) rfl rfl
    (timely_of_calls rfl)
    (by decide)⟩

/-! ## Redis or the pending set -/

/-- In every run, every call keeps the contract and every copy reaches the deadline. -/
theorem calls_run (tasks : Nat → Task) (hs : s.Fresh jti) (l : List (Label Fate Move)) :
    (∀ k, wp machine (keeping D jti fun _ => True) k ((machine.run (instances tasks s) l).thread k)
      (fun _ _ => True) (machine.run (instances tasks s) l).shared) ∧
    (machine.run (instances tasks s) l).shared.While D jti fun _ => True := by
  have hwp : ∀ k, wp machine (keeping D jti fun _ => True) k (tasks k).prog (fun _ _ => True) s :=
    fun k => wp_task true_kept (tasks k) hs.while
  have hmove : ∀ (c : Cluster) (e : Move), c.Keeps D jti (fun _ => True) (move c e) :=
    fun c e => move_keeps true_kept e fun _ _ _ => trivial
  constructor
  · exact run_wp (keeping_sound true_kept) (Q := fun _ _ _ => True) (g := fun _ _ => True)
      (fun _ _ _ _ _ _ => trivial) (fun _ c e _ => hmove c.shared e) (along_true machine _ l) hwp
  · exact run_shared (keeping_sound true_kept) (Q := fun _ _ _ => True) (g := fun _ _ => True)
      (I := fun s => s.While D jti fun _ => True) (fun _ _ _ _ _ _ => trivial)
      (fun _ c e _ => hmove c.shared e)
      (fun {c k o _ f} _ _ hg hI => hI.keep lasting_true (exec_keeps true_kept hg k f))
      (fun {c e} _ hI => hI.keep lasting_true (hmove c.shared e))
      (along_true machine _ l) hwp hs.while

/-- A call that copes with any interference copes with interference that keeps
an instance shielded. -/
theorem wp_shield {i inst : Nat} {p : Method Outcome}
    (h : wp machine (keeping D jti fun _ => True) i p (fun _ _ => True) s) :
    wp machine (keeping D jti (Cluster.Shielded D jti inst)) i p (fun _ _ => True) s := by
  refine wp_weaken ?_ ?_ h
  · intro s s' hk
    exact ⟨hk.now, hk.calls, hk.bounded, hk.inRedis, fun _ _ _ => trivial⟩
  · exact fun _ _ hg => hg

/-- One stretch of a run in which the instance is not restarted: calls other than `i` go on as
before, and `i` meets its own postcondition. -/
theorem shielded_run {inst i : Nat} {c : Cfg Cluster Op Res Outcome} {l : List (Label Fate Move)}
    (hl : Label.ext (.restart inst) ∉ l) {Q : Outcome → Cluster → Prop}
    (hQ : ∀ o s s', s.Keeps D jti (Cluster.Shielded D jti inst) s' → Q o s → Q o s')
    (hothers : ∀ k, wp machine (keeping D jti (Cluster.Shielded D jti inst)) k (c.thread k)
      (fun _ _ => True) c.shared)
    (hi : wp machine (keeping D jti (Cluster.Shielded D jti inst)) i (c.thread i) Q c.shared)
    (k : Nat) :
    wp machine (keeping D jti (Cluster.Shielded D jti inst)) k ((machine.run c l).thread k)
      (fun o s => k = i → Q o s) (machine.run c l).shared := by
  refine run_wp (keeping_sound (shielded_kept inst)) (Q := fun k o s => k = i → Q o s)
    (g := fun _ a => a ≠ .ext (.restart inst)) (fun k o s s' hk h hki => hQ o s s' hk (h hki)) ?_
    (along_of_forall machine (fun a ha _ => ne_of_mem_of_not_mem ha hl) c) ?_ k
  · intro _ c e he
    refine move_keeps (shielded_kept inst) e fun inst' hr hS => ?_
    have hne : inst ≠ inst' := by
      rintro rfl
      exact he (by rw [hr])
    exact hS.imp_right fun ⟨e, hfind⟩ => ⟨e, by rw [find?_retain, if_neg hne, hfind]⟩
  · intro k
    by_cases hk : k = i
    · subst hk
      exact wp_mono (fun _ _ h _ => h) hi
    · exact wp_mono (fun _ _ _ hki => absurd hki hk) (hothers k)

/-- What removes the pending entry of the token before its deadline has found its key in Redis. -/
theorem inRedis_of_forgotten (tasks : Nat → Task) (hs : s.Fresh jti) (l : List (Label Fate Move))
    (k inst : Nat) (f : Fate) (e : PendingEntry)
    (he : ((machine.run (instances tasks s) l).shared.pending inst).find? jti = some (jti, e))
    (hgone : ((machine.run (instances tasks s) (l ++ [.run k f])).shared.pending inst).find? jti =
      none)
    (ht : (machine.run (instances tasks s) l).shared.Timely D jti)
    (hnow : (machine.run (instances tasks s) l).shared.now < D) :
    ∃ t, (machine.run (instances tasks s) l).shared.redis.find? jti = some (jti, t) ∧ D ≤ t := by
  obtain ⟨hwp, hB⟩ := calls_run (D := D) tasks hs l
  rw [run_append, run_cons, run_nil] at hgone
  cases hk : (machine.run (instances tasks s) l).thread k with
  | ret o =>
      rw [step_ret machine f hk, he] at hgone
      cases hgone
  | op o kont =>
      rw [step_op machine f hk] at hgone
      have hfit := hwp k
      rw [hk] at hfit
      have hstep := exec_step (hB ht).1 ((hfit _ (.refl _ _)).1 ht).2 k f
      exact (hstep.inRedis_of_removed he hgone).resolve_left (not_le.mpr hnow)

/-- **The revoking instance rejects at once and keeps rejecting**: after a `revoke` that answered
`Ok` on an instance that is not restarted, no check of the token on it that ends before the deadline
answers `Ok(false)`. And no call removes the pending entry of the token, on any instance, unless
Redis has a key for it that lives until the deadline. -/
theorem revoking_instance_rejects (tasks : Nat → Task) (hs : s.Fresh jti) :
    (∀ (l₀ l₁ l₂ : List (Label Fate Move)) (i j inst ttlSecs : Nat)
      (r : Except BlacklistError Bool),
      tasks i = .revoke inst jti ttlSecs → tasks j = .isRevoked inst jti →
      (machine.run (instances tasks s) l₀).thread i = (tasks i).prog →
      (machine.run (instances tasks s) (l₀ ++ l₁)).thread i = .ret (.revoked (.ok ())) →
      (machine.run (instances tasks s) (l₀ ++ l₁)).thread j = (tasks j).prog →
      (machine.run (instances tasks s) (l₀ ++ l₁ ++ l₂)).thread j = .ret (.answered r) →
      Label.ext (.restart inst) ∉ l₁ ++ l₂ →
      (machine.run (instances tasks s) (l₀ ++ l₁ ++ l₂)).shared.Timely D jti →
      (machine.run (instances tasks s) (l₀ ++ l₁ ++ l₂)).shared.now < D → r ≠ .ok false) ∧
    ∀ (l : List (Label Fate Move)) (k inst : Nat) (f : Fate) (e : PendingEntry),
      ((machine.run (instances tasks s) l).shared.pending inst).find? jti = some (jti, e) →
      ((machine.run (instances tasks s) (l ++ [.run k f])).shared.pending inst).find? jti = none →
      (machine.run (instances tasks s) l).shared.Timely D jti →
      (machine.run (instances tasks s) l).shared.now < D →
      ∃ t, (machine.run (instances tasks s) l).shared.redis.find? jti = some (jti, t) ∧ D ≤ t := by
  constructor
  · intro l₀ l₁ l₂ i j inst ttlSecs r hi hj hstart hret hcall hanswer hrestart ht hnow hr
    rw [run_append] at hret hcall
    rw [run_append, run_append] at hanswer ht hnow
    obtain ⟨h₀, hB₀⟩ := calls_run (D := D) tasks hs l₀
    rw [List.mem_append, not_or] at hrestart
    have h₁ := shielded_run (Q := fun o s => o = .revoked (.ok ()) →
        s.While D jti fun s => True → s.Shielded D jti inst) hrestart.1
      (fun o s s' hk h ho => (h ho).keep (lasting_inv True) hk)
      (fun k => wp_shield (h₀ k)) (i := i) ?_
    · have hshield := h₁ i
      rw [hret] at hshield
      have hS := hshield rfl rfl
      have h₂ := shielded_run (Q := fun o s => o = .answered (.ok false) →
          s.While D jti fun s => True → D ≤ s.now) hrestart.2
        (fun o s s' hk h ho => (h ho).mono hk fun _ _ _ _ h _ => (h trivial).trans hk.now)
        (fun k => wp_mono (fun _ _ _ => trivial) (h₁ k)) (i := j) ?_ j
      · rw [hanswer] at h₂
        exact absurd ((h₂ rfl (by rw [hr]) ht).2 trivial) (not_le.mpr hnow)
      · rw [hcall, hj]
        exact wp_isRevokedCall (shielded_kept inst) True (fun _ => ⟨rfl, fun _ h => h⟩) hS
    · rw [hstart, hi]
      refine wp_revokeCall (shielded_kept inst) True ?_ ?_ hB₀
      · exact fun _ => ⟨rfl, fun s hR => Or.inl hR⟩
      · refine fun _ => Or.inr fun s => Or.inr ⟨⟨s.now, ofSecs ttlSecs⟩, ?_⟩
        rw [find?_insertPending, if_pos ⟨rfl, rfl⟩]
  · exact fun l k inst f e => inRedis_of_forgotten tasks hs l k inst f e

/-- The token is looked up five seconds after the outage. -/
def fiveSecondsLater : List (Label Fate Move) :=
  [.ext (.tick 5000000000), .run 1 .done, .run 1 .done]

/-- Five seconds after an outage the instance still rejects; and the flush that lets the pending
entry go at zero has stored a key that lives until ten seconds. -/
theorem revoking_instance_rejects_outage :
    (∃ r, (machine.run (instances plainTasks plainCluster) (outage ++ fiveSecondsLater)).thread 1 =
      .ret (.answered r) ∧ r ≠ .ok false) ∧
    ∃ t, (machine.run (instances plainTasks plainCluster) flushedOutage).shared.redis.find? 9 =
      some (9, t) ∧ 10000000000 ≤ t := by
  obtain ⟨hreject, hflush⟩ :=
    revoking_instance_rejects (D := 10000000000) plainTasks (plainCluster_fresh 9)
  constructor
  · refine ⟨.ok true, rfl, hreject [] outage fiveSecondsLater 0 1 0 10
      (.ok true) rfl rfl rfl rfl rfl rfl ?_
      (timely_of_calls rfl) (by decide)⟩
    simp [outage, fiveSecondsLater]
  · have hpending :
        ((machine.run (instances plainTasks plainCluster) flushedOutage).shared.pending 0).find? 9 =
        some (9, ⟨0, 10000000000⟩) := by decide +kernel
    have hgone : ((machine.run (instances plainTasks plainCluster)
        (flushedOutage ++ [.run 2 .done])).shared.pending 0).find? 9 = none := by decide +kernel
    have hcalls : (machine.run (instances plainTasks plainCluster) flushedOutage).shared.calls =
        [⟨9, 10, 0⟩] := by
      decide +kernel
    have hnow : (machine.run (instances plainTasks plainCluster) flushedOutage).shared.now <
        10000000000 := by
      decide +kernel
    exact hflush flushedOutage 2 0 .done _ hpending hgone (timely_of_calls hcalls) hnow

end Deadline

end AppHome.Durable
