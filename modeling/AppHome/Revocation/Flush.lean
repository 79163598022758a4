import AppHome.Revocation.DurableMethods

/-!
# What a flush leaves in the pending set

`flush_pending` prunes the pending set only when a row has reached Redis. Until then entries whose
deadline has passed stay, one for every logout during an outage of Redis that is not looked up
again.

* `Cluster.AllUnexpired` : no entry of the pending set had reached its deadline at a given time;
* `pruning` : everybody keeps that, since new entries have time left;
* `Prunes` : a program that comes back with `Ok` only after it has pruned the set. A flush becomes
  one with the first row that reaches Redis (`Prog.SetPrunes`);
* `pending_pruned` : after such a flush, and after one that had nothing to prune, the set has only
  entries that were unexpired when it began.
-/

namespace AppHome.Durable

open Interleave

/-! ## Entries and their deadlines -/

/-- No entry of the instance's pending set had reached its deadline at `start`. -/
def Cluster.AllUnexpired (s : Cluster) (inst : Nat) (start : Instant) : Prop :=
  ∀ r ∈ (s.pending inst).rows, start < r.2.addedAt + r.2.ttl

/-- Only revocations that Redis has refused are pending, and it never refuses one
for zero seconds. -/
def Op.Lasts : Op → Prop
  | .pendingInsert _ _ ttlSecs => ttlSecs ≠ 0
  | _ => True

theorem Cluster.AllUnexpired.retain {s : Cluster} {inst : Nat} {start : Instant}
    (h : s.AllUnexpired inst start) (inst' : Nat) (keep : Uuid × PendingEntry → Bool) :
    (s.retain inst' keep).AllUnexpired inst start := by
  intro r hr
  simp only [Cluster.retain, Function.update_apply] at hr
  split_ifs at hr with heq
  · subst heq
    exact h r (Table.mem_filter.mp hr).1
  · exact h r hr

theorem Cluster.AllUnexpired.insertPending {s : Cluster} {inst : Nat} {start : Instant}
    (h : s.AllUnexpired inst start) (hstart : start ≤ s.now) (inst' : Nat) (jti : Uuid)
    {ttlSecs : Nat} (hpos : ttlSecs ≠ 0) :
    (s.insertPending inst' jti ttlSecs).AllUnexpired inst start := by
  intro r hr
  simp only [Cluster.insertPending, Function.update_apply] at hr
  split_ifs at hr with heq
  · subst heq
    rcases Table.mem_put.mp hr with rfl | ⟨hr, -⟩
    · exact lt_add_of_le_of_pos hstart (ofSecs_pos hpos)
    · exact h r hr
  · exact h r hr

theorem Cluster.perform_getD (s : Cluster) (w : Write) :
    ((s.perform w).getD s).now = s.now ∧ ((s.perform w).getD s).pending = s.pending := by
  cases h : s.perform w with
  | none => exact ⟨rfl, rfl⟩
  | some s' =>
      obtain ⟨hnow, -, hpending, -⟩ := Cluster.perform_frame h
      exact ⟨hnow, hpending⟩

theorem exec_now (s : Cluster) (i : Nat) (o : Op) (f : Fate) : (exec s i o f).2.now = s.now := by
  cases o with
  | write w => cases f <;> first | rfl | exact (s.perform_getD w).1
  | pendingLookup inst jti t =>
      simp only [exec]
      split
      · split_ifs <;> rfl
      · rfl
  | existsKey jti => cases f <;> rfl
  | selectBatch => cases f <;> rfl
  | _ => rfl

theorem exec_allUnexpired {s : Cluster} {inst : Nat} {start : Instant}
    (h : s.AllUnexpired inst start) (hstart : start ≤ s.now) (i : Nat) {o : Op} (ho : o.Lasts)
    (f : Fate) :
    (exec s i o f).2.AllUnexpired inst start := by
  cases o with
  | write w =>
      have hperform : ((s.perform w).getD s).AllUnexpired inst start := by
        unfold Cluster.AllUnexpired
        rw [(s.perform_getD w).2]
        exact h
      cases f <;> first | exact h | exact hperform
  | pendingInsert inst' jti ttlSecs => exact h.insertPending hstart inst' jti ho
  | pendingLookup inst' jti t =>
      simp only [exec]
      split
      · split_ifs
        · exact h
        · exact h.retain inst' _
      · exact h
  | pendingRetain inst' flushed t => exact h.retain inst' _
  | pendingPrune inst' => exact h.retain inst' _
  | existsKey jti => cases f <;> exact h
  | selectBatch => cases f <;> exact h
  | call jti ttlSecs => exact h
  | instantNow => exact h

theorem move_allUnexpired {s : Cluster} {inst : Nat} {start : Instant}
    (h : s.AllUnexpired inst start) (e : Move) :
    (move s e).AllUnexpired inst start := by
  cases e with
  | tick nanos => exact h
  | restart inst' => exact h.retain inst' _
  | takeEffect n =>
      simp only [move]
      split
      · next w _ =>
          show ∀ r ∈ (((s.perform w).getD s).pending inst).rows, _
          rw [(s.perform_getD w).2]
          exact h
      · exact h

theorem move_now_le (s : Cluster) (e : Move) : s.now ≤ (move s e).now := by
  cases e with
  | tick nanos => exact s.now_le_tick nanos
  | restart inst' => exact le_rfl
  | takeEffect n =>
      simp only [move]
      split
      · next w _ => exact ge_of_eq (s.perform_getD w).1
      · exact le_rfl

/-! ## The contract -/

/-- Time goes on, and from `start` on no expired entry comes into the pending set. -/
def pruning (inst : Nat) (start : Instant) : Contract Cluster Op where
  rely _ s s' := s.now ≤ s'.now ∧
    (start ≤ s.now → s.AllUnexpired inst start → s'.AllUnexpired inst start)
  guar _ _ o := o.Lasts

section Pruning
variable {inst : Nat} {start : Instant}

theorem exec_pruning {s : Cluster} {o : Op} (ho : o.Lasts) (i j : Nat) (f : Fate) :
    (pruning inst start).rely j s (exec s i o f).2 :=
  ⟨ge_of_eq (exec_now s i o f), fun hstart h => exec_allUnexpired h hstart i ho f⟩

theorem move_pruning (s : Cluster) (j : Nat) (e : Move) :
    (pruning inst start).rely j s (move s e) :=
  ⟨move_now_le s e, fun _ h => move_allUnexpired h e⟩

theorem pruning_sound : (pruning inst start).Sound machine where
  refl _ _ := ⟨le_rfl, fun _ h => h⟩
  trans h h' := ⟨h.1.trans h'.1, fun hstart hs => h'.2 (hstart.trans h.1) (h.2 hstart hs)⟩
  exec {i j _ _} f ho _ := exec_pruning ho j i f

end Pruning

/-! ## The calls keep it -/

theorem LookupOp.lasts {o : Op} (h : LookupOp o) : o.Lasts := by
  cases o with
  | pendingInsert inst jti ttlSecs => exact h.elim
  | _ => trivial

theorem SweepOp.lasts {o : Op} (h : SweepOp o) : o.Lasts := by
  cases o with
  | pendingInsert inst jti ttlSecs => exact h.elim
  | _ => trivial

theorem task_ops (t : Task) : t.prog.Ops Op.Lasts := by
  cases t with
  | revoke inst jti ttlSecs =>
      refine ⟨trivial, fun _ => Prog.Ops.bind ((ops_revoke inst jti ttlSecs).mono ?_) fun _ =>
        trivial⟩
      rintro o (rfl | rfl | ⟨hpos, rfl⟩)
      · trivial
      · trivial
      · exact hpos
  | isRevoked inst jti =>
      exact Prog.Ops.bind ((ops_isRevoked inst jti).mono fun _ ho => ho.lasts) fun _ => trivial
  | flushPending inst =>
      exact Prog.Ops.bind ((ops_flushPending inst).mono fun _ ho => ho.lasts) fun _ => trivial
  | pendingCount inst => exact ⟨trivial, fun _ => trivial⟩

/-! ## A flush that has reached Redis -/

/-- The program comes back with `Ok` only after it has pruned the pending set. -/
def Prunes (inst : Nat) (start : Instant) (i : Nat) (p : Method Outcome) : Prop :=
  ∀ s : Cluster, start ≤ s.now → wp machine (pruning inst start) i p
    (fun o s' => ∀ n, o = .flushed (.ok n) → start ≤ s'.now ∧ s'.AllUnexpired inst start) s

section Flush
variable {inst : Nat} {start : Instant} {i : Nat}

/-- The end of a flush that has reached Redis: what is not live at its clock reading goes. -/
theorem dropFlushed_prunes {flushed : List Uuid} (hne : flushed ≠ []) (remaining : Nat) :
    Prunes inst start i (dropFlushed inst flushed remaining >>= fun r => .ret (.flushed r)) := by
  intro s hs
  unfold dropFlushed
  rw [if_neg (by simpa using hne)]
  intro s₁ h₁
  refine ⟨trivial, fun f => ?_⟩
  have h₂ := exec_now s₁ i (.write (.deleteFlushed flushed)) f
  simp only [machine]
  generalize exec s₁ i (.write (.deleteFlushed flushed)) f = outcome at h₂ ⊢
  obtain ⟨done, s₂⟩ := outcome
  cases done with
  | false =>
      intro n ho
      cases ho
  | true =>
      intro s₃ h₃
      refine ⟨trivial, fun _ => ?_⟩
      intro s₄ h₄
      refine ⟨trivial, fun _ => ?_⟩
      intro n _
      have hstart : start ≤ s₃.now := hs.trans (h₁.1.trans ((ge_of_eq h₂).trans h₃.1))
      refine ⟨hstart.trans h₄.1, fun r hr => ?_⟩
      have hr : r ∈ ((s₄.pending inst).filter fun e =>
          !flushed.contains e.1 && e.2.live s₃.now).rows := by
        simpa [exec, Cluster.retain] using hr
      have hlive := (Table.mem_filter.mp hr).2
      exact hstart.trans_lt (lt_end_of_withinTtl (Bool.and_elim_right hlive))

theorem wp_innerRevoke_now {jti : Uuid} {ttlSecs : Nat} {s : Cluster}
    {Q : Except BlacklistError Unit → Cluster → Prop} (h : ∀ r s', s.now ≤ s'.now → Q r s') :
    wp machine (pruning inst start) i (innerRevoke jti ttlSecs) Q s := by
  unfold innerRevoke
  split_ifs
  · exact h _ s le_rfl
  · intro s₁ h₁
    exact ⟨trivial, fun f => h _ _ (h₁.1.trans (ge_of_eq (exec_now s₁ i _ f)))⟩

/-- The rest of a flush. -/
def restOfFlush (inst : Nat) (rows : List (Uuid × Nat)) (flushed : List Uuid) (remaining : Nat) :
    Method Outcome :=
  flushRows rows flushed remaining >>= fun r => dropFlushed inst r.1 r.2 >>= fun r =>
    .ret (.flushed r)

theorem restOfFlush_cons (inst : Nat) (r : Uuid × Nat) (rows : List (Uuid × Nat))
    (flushed : List Uuid) (remaining : Nat) :
    restOfFlush inst (r :: rows) flushed remaining = innerRevoke r.1 r.2 >>= fun
      | .ok () => restOfFlush inst rows (flushed ++ [r.1]) remaining
      | .error _ => restOfFlush inst rows flushed (remaining + 1) := by
  show (innerRevoke r.1 r.2 >>= _) >>= _ = _
  rw [Prog.bind_assoc]
  congr 1
  funext outcome
  cases outcome <;> rfl

/-- Once a row has reached Redis, the pending set is pruned. -/
theorem restOfFlush_prunes (rows : List (Uuid × Nat)) {flushed : List Uuid} (hne : flushed ≠ [])
    (remaining : Nat) :
    Prunes inst start i (restOfFlush inst rows flushed remaining) := by
  induction rows generalizing flushed remaining with
  | nil => exact dropFlushed_prunes hne remaining
  | cons r rows ih =>
      intro s hs
      rw [restOfFlush_cons, wp_bind]
      refine wp_innerRevoke_now fun outcome s' hs' => ?_
      cases outcome with
      | ok _ => exact ih (by simp) remaining s' (hs.trans hs')
      | error _ => exact ih hne (remaining + 1) s' (hs.trans hs')

end Flush

/-- Every `SET` that the program sends is followed by a program that prunes, once Redis has taken
it. -/
def SetPrunes (inst : Nat) (start : Instant) (i : Nat) : Method Outcome → Prop
  | .ret _ => True
  | .op (.write (.setEx _ _)) k => Prunes inst start i (k true) ∧ ∀ r, SetPrunes inst start i (k r)
  | .op _ k => ∀ r, SetPrunes inst start i (k r)

section Flush
variable {inst : Nat} {start : Instant} {i : Nat}

theorem SetPrunes.answer {o : Op} {k : Res o → Method Outcome} (r : Res o)
    (h : SetPrunes inst start i (.op o k)) :
    SetPrunes inst start i (k r) := by
  unfold SetPrunes at h
  split at h
  · next heq => cases heq
  · next heq =>
      cases heq
      exact h.2 r
  · next heq =>
      cases heq
      exact h r

theorem SetPrunes.innerRevoke {jti : Uuid} {ttlSecs : Nat}
    {k : Except BlacklistError Unit → Method Outcome} (hok : Prunes inst start i (k (.ok ())))
    (hk : ∀ r, SetPrunes inst start i (k r)) :
    SetPrunes inst start i (innerRevoke jti ttlSecs >>= k) := by
  unfold Durable.innerRevoke
  split_ifs
  · exact hk (.ok ())
  · exact ⟨hok, fun r => hk _⟩

theorem dropFlushed_setPrunes (flushed : List Uuid) (remaining : Nat) :
    SetPrunes inst start i (dropFlushed inst flushed remaining >>= fun r => .ret (.flushed r)) := by
  unfold dropFlushed
  split_ifs
  · trivial
  · intro done
    cases done with
    | false => trivial
    | true => exact fun _ _ => trivial

theorem restOfFlush_setPrunes (rows : List (Uuid × Nat)) (flushed : List Uuid) (remaining : Nat) :
    SetPrunes inst start i (restOfFlush inst rows flushed remaining) := by
  induction rows generalizing flushed remaining with
  | nil => exact dropFlushed_setPrunes flushed remaining
  | cons r rows ih =>
      rw [restOfFlush_cons]
      refine SetPrunes.innerRevoke (restOfFlush_prunes rows (by simp) remaining) fun outcome => ?_
      cases outcome with
      | ok _ => exact ih ..
      | error _ => exact ih ..

theorem flushPending_setPrunes : SetPrunes inst start i (Task.flushPending inst).prog := by
  intro done
  cases done with
  | false => trivial
  | true =>
      intro rows
      cases rows with
      | none => trivial
      | some rows =>
          show SetPrunes inst start i ((flushRows rows [] 0 >>= _) >>= _)
          rw [Prog.bind_assoc]
          exact restOfFlush_setPrunes rows [] 0

end Flush

/-! ## Runs -/

/-- On its way a `SET` of thread `i` is taken by Redis. -/
def Lands (c : Cfg Cluster Op Res Outcome) (i : Nat) (l : List (Label Fate Move)) : Prop :=
  ∃ l₁ l₂ jti ttlSecs k, l = l₁ ++ .run i .done :: l₂ ∧
    (machine.run c l₁).thread i = .op (.write (.setEx jti ttlSecs)) k

theorem now_run (c : Cfg Cluster Op Res Outcome) (l : List (Label Fate Move)) :
    c.shared.now ≤ (machine.run c l).shared.now :=
  run_rel (R := fun s s' => s.now ≤ s'.now) (fun _ => le_rfl) (fun h h' => h.trans h')
    (fun s i o f => ge_of_eq (exec_now s i o f)) (fun s e => move_now_le s e) c l

section Run
variable {c : Cfg Cluster Op Res Outcome} {inst : Nat} {start : Instant}
  (hops : ∀ i, (c.thread i).Ops Op.Lasts)
include hops

theorem ops_run (l : List (Label Fate Move)) (i : Nat) :
    ((machine.run c l).thread i).Ops Op.Lasts :=
  run_thread machine (P := Prog.Ops Op.Lasts) (fun _ _ r h => h.2 r) (hops i) l

theorem wp_lasts (i : Nat) :
    wp machine (pruning inst start) i (c.thread i) (fun _ _ => True) c.shared :=
  wp_of_ops (fun _ _ h => h) (hops i) c.shared

theorem allUnexpired_run (hstart : start ≤ c.shared.now) (h : c.shared.AllUnexpired inst start)
    (l : List (Label Fate Move)) : (machine.run c l).shared.AllUnexpired inst start := by
  have hrun : start ≤ (machine.run c l).shared.now ∧
      (machine.run c l).shared.AllUnexpired inst start := by
    have hsound : (pruning inst start).Sound machine := pruning_sound
    refine run_shared (I := fun s => start ≤ s.now ∧ s.AllUnexpired inst start) hsound
      (fun _ _ _ _ _ _ => trivial) (fun j c e _ => move_pruning c.shared j e) ?_ ?_
        (along_true machine c l)
      (wp_lasts hops) ⟨hstart, h⟩
    · intro c i o k f _ _ ho hs
      exact ⟨hs.1.trans (ge_of_eq (exec_now c.shared i o f)), exec_allUnexpired hs.2 hs.1 i ho f⟩
    · intro c e _ hs
      exact ⟨hs.1.trans (move_now_le c.shared e), move_allUnexpired hs.2 e⟩
  exact hrun.2

/-- From where thread `i` only comes back with `Ok` once it has pruned, nothing stays
that was over. -/
theorem prunes_run {i : Nat} (hstart : start ≤ c.shared.now)
    (hi : Prunes inst start i (c.thread i)) {l : List (Label Fate Move)} {n : Nat}
    (hend : (machine.run c l).thread i = .ret (.flushed (.ok n))) :
    (machine.run c l).shared.AllUnexpired inst start := by
  have hsound : (pruning inst start).Sound machine := pruning_sound
  let Q : Nat → Outcome → Cluster → Prop := fun j o s =>
    j = i → ∀ n, o = .flushed (.ok n) → start ≤ s.now ∧ s.AllUnexpired inst start
  have hwp : ∀ j, wp machine (pruning inst start) j (c.thread j) (Q j) c.shared := by
    intro j
    by_cases hj : j = i
    · subst hj
      exact wp_mono (fun _ _ h _ => h) (hi c.shared hstart)
    · exact wp_mono (fun _ _ _ h => absurd h hj) (wp_lasts hops j)
  have hpost := run_post (Q := Q) hsound (fun j o s s' hrely hQ hj n ho => ?_)
    (fun j c e _ => move_pruning c.shared j e) (along_true machine c l) hwp hend
  · exact (hpost rfl n rfl).2
  · obtain ⟨hnow, hall⟩ := hQ hj n ho
    exact ⟨hnow.trans hrely.1, hrely.2 hnow hall⟩

theorem lands_run {i : Nat} (hstart : start ≤ c.shared.now)
    (hi : SetPrunes inst start i (c.thread i)) {l : List (Label Fate Move)} (hlands : Lands c i l)
    {n : Nat} (hend : (machine.run c l).thread i = .ret (.flushed (.ok n))) :
    (machine.run c l).shared.AllUnexpired inst start := by
  obtain ⟨l₁, l₂, jti, ttlSecs, k, rfl, hset⟩ := hlands
  have hprunes : Prunes inst start i (k true) := by
    have h := run_thread machine (P := SetPrunes inst start i) (fun _ _ r h => h.answer r) hi l₁
    rw [hset] at h
    exact h.1
  rw [run_append, run_cons, step_op machine .done hset] at hend ⊢
  refine prunes_run (fun j => ?_) ?_ ?_ hend
  · have h := ops_run (ops_run hops l₁) [.run i .done] j
    rwa [run_cons, step_op machine .done hset] at h
  · exact (hstart.trans (now_run c l₁)).trans (ge_of_eq (exec_now _ i _ .done))
  · simp only [Function.update_self]
    exact hprunes

end Run

/-- A flush that comes back with `Ok` leaves no revocation in the pending set that was over when it
began, whatever else ran and failed on the way, provided there was none to begin with or Redis took
one of the rows of its batch. -/
theorem pending_pruned (tasks : Nat → Task) (s : Cluster) (l₀ l : List (Label Fate Move))
    (i inst n : Nat) (f₀ : Fate) (htask : tasks i = .flushPending inst)
    (hbegin : (machine.run (instances tasks s) l₀).thread i = (tasks i).prog)
    (hend : (machine.run (instances tasks s) (l₀ ++ .run i f₀ :: l)).thread i =
      .ret (.flushed (.ok n)))
    (hmeets : (machine.run (instances tasks s) l₀).shared.AllUnexpired inst
      (machine.run (instances tasks s) l₀).shared.now ∨
      Lands (machine.run (instances tasks s) (l₀ ++ [.run i f₀])) i l) :
    (machine.run (instances tasks s) (l₀ ++ .run i f₀ :: l)).shared.AllUnexpired inst
      (machine.run (instances tasks s) l₀).shared.now := by
  have hops : ∀ l j, ((machine.run (instances tasks s) l).thread j).Ops Op.Lasts := fun l j =>
    ops_run (fun j => task_ops (tasks j)) l j
  rcases hmeets with hnone | hlands
  · rw [run_append]
    exact allUnexpired_run (hops l₀) le_rfl hnone _
  · have hsplit : l₀ ++ .run i f₀ :: l = (l₀ ++ [.run i f₀]) ++ l := by simp
    rw [hsplit, run_append] at hend ⊢
    refine lands_run (hops _) ?_ ?_ hlands hend
    · rw [run_append]
      exact now_run _ _
    · rw [run_append]
      refine run_thread machine (P := SetPrunes inst _ i) (fun _ _ r h => h.answer r) ?_ _
      rw [hbegin, htask]
      exact flushPending_setPrunes

/-- The pending copy of an outage goes with the flush that brings its row to Redis. -/
theorem pending_pruned_outage :
    (machine.run (instances plainTasks plainCluster) (flushedOutage ++ [.run 2 .done])).thread 2 =
      .ret (.flushed (.ok 0)) ∧
    (machine.run (instances plainTasks plainCluster)
      (flushedOutage ++ [.run 2 .done])).shared.AllUnexpired 0
      (machine.run (instances plainTasks plainCluster) outage).shared.now :=
  ⟨rfl, pending_pruned plainTasks plainCluster outage
    (List.replicate 5 (.run 2 .done)) 2 0 0 .done rfl rfl rfl
    (.inr ⟨[.run 2 .done], List.replicate 3 (.run 2 .done), 9, 10, _, rfl, rfl⟩)⟩

/-- Token 9 is revoked while Redis is down and its time goes by before a flush comes. The sweep
takes its row, so the batch is empty, and an empty batch prunes nothing. -/
theorem outage_leaks :
    (machine.run (instances plainTasks plainCluster)
      (outage ++ [.ext (.tick 10000000000)])).thread 2 = (plainTasks 2).prog ∧
    (machine.run (instances plainTasks plainCluster)
      (outage ++ [.ext (.tick 10000000000), .run 2 .done, .run 2 .done])).thread 2 =
        .ret (.flushed (.ok 0)) ∧
    ¬ (machine.run (instances plainTasks plainCluster)
      (outage ++ [.ext (.tick 10000000000), .run 2 .done, .run 2 .done])).shared.AllUnexpired 0
      (machine.run (instances plainTasks plainCluster)
        (outage ++ [.ext (.tick 10000000000)])).shared.now := by
  refine ⟨rfl, rfl, fun h => ?_⟩
  have hpending : ((machine.run (instances plainTasks plainCluster)
      (outage ++ [.ext (.tick 10000000000), .run 2 .done, .run 2 .done])).shared.pending 0).rows =
      [(9, ⟨0, 10000000000⟩)] := by decide +kernel
  have hover := h (9, ⟨0, 10000000000⟩) (by rw [hpending]; exact List.mem_singleton_self _)
  revert hover
  decide +kernel

end AppHome.Durable
