import AppHome.Revocation.Backlog
import AppHome.Service.Revocations

/-!
# Sweeps drain the outbox

* `Drained` : how many of the oldest rows have gone;
* `wp_flush_drains` : a sweep that reports that nothing remains of its batch has taken the oldest
  500 rows, or all;
* `swept_of_done` : where Redis and Postgres answer, that is what it reports;
* `sweeps_drain` : sweeps one after the other, on any processes and beside any other requests, empty
  the outbox while no row is added.
-/

namespace AppHome.Durable

open Interleave

/-! ## What is gone from the outbox -/

/-- Nothing was added to the outbox, and for every row that stays `n` rows that are no younger have
gone. -/
structure Drained (n : Nat) (before after : Outbox) : Prop where
  subset : after.rows ⊆ before.rows
  oldest : ∀ r ∈ after.rows, ∃ gone : List OutboxRow, gone.length = n ∧ gone.Nodup ∧
    ∀ r' ∈ gone, r' ∈ before.rows ∧ r' ∉ after.rows ∧ r'.createdAt ≤ r.createdAt

namespace Drained
variable {n n' : Nat} {t t' t'' : Outbox}

theorem of_subset (h : t'.rows ⊆ t.rows) : Drained 0 t t' :=
  ⟨h, fun _ _ => ⟨[], rfl, List.nodup_nil, fun _ hr => absurd hr List.not_mem_nil⟩⟩

theorem trans (h : Drained n t t') (h' : Drained n' t' t'') : Drained (n + n') t t'' := by
  refine ⟨fun r hr => h.subset (h'.subset hr), fun r hr => ?_⟩
  obtain ⟨gone, hlength, hnodup, hgone⟩ := h.oldest r (h'.subset hr)
  obtain ⟨gone', hlength', hnodup', hgone'⟩ := h'.oldest r hr
  have hdisjoint : gone.Disjoint gone' := fun r' hr' hr'' => (hgone r' hr').2.1 (hgone' r' hr'').1
  refine ⟨gone ++ gone', ?_, hnodup.append hnodup' hdisjoint, fun r' hr' => ?_⟩
  · rw [List.length_append, hlength, hlength']
  · rcases List.mem_append.mp hr' with hr' | hr'
    · obtain ⟨hbefore, hafter, hold⟩ := hgone r' hr'
      exact ⟨hbefore, fun hr'' => hafter (h'.subset hr''), hold⟩
    · obtain ⟨hbefore, hafter, hold⟩ := hgone' r' hr'
      exact ⟨h.subset hbefore, hafter, hold⟩

theorem length_le (h : Drained n t t') : t'.rows.length ≤ t.rows.length - n := by
  cases hrows : t'.rows with
  | nil => exact Nat.zero_le _
  | cons r rows =>
      obtain ⟨gone, hlength, hnodup, hgone⟩ := h.oldest r (by rw [hrows]; exact List.mem_cons_self)
      have hdisjoint : gone.Disjoint t'.rows := fun r' hr' => (hgone r' hr').2.1
      have hall : gone ++ t'.rows ⊆ t.rows := fun r' hr' =>
        (List.mem_append.mp hr').elim (fun hr' => (hgone r' hr').1) fun hr' => h.subset hr'
      have hle := ((hnodup.append (t'.nodup.of_map _) hdisjoint).subperm hall).length_le
      rw [List.length_append, hlength, hrows] at hle
      omega

/-- Between `s` and `s'` the batch of `s` has gone. -/
theorem of_batch {s s' : Cluster} (hrows : s'.outbox.rows ⊆ s.outbox.rows)
    (hgone : ∀ r ∈ s'.outbox.rows, r.jti ∉ s.batch.map Prod.fst) :
    Drained flushBatchSize s.outbox s'.outbox := by
  let older : OutboxRow → OutboxRow → Prop := fun r r' => r.createdAt ≤ r'.createdAt
  let sorted := s.outbox.rows.insertionSort older
  have htotal : Std.Total older := ⟨fun r r' => le_total r.createdAt r'.createdAt⟩
  have htrans : IsTrans OutboxRow older := ⟨fun _ _ _ h h' => le_trans h h'⟩
  have hperm : sorted.Perm s.outbox.rows := List.perm_insertionSort older s.outbox.rows
  have hsorted : (sorted.take flushBatchSize ++ sorted.drop flushBatchSize).Pairwise older := by
    rw [List.take_append_drop]
    exact List.pairwise_insertionSort older s.outbox.rows
  have hbatch : ∀ r ∈ sorted.take flushBatchSize, r ∉ s'.outbox.rows := by
    intro r hr hr'
    refine hgone r hr' ?_
    rw [Cluster.batch, List.map_map]
    exact List.mem_map_of_mem hr
  refine ⟨hrows, fun r hr => ⟨sorted.take flushBatchSize, ?_, ?_, fun r' hr' => ?_⟩⟩
  · -- a row beyond the batch shows that the batch is full
    have hbeyond : flushBatchSize < sorted.length := by
      by_contra hle
      refine hbatch r ?_ hr
      rw [List.take_of_length_le (not_lt.mp hle)]
      exact hperm.mem_iff.mpr (hrows hr)
    rw [List.length_take, Nat.min_eq_left hbeyond.le]
  · exact (hperm.nodup_iff.mpr (s.outbox.nodup.of_map _)).sublist (List.take_sublist ..)
  · have hdrop : r ∈ sorted.drop flushBatchSize := by
      have hmem : r ∈ sorted.take flushBatchSize ++ sorted.drop flushBatchSize := by
        rw [List.take_append_drop]
        exact hperm.mem_iff.mpr (hrows hr)
      exact (List.mem_append.mp hmem).resolve_left fun htake => hbatch r htake hr
    exact ⟨hperm.subset (List.mem_of_mem_take hr'), hbatch r' hr',
      (List.pairwise_append.mp hsorted).2.2 r' hr' r hdrop⟩

end Drained

/-! ## One sweep -/

/-- Others take rows from the outbox but add none. -/
def shrinking : Contract Cluster Op where
  rely _ s s' := s'.outbox.rows ⊆ s.outbox.rows
  guar _ _ _ := True

section Sweep
variable {i inst : Nat} {s : Cluster}

theorem wp_dropFlushed_drains {t : Cluster} (hs : s.outbox.rows ⊆ t.outbox.rows)
    {flushed : List Uuid} {remaining : Nat}
    (hall : remaining = 0 → flushed = t.batch.map Prod.fst) :
    wp machine shrinking i (dropFlushed inst flushed remaining)
      (fun r s' => r = .ok 0 → Drained flushBatchSize t.outbox s'.outbox) s := by
  unfold dropFlushed
  split_ifs with hempty
  · intro hr
    cases hr
    refine Drained.of_batch hs fun r _ => ?_
    rw [← hall rfl, List.isEmpty_iff.mp hempty]
    exact List.not_mem_nil
  · intro s₁ h₁
    refine ⟨trivial, fun f => ?_⟩
    cases hdone : (machine.exec s₁ i (.write (.deleteFlushed flushed)) f).1 with
    | false =>
        intro hr
        cases hr
    | true =>
        have hperform := performed_of_done (i := i) hdone
        intro s₂ h₂
        refine ⟨trivial, fun f₂ s₃ h₃ => ⟨trivial, fun f₃ hr => ?_⟩⟩
        cases hr
        have hleft : s₃.outbox.rows ⊆ s₁.outbox.rows.filter fun r => !flushed.contains r.jti := by
          refine List.Subset.trans h₃ (List.Subset.trans h₂ ?_)
          show (exec s₁ i (.write (.deleteFlushed flushed)) f).2.outbox.rows ⊆ _
          rw [← Option.some.inj hperform]
          exact List.Subset.refl _
        have hgone : ∀ r ∈ s₃.outbox.rows, r.jti ∉ t.batch.map Prod.fst := by
          intro r hr
          rw [← hall rfl]
          simpa using (List.mem_filter.mp (hleft hr)).2
        exact Drained.of_batch (fun r hr => hs (h₁ (List.mem_filter.mp (hleft hr)).1)) hgone

/-- **A sweep that reports an empty rest has taken its whole batch.** -/
theorem wp_flush_drains :
    wp machine shrinking i (flushPending inst)
      (fun r s' => r = .ok 0 → Drained flushBatchSize s.outbox s'.outbox) s := by
  intro s₁ h₁
  refine ⟨trivial, fun f => ?_⟩
  cases hswept : (machine.exec s₁ i (.write .deleteExpired) f).1 with
  | false =>
      intro hr
      cases hr
  | true =>
      have hperform := performed_of_done (i := i) hswept
      have hsweep : (exec s₁ i (.write .deleteExpired) f).2.outbox.rows ⊆ s.outbox.rows := by
        rw [← Option.some.inj hperform]
        exact fun r hr => h₁ (List.mem_filter.mp hr).1
      intro s₂ h₂
      refine ⟨trivial, fun f₂ => ?_⟩
      cases f₂ with
      | done =>
          have hstart : Drained 0 s.outbox s₂.outbox := .of_subset (List.Subset.trans h₂ hsweep)
          show wp machine shrinking i
              (flushRows s₂.batch [] 0 >>= fun r => dropFlushed inst r.1 r.2) _ s₂
          rw [wp_bind]
          have hloop : wp machine shrinking i (flushRows s₂.batch [] 0) _ s₂ :=
            wp_flushRows_counts (J := fun t => t.rows ⊆ s₂.outbox.rows)
              (fun _ _ h hs => List.Subset.trans h hs)
              (fun _ _ _ => trivial) s₂.batch (List.Subset.refl _)
          refine wp_mono ?_ hloop
          rintro r s₃ ⟨h₃, hsub, hcount⟩
          refine wp_mono (fun r' s' h hr => ?_) (wp_dropFlushed_drains h₃ fun hzero => ?_)
          · have hboth := hstart.trans (h hr)
            rwa [Nat.zero_add] at hboth
          · refine hsub.eq_of_length ?_
            rw [List.length_map]
            omega
      | _ =>
          intro hr
          cases hr

end Sweep

/-! ## Sweeps that are answered -/

/-- Redis or Postgres has not done what it was asked. -/
def Fails : (o : Op) → Res o → Prop
  | .write _, done => done = false
  | .selectBatch, rows => rows = none
  | _, _ => False

theorem until_flushRows (rows : List (Uuid × Nat)) (flushed : List Uuid) (remaining : Nat) :
    (flushRows rows flushed remaining).Until (fun _ => False) Fails fun r => r.2 = remaining := by
  induction rows generalizing flushed with
  | nil => rfl
  | cons row rows ih =>
      have hinner : (innerRevoke row.1 row.2).Until (fun _ => False) Fails fun r => r = .ok () := by
        unfold innerRevoke
        split_ifs
        · rfl
        · refine ⟨id, fun done hdone => ?_⟩
          cases done with
          | false => exact absurd rfl hdone
          | true => rfl
      refine (hinner.mono fun r hr => ?_).bind
      rw [hr]
      exact ih _

/-- A sweep reports that something remains, or an error, only after a failure. -/
theorem until_flushPending (inst : Nat) :
    (flushPending inst).Until (fun _ => False) Fails fun r => r = .ok 0 := by
  refine ⟨id, fun swept hswept => ?_⟩
  cases swept with
  | false => exact absurd rfl hswept
  | true =>
      refine ⟨id, fun rows hrows => ?_⟩
      cases rows with
      | none => exact absurd rfl hrows
      | some rows =>
          refine ((until_flushRows rows [] 0).mono fun r hr => ?_).bind
          obtain ⟨flushed, remaining⟩ := r
          cases hr
          show (dropFlushed inst flushed 0).Until _ _ _
          unfold dropFlushed
          split_ifs
          · rfl
          · refine ⟨id, fun deleted hdeleted => ?_⟩
            cases deleted with
            | false => exact absurd rfl hdeleted
            | true => exact ⟨id, fun now _ => ⟨id, fun _ _ => rfl⟩⟩

theorem not_fails {o : Op} (ho : SweepOp o) (s : Cluster) (i : Nat) :
    ¬ Fails o (exec s i o .done).1 := by
  cases o with
  | write w =>
      cases w with
      | journal jti ttlSecs => exact ho.elim
      | _ => exact fun h => by cases h
  | selectBatch => exact fun h => by cases h
  | _ => exact id

theorem exec_sweep_outbox {o : Op} (ho : SweepOp o) (s : Cluster) (i : Nat) (f : Fate) :
    (exec s i o f).2.outbox.rows ⊆ s.outbox.rows := by
  cases o with
  | write w =>
      have hperform : ((s.perform w).getD s).outbox.rows ⊆ s.outbox.rows := by
        cases w with
        | setEx jti ttlSecs => exact List.Subset.refl _
        | journal jti ttlSecs => exact ho.elim
        | deleteExpired => exact List.filter_subset_self _
        | deleteFlushed flushed => exact List.filter_subset_self _
      cases f with
      | done => exact hperform
      | failed => exact List.Subset.refl _
      | failedApplied => exact hperform
      | failedLate => exact List.Subset.refl _
  | selectBatch => cases f <;> exact List.Subset.refl _
  | instantNow => exact List.Subset.refl _
  | pendingRetain inst flushed now => exact List.Subset.refl _
  | _ => exact ho.elim

end AppHome.Durable

namespace AppHome.Service

open Interleave

variable (d : Deployment) (app : App)

def SweepFails : (o : Op) → Res o → Prop
  | .revocation o, r => Durable.Fails o r
  | _, _ => False

/-- The move adds no row to the outbox. -/
def AddsNone (c : Cfg State Op Res Outcome) (a : Label Fate Move) : Prop :=
  ((machine d).step c a).shared.revocations.outbox.rows ⊆ c.shared.revocations.outbox.rows

/-- Sweeps of any processes, each begun when the one before has ended. Redis and Postgres answer
them, and in the meantime the other jobs do anything but add to the outbox. -/
inductive Sweeps : Cfg State Op Res Outcome → List (Nat × List (Label Fate Move)) → Prop
  | nil (c) : Sweeps c []
  | cons {c i l rest a} (hbegin : c.thread i = Job.sweep.prog app (d.inst i))
      (hend : ((machine d).run c l).thread i = .ret a)
      (hanswered : ∀ f, .run i f ∈ l → f.revocation = .done)
      (hadds : (machine d).Along (AddsNone d) c l) (hrest : Sweeps ((machine d).run c l) rest) :
    Sweeps c ((i, l) :: rest)

variable {d app}

theorem ops_sweep (inst : Nat) :
    (Job.sweep.prog app inst).Ops fun o => ∃ o', o = .revocation o' ∧ Durable.SweepOp o' := by
  refine Prog.Ops.bind (Prog.ops_widen ?_) fun _ => trivial
  exact (Durable.ops_flushPending inst).mono fun o ho => ⟨o, rfl, ho⟩

section Sweep
variable {c : Cfg State Op Res Outcome} {i : Nat} {l : List (Label Fate Move)} {a : Outcome}
  (hbegin : c.thread i = Job.sweep.prog app (d.inst i))
  (hend : ((machine d).run c l).thread i = .ret a)
include hbegin hend

theorem swept_of_done (hanswered : ∀ f, .run i f ∈ l → f.revocation = .done) :
    a = .swept (.ok 0) := by
  by_contra ha
  have hwide : (ofRevocation (Durable.flushPending (d.inst i))).Until (fun _ => False) SweepFails
      fun r => r = .ok 0 := by
    refine Prog.Until.widen ?_ ?_ (Durable.until_flushPending (d.inst i))
    · exact fun _ h => h
    · exact fun _ _ h => h
  have huntil : (c.thread i).Until (fun _ => False) SweepFails (· = .swept (.ok 0)) := by
    rw [hbegin]
    exact (hwide.mono fun r hr => congrArg Outcome.swept hr).bind
  have hops : (c.thread i).Ops fun o => ∃ o', o = .revocation o' ∧ Durable.SweepOp o' := by
    rw [hbegin]
    exact ops_sweep (d.inst i)
  obtain ⟨l₁, f, l₂, o, k, rfl, hthread, hfails⟩ := run_until (machine d) huntil (l := l) (by
    rw [hend]
    exact ha)
  obtain ⟨o, rfl, ho⟩ := run_ops (machine d) hops hthread
  have hdone := hanswered f (List.mem_append_right _ List.mem_cons_self)
  have hexec : Durable.Fails o
      (Durable.exec ((machine d).run c l₁).shared.revocations i o f.revocation).1 := hfails
  rw [hdone] at hexec
  exact Durable.not_fails ho _ i hexec

/-- A sweep that reports that nothing remains has taken the oldest 500 rows, or all. -/
theorem sweep_drains (hadds : (machine d).Along (AddsNone d) c l) (ha : a = .swept (.ok 0)) :
    Durable.Drained Durable.flushBatchSize c.shared.revocations.outbox
      ((machine d).run c l).shared.revocations.outbox := by
  let ct : Contract State Op :=
    ⟨fun i s s' => Durable.shrinking.rely i s.revocations s'.revocations, fun _ _ _ => True⟩
  let Q : Outcome → State → Prop := fun a s => a = .swept (.ok 0) →
    Durable.Drained Durable.flushBatchSize c.shared.revocations.outbox s.revocations.outbox
  have hwp : wp (machine d) ct i (c.thread i) Q c.shared := by
    rw [hbegin]
    show wp _ _ _ (ofRevocation (Durable.flushPending (d.inst i)) >>= _) _ _
    rw [wp_bind]
    have hflush : wp Durable.machine Durable.shrinking i
        (Durable.flushPending (d.inst i)) _ c.shared.revocations :=
      Durable.wp_flush_drains
    refine wp_mono ?_
      (wp_widen (fun s : State => s.revocations) ?_ (fun _ _ h => h) (fun _ _ _ => trivial) hflush)
    · intro r s h hr
      cases hr
      exact h rfl
    · exact fun s o f => ⟨f.revocation, rfl, rfl⟩
  have hrely : (machine d).Along
      (fun c a => (∀ f, a ≠ .run i f) → ct.rely i c.shared ((machine d).step c a).shared) c l := by
    refine Along.mono (machine d) ?_ hadds
    exact fun c a h _ => h
  have hlater : ∀ (a : Outcome) (s s' : State), ct.rely i s s' → Q a s → Q a s' := by
    intro a s s' hs h ha
    have hboth := (h ha).trans (.of_subset hs)
    rwa [Nat.add_zero] at hboth
  have hrun := run_local (fun h h' => List.Subset.trans h' h) hlater
    (fun s => List.Subset.refl _) hrely hwp
  rw [hend] at hrun
  exact hrun ha

end Sweep

/-- **Sweeps drain the outbox.** Each sweep takes the oldest 500 rows, or all; so after one sweep
for every 500 rows the outbox is empty, whoever sweeps and whatever the other requests do in the
meantime. -/
theorem sweeps_drain (d : Deployment) (app : App) (c : Cfg State Op Res Outcome)
    (sweeps : List (Nat × List (Label Fate Move))) (h : Sweeps d app c sweeps) :
    Durable.Drained (Durable.flushBatchSize * sweeps.length) c.shared.revocations.outbox
      ((machine d).run c (sweeps.flatMap Prod.snd)).shared.revocations.outbox ∧
    ((machine d).run c (sweeps.flatMap Prod.snd)).shared.revocations.outbox.rows.length ≤
      c.shared.revocations.outbox.rows.length - Durable.flushBatchSize * sweeps.length := by
  suffices hdrained :
      Durable.Drained (Durable.flushBatchSize * sweeps.length) c.shared.revocations.outbox
      ((machine d).run c (sweeps.flatMap Prod.snd)).shared.revocations.outbox from
        ⟨hdrained, hdrained.length_le⟩
  induction h with
  | nil c => exact .of_subset (List.Subset.refl _)
  | cons hbegin hend hanswered hadds hrest ih =>
      rw [List.flatMap_cons, run_append, List.length_cons, Nat.mul_succ, Nat.add_comm]
      exact (sweep_drains hbegin hend hadds (swept_of_done hbegin hend hanswered)).trans ih

/-! ## A small instance -/

theorem addsNone_sweep {c : Cfg State Op Res Outcome} {i : Nat}
    (hops : (c.thread i).Ops fun o => ∃ o', o = .revocation o' ∧ Durable.SweepOp o') (n : Nat) :
    (machine d).Along (AddsNone d) c (List.replicate n (.run i allDone)) := by
  induction n generalizing c with
  | zero => trivial
  | succ n ih =>
      refine ⟨?_,
        ih (run_thread (machine d) (P := Prog.Ops _) (fun _ _ r h => h.2 r) hops [.run i allDone])⟩
      cases hi : c.thread i with
      | ret a =>
          rw [AddsNone, step_ret (machine d) allDone hi]
          exact List.Subset.refl _
      | op o k =>
          rw [hi] at hops
          obtain ⟨o, rfl, ho⟩ := hops.1
          rw [AddsNone, step_op (machine d) allDone hi]
          exact Durable.exec_sweep_outbox ho c.shared.revocations i .done

/-- After moves of others that add no row, a sweep can be scheduled to its end. -/
theorem exists_sweep {c : Cfg State Op Res Outcome} {i : Nat} (others : List (Label Fate Move))
    (hbegin : c.thread i = Job.sweep.prog app (d.inst i))
    (hkept : ((machine d).run c others).thread i = c.thread i) (hothers : ∀ f, .run i f ∉ others)
    (hadds : (machine d).Along (AddsNone d) c others) :
    ∃ n a, ((machine d).run c (others ++ List.replicate n (.run i allDone))).thread =
        Function.update ((machine d).run c others).thread i (.ret a) ∧
      ∀ rest, Sweeps d app ((machine d).run c (others ++ List.replicate n (.run i allDone))) rest →
        Sweeps d app c ((i, others ++ List.replicate n (.run i allDone)) :: rest) := by
  obtain ⟨n, hn⟩ := run_alone (machine d) i allDone ((machine d).run c others)
  have hend := congrArg Cfg.thread hn
  rw [← run_append] at hend
  refine ⟨n, _, hend, fun rest hrest => ?_⟩
  refine .cons hbegin ((congrFun hend i).trans (Function.update_self ..)) (fun f hf => ?_) ?_ hrest
  · rcases List.mem_append.mp hf with hf | hf
    · exact absurd hf (hothers f)
    · cases (List.mem_replicate.mp hf).2
      rfl
  · refine along_append (machine d) hadds (addsNone_sweep ?_ n)
    rw [hkept, hbegin]
    exact ops_sweep (d.inst i)

/-- 501 revocations that wait for a sweep, made one after the other. -/
def crowded : State :=
  let outbox : Durable.Outbox :=
    ⟨(List.range 501).map fun k => ⟨.ofNat 128 k, 900, k, ofSecs 900⟩, by
    rw [List.map_map]
    exact Durable.nodup_tokens (by decide)⟩
  { plainService with revocations := { plainService.revocations with outbox } }

theorem length_crowded : crowded.revocations.outbox.rows.length = 501 :=
  (List.length_map _).trans List.length_range

/-- Two processes sweep, and somebody asks for their profile. -/
def sweepsBesideProfile : Nat → Job := fun i =>
  if i < 2 then .sweep else .request ⟨.v4 1, plainBearer 1, plainEnv 9 0, .getProfile⟩

def twoProcesses : Deployment := { plainDeployment with inst := fun i => i % 2 }

def firstSweep (n : Nat) : List (Label Fate Move) :=
  [.run 2 allDone, .ext (.tick 1)] ++ List.replicate n (.run 0 allDone)

def secondSweep (n : Nat) : List (Label Fate Move) :=
  [.ext (.tick 1)] ++ List.replicate n (.run 1 allDone)

/-- The first sweep leaves at most one row, which has 500 older ones before it, and the second sweep
takes that one. -/
theorem sweeps_drain_crowded : ∃ n n',
    Durable.Drained 500 crowded.revocations.outbox
      (after twoProcesses plainApp sweepsBesideProfile crowded (firstSweep n)).revocations.outbox ∧
    (after twoProcesses plainApp sweepsBesideProfile crowded
      (firstSweep n)).revocations.outbox.rows.length ≤ 1 ∧
    (after twoProcesses plainApp sweepsBesideProfile crowded
      (firstSweep n ++ secondSweep n')).revocations.outbox.rows = [] := by
  let start := service twoProcesses plainApp sweepsBesideProfile crowded
  have hlength : start.shared.revocations.outbox.rows.length = 501 := length_crowded
  obtain ⟨n, a, hend, hfirst⟩ := exists_sweep (d := twoProcesses) (c := start) (i := 0)
    [.run 2 allDone, .ext (.tick 1)] (show _ = Job.sweep.prog plainApp 0 from rfl) rfl (by simp)
    ⟨List.Subset.refl _, List.Subset.refl _, trivial⟩
  obtain ⟨n', a', -, hsecond⟩ := exists_sweep (d := twoProcesses) (i := 1) [.ext (.tick 1)]
    (show _ = Job.sweep.prog plainApp 1 from congrFun hend 1) rfl (by simp)
    ⟨List.Subset.refl _, trivial⟩
  have hone := sweeps_drain twoProcesses plainApp start [(0, firstSweep n)] (hfirst [] (.nil _))
  have htwo := sweeps_drain twoProcesses plainApp start [(0, firstSweep n), (1, secondSweep n')]
    (hfirst _ (hsecond [] (.nil _)))
  simp only [List.flatMap_cons, List.flatMap_nil, List.append_nil, hlength, List.length_cons,
    List.length_nil, Durable.flushBatchSize, Nat.reduceAdd, Nat.reduceMul, Nat.reduceSub]
    at hone htwo
  exact ⟨n, n', hone.1, hone.2, List.length_eq_zero_iff.mp (Nat.le_zero.mp htwo.2)⟩

end AppHome.Service
