import AppHome.Revocation.Flush

/-!
# What a flush reports

The number `flush_pending` returns is published as `access_token_revocation_outbox_pending`. It
counts the rows of one batch. The runs here have any number of lookups beside the flush, but no
other writer.

* `Cluster.swept` : the cluster after the sweep at the start of a flush;
* `wp_flushRows_counts` : the loop of a flush keeps count of the rows;
* `unwritten`, `dropFlushed_leaves` : what a flush that nobody writes beside does to them;
* `backlog_of_batch` : the number returned against the rows that are left;
* `refused_run` : a flush while Redis is down.
-/

namespace AppHome.Durable

open Interleave

/-! ## The batch -/

/-- After a sweep. -/
def Cluster.swept (s : Cluster) :
    Cluster := { s with outbox := s.outbox.filter fun r => s.now < r.expiresAt }

theorem length_batch (s : Cluster) : s.batch.length = min flushBatchSize s.outbox.rows.length := by
  rw [Cluster.batch, List.length_map, List.length_take, List.length_insertionSort]

theorem batch_congr {s s' : Cluster} (h : s'.outbox = s.outbox) : s'.batch = s.batch := by
  rw [Cluster.batch, Cluster.batch, h]

theorem batch_keys (s : Cluster) :
    ∃ rest, List.Perm (s.batch.map Prod.fst ++ rest) (s.outbox.rows.map OutboxRow.jti) := by
  let sorted := s.outbox.rows.insertionSort fun r r' => r.createdAt ≤ r'.createdAt
  refine ⟨(sorted.drop flushBatchSize).map OutboxRow.jti, ?_⟩
  rw [Cluster.batch, List.map_map]
  show List.Perm ((sorted.take flushBatchSize).map OutboxRow.jti ++
      (sorted.drop flushBatchSize).map OutboxRow.jti) _
  rw [← List.map_append, List.take_append_drop]
  exact (List.perm_insertionSort _ s.outbox.rows).map _

/-! ## The loop over the batch -/

theorem rets_flushRows (rows : List (Uuid × Nat)) (flushed : List Uuid) (remaining : Nat) :
    (flushRows rows flushed remaining).Rets fun r => ∃ taken, taken.Sublist (rows.map Prod.fst) ∧
      r.1 = flushed ++ taken ∧ r.2 + taken.length = remaining + rows.length := by
  induction rows generalizing flushed remaining with
  | nil => exact ⟨[], List.Sublist.refl _, by simp, rfl⟩
  | cons row rows ih =>
      refine (Prog.rets_true _).bind fun outcome _ => ?_
      cases outcome with
      | ok _ =>
          refine (ih (flushed ++ [row.1]) remaining).mono ?_
          rintro r ⟨taken, hsub, htaken, hcount⟩
          refine ⟨row.1 :: taken, hsub.cons_cons row.1, ?_, ?_⟩
          · rw [htaken, List.append_assoc]
            rfl
          · simp only [List.length_cons]
            omega
      | error _ =>
          refine (ih flushed (remaining + 1)).mono ?_
          rintro r ⟨taken, hsub, htaken, hcount⟩
          refine ⟨taken, hsub.cons row.1, htaken, ?_⟩
          simp only [List.length_cons]
          omega

theorem exec_setEx_outbox (s : Cluster) (i : Nat) (jti : Uuid) (ttlSecs : Nat) (f : Fate) :
    (exec s i (.write (.setEx jti ttlSecs)) f).2.outbox = s.outbox := by
  cases f <;> rfl

/-- The loop changes nothing in the outbox, and keeps count. -/
theorem wp_flushRows_counts {ct : Contract Cluster Op} {i : Nat} {J : Outbox → Prop}
    (hrely : ∀ s s', ct.rely i s s' → J s.outbox → J s'.outbox)
    (hguar : ∀ s jti ttlSecs, ct.guar i s (.write (.setEx jti ttlSecs)))
    (rows : List (Uuid × Nat)) {s : Cluster} (h : J s.outbox) :
    wp machine ct i (flushRows rows [] 0)
      (fun r s' => J s'.outbox ∧ r.1.Sublist (rows.map Prod.fst) ∧
      r.2 + r.1.length = rows.length) s := by
  have hset : ∀ (s : Cluster) (o : Op), (∃ row ∈ rows, o = .write (.setEx row.1 row.2)) →
      ct.guar i s o := by
    rintro s o ⟨row, -, rfl⟩
    exact hguar s row.1 row.2
  have hkeeps := wp_ops (J := fun s => J s.outbox) (m := machine) ct hrely
    (fun s o _ ho => hset s o ho) ?_
    (ops_flushRows rows [] 0) h
  · refine wp_mono ?_
      (wp_and hkeeps (wp_rets hset (ops_flushRows rows [] 0) (rets_flushRows rows [] 0) s))
    rintro ⟨flushed, remaining⟩ s' ⟨hJ, taken, hsub, rfl, hcount⟩
    exact ⟨hJ, hsub, by simpa using hcount⟩
  · rintro s' o f hJ ⟨row, -, rfl⟩
    show J (exec s' i _ f).2.outbox
    rw [exec_setEx_outbox]
    exact hJ

/-! ## A flush that nobody writes beside -/

def Op.Reads : Op → Prop
  | .write _ => False
  | _ => True

/-- Only thread `i` writes. -/
def unwritten (i : Nat) : Contract Cluster Op where
  rely j s s' := j = i → s'.outbox = s.outbox
  guar j _ o := j ≠ i → o.Reads

theorem exec_reads {o : Op} (ho : o.Reads) (s : Cluster) (i : Nat) (f : Fate) :
    (exec s i o f).2.outbox = s.outbox := by
  cases o with
  | write w => exact absurd ho id
  | existsKey jti => cases f <;> rfl
  | selectBatch => cases f <;> rfl
  | pendingLookup inst jti now =>
      simp only [exec]
      split
      · split_ifs <;> rfl
      · rfl
  | call jti ttlSecs => rfl
  | instantNow => rfl
  | pendingInsert inst jti ttlSecs => rfl
  | pendingRetain inst flushed now => rfl
  | pendingPrune inst => rfl

theorem unwritten_sound (i : Nat) : (unwritten i).Sound machine where
  refl _ _ _ := rfl
  trans h h' hi := (h' hi).trans (h hi)
  exec {_ j s _} f ho hne hi := exec_reads (ho fun hj => hne (hi.trans hj.symm)) s j f

section Flush
variable {i : Nat} {s : Cluster}

theorem dropFlushed_leaves (inst : Nat) (flushed : List Uuid) (remaining : Nat) :
    wp machine (unwritten i) i (dropFlushed inst flushed remaining) (fun r s' => ∀ n, r = .ok n →
      n = remaining ∧ s'.outbox.rows = s.outbox.rows.filter fun r =>
        !flushed.contains r.jti) s := by
  unfold dropFlushed
  split_ifs with hempty
  · rintro n hn
    cases hn
    refine ⟨rfl, ?_⟩
    rw [List.isEmpty_iff.mp hempty]
    simp
  · intro s₁ h₁
    refine ⟨fun hi => absurd rfl hi, fun f => ?_⟩
    cases f with
    | done =>
        intro s₂ h₂
        refine ⟨fun _ => trivial, fun _ => ?_⟩
        intro s₃ h₃
        refine ⟨fun _ => trivial, fun _ => ?_⟩
        rintro n hn
        cases hn
        refine ⟨rfl, ?_⟩
        show s₃.outbox.rows = _
        rw [h₃ rfl, ← h₁ rfl]
        exact congrArg Table.rows (h₂ rfl)
    | _ =>
        intro n hn
        cases hn

end Flush

/-- The number `n` that a flush reports between the sweep and its end. -/
structure Reports (s s' : Cluster) (n : Nat) : Prop where
  /-- It is the number of rows of the batch that are still there. -/
  ofBatch : n = (s.batch.filter fun r => r.1 ∈ s'.outbox.rows.map OutboxRow.jti).length
  /-- The rows beyond the batch are there too. -/
  left : s'.outbox.rows.length = n + (s.outbox.rows.length - flushBatchSize)

theorem Reports.congr {s s' s'' : Cluster} {n : Nat} (h : Reports s s' n)
    (ho : s''.outbox = s'.outbox) :
    Reports s s'' n :=
  ⟨by rw [ho]; exact h.ofBatch, by rw [ho]; exact h.left⟩

theorem reports_of_taken {s s' : Cluster} {taken : List Uuid} {n : Nat}
    (hsub : taken.Sublist (s.batch.map Prod.fst))
    (hrows : s'.outbox.rows = s.outbox.rows.filter fun r => !taken.contains r.jti)
    (hcount : n + taken.length = s.batch.length) : Reports s s' n := by
  obtain ⟨rest, hperm⟩ := batch_keys s
  have hnodup : (s.batch.map Prod.fst).Nodup :=
    (List.nodup_append.mp (hperm.nodup_iff.mpr s.outbox.nodup)).1
  have hkeys : s.batch.map Prod.fst ⊆ s.outbox.rows.map OutboxRow.jti := fun k hk =>
    hperm.subset (List.mem_append_left rest hk)
  have htaken := hnodup.sublist hsub
  have hbatch := Table.length_filter_not_taken hnodup htaken hsub.subset
  have hall := Table.length_filter_not_taken s.outbox.nodup htaken
    (fun k hk => hkeys (hsub.subset hk))
  have hlength := length_batch s
  constructor
  · have hstays : ∀ r ∈ s.batch, decide (r.1 ∈ s'.outbox.rows.map OutboxRow.jti) =
        !taken.contains r.1 := by
      intro r hr
      obtain ⟨row, hrow, he⟩ := mem_batch hr
      rw [hrows, ← he, Bool.eq_iff_iff, decide_eq_true_iff]
      constructor
      · intro h
        obtain ⟨row', hrow', hk⟩ := List.mem_map.mp h
        rw [← hk]
        exact (List.mem_filter.mp hrow').2
      · intro h
        exact List.mem_map_of_mem (List.mem_filter.mpr ⟨hrow, h⟩)
    rw [List.filter_congr hstays]
    omega
  · rw [hrows]
    omega

/-- A flush after its sweep. -/
def sweptFlush (inst : Nat) : Method (Except SqlxError Nat) :=
  .op .selectBatch fun
    | none => .ret (.error ⟨⟩)
    | some rows => flushRows rows [] 0 >>= fun (flushed, remaining) =>
      dropFlushed inst flushed remaining

/-- From the sweep on, a flush that nobody writes beside reports what it leaves of its batch. -/
theorem wp_sweptFlush (i inst : Nat) (s : Cluster) :
    wp machine (unwritten i) i (sweptFlush inst)
      (fun r s' => ∀ n, r = .ok n → Reports s s' n) s := by
  intro s₁ h₁
  refine ⟨fun _ => trivial, fun f => ?_⟩
  cases f with
  | done =>
      show wp machine (unwritten i) i (flushRows s₁.batch [] 0 >>= _) _ s₁
      rw [wp_bind, batch_congr (h₁ rfl)]
      have hloop : wp machine (unwritten i) i (flushRows s.batch [] 0) _ s₁ :=
        wp_flushRows_counts (J := fun t => t = s₁.outbox) (fun _ _ h hs => (h rfl).trans hs)
          (fun _ _ _ hi => absurd rfl hi) s.batch rfl
      refine wp_mono ?_ hloop
      rintro r s₂ ⟨h₂, hsub, hcount⟩
      refine wp_mono ?_ (dropFlushed_leaves inst r.1 r.2)
      intro r' s' h' n hn
      obtain ⟨rfl, hrows⟩ := h' n hn
      rw [h₂, h₁ rfl] at hrows
      exact reports_of_taken hsub hrows hcount
  | _ =>
      intro n hn
      cases hn

/-- Calls that do not write. -/
def Task.Reads : Task → Prop
  | .isRevoked _ _ | .pendingCount _ => True
  | .revoke _ _ _ | .flushPending _ => False

theorem reads_ops {t : Task} (h : t.Reads) : t.prog.Ops Op.Reads := by
  cases t with
  | revoke inst jti ttlSecs => exact absurd h id
  | flushPending inst => exact absurd h id
  | pendingCount inst => exact ⟨trivial, fun _ => trivial⟩
  | isRevoked inst jti =>
      refine Prog.Ops.bind ((ops_isRevoked inst jti).mono fun o ho => ?_) fun _ => trivial
      cases o with
      | write w => exact ho.elim
      | _ => trivial

/-- The flush that thread `i` has begun in `s`, after its sweep. -/
theorem wp_begun {tasks : Nat → Task} {i inst : Nat} (htask : tasks i = .flushPending inst)
    (s : Cluster) (f₀ : Fate) :
    wp machine (unwritten i) i ((machine.step (instances tasks s) (.run i f₀)).thread i)
      (fun o s' => ∀ n, o = .flushed (.ok n) → Reports s.swept s' n)
      (machine.step (instances tasks s) (.run i f₀)).shared := by
  have hbegin : (instances tasks s).thread i = (Task.flushPending inst).prog :=
    congrArg Task.prog htask
  rw [step_op machine f₀ hbegin]
  simp only [Function.update_self]
  cases f₀ with
  | done =>
      show wp machine (unwritten i) i
          (sweptFlush inst >>= fun r => .ret (Outcome.flushed r)) _ s.swept
      rw [wp_bind]
      refine wp_mono (fun r s' h n hn => h n ?_) (wp_sweptFlush i inst s.swept)
      cases hn
      rfl
  | _ =>
      intro n hn
      cases hn

/-- A flush beside which nobody writes, and which comes back with `Ok(n)`, leaves `n` rows of its
batch and every row that was not expired and did not fit into the batch. -/
theorem backlog_of_batch (tasks : Nat → Task) (s : Cluster) (i inst n : Nat) (f₀ : Fate)
    (l : List (Label Fate Move)) (htask : tasks i = .flushPending inst)
    (hreads : ∀ j, j ≠ i → (tasks j).Reads) (hlate : ∀ n, .ext (.takeEffect n) ∉ l)
    (hend : (machine.run (instances tasks s) (.run i f₀ :: l)).thread i = .ret (.flushed (.ok n))) :
    Reports s.swept (machine.run (instances tasks s) (.run i f₀ :: l)).shared n := by
  let Q : Nat → Outcome → Cluster → Prop :=
    fun j o s' => j = i → ∀ n, o = .flushed (.ok n) → Reports s.swept s' n
  have hwp : ∀ j, wp machine (unwritten i) j
      ((machine.step (instances tasks s) (.run i f₀)).thread j) (Q j)
      (machine.step (instances tasks s) (.run i f₀)).shared := by
    intro j
    by_cases hj : j = i
    · subst hj
      exact wp_mono (fun _ _ h _ => h) (wp_begun htask s f₀)
    · have hops : ((machine.step (instances tasks s) (.run i f₀)).thread j).Ops Op.Reads :=
        run_thread machine (P := Prog.Ops Op.Reads) (c := instances tasks s) (fun _ _ r h => h.2 r)
          (reads_ops (hreads j hj)) [.run i f₀]
      exact wp_mono (fun _ _ _ h => absurd h hj) (wp_of_ops (fun _ _ h _ => h) hops _)
  have hquiet : machine.Along (fun _ a => ∀ n, a ≠ .ext (.takeEffect n))
      (machine.step (instances tasks s) (.run i f₀)) l := by
    refine along_of_forall machine (fun a ha _ n hn => ?_) _
    rw [hn] at ha
    exact hlate n ha
  refine run_post (Q := Q) (unwritten_sound i) (fun j o s' s'' hrely hQ hj n hn => ?_)
    (fun j c e he _ => ?_)
    hquiet hwp hend rfl n rfl
  · exact (hQ hj n hn).congr (hrely hj)
  · cases e with
    | takeEffect n => exact absurd rfl (he n)
    | tick nanos => rfl
    | restart inst => rfl

/-! ## An outage with more than one batch -/

theorem refused_run {c : Cfg Cluster Op Res Outcome} {i inst : Nat} {rows : List (Uuid × Nat)}
    {remaining : Nat} (hi : c.thread i = restOfFlush inst rows [] remaining)
    (hpos : ∀ r ∈ rows, r.2 ≠ 0) :
    (machine.run c (List.replicate rows.length (.run i .failed))).thread i =
      .ret (.flushed (.ok (remaining + rows.length))) ∧
    (machine.run c (List.replicate rows.length (.run i .failed))).shared = c.shared := by
  induction rows generalizing c remaining with
  | nil => exact ⟨hi, rfl⟩
  | cons row rows ih =>
      rw [restOfFlush_cons, innerRevoke, if_neg (hpos row List.mem_cons_self)] at hi
      rw [List.length_cons, List.replicate_succ, run_cons, step_op machine .failed hi]
      have hnext : remaining + (rows.length + 1) = remaining + 1 + rows.length := by omega
      rw [hnext]
      refine ih ?_ fun r hr => hpos r (List.mem_cons_of_mem row hr)
      simp only [Function.update_self]
      rfl

/-- A flush while Redis is down sweeps the outbox and reports its whole batch. -/
theorem refused_flush {tasks : Nat → Task} {s : Cluster} {i inst : Nat}
    (htask : tasks i = .flushPending inst) (hpos : ∀ r ∈ s.swept.outbox.rows, r.ttlSecs ≠ 0) :
    (machine.run (instances tasks s)
      (.run i .done :: .run i .done :: List.replicate s.swept.batch.length
        (.run i .failed))).thread i = .ret (.flushed (.ok s.swept.batch.length)) ∧
    (machine.run (instances tasks s)
      (.run i .done :: .run i .done :: List.replicate s.swept.batch.length
        (.run i .failed))).shared = s.swept := by
  have hbegin : (instances tasks s).thread i = (Task.flushPending inst).prog :=
    congrArg Task.prog htask
  let c₁ : Cfg Cluster Op Res Outcome :=
    ⟨s.swept, Function.update (instances tasks s).thread i
      (sweptFlush inst >>= fun r => .ret (.flushed r))⟩
  have hsweep : machine.step (instances tasks s) (.run i .done) = c₁ := step_op machine .done hbegin
  have hthread : c₁.thread i = sweptFlush inst >>= fun r => .ret (.flushed r) :=
    Function.update_self ..
  let c₂ : Cfg Cluster Op Res Outcome :=
    ⟨s.swept, Function.update c₁.thread i (restOfFlush inst s.swept.batch [] 0)⟩
  have hassoc : ((flushRows s.swept.batch [] 0 >>= fun r => dropFlushed inst r.1 r.2) >>= fun r =>
      .ret (.flushed r)) =
      restOfFlush inst s.swept.batch [] 0 := Prog.bind_assoc ..
  have hselect : machine.step c₁ (.run i .done) = c₂ :=
    (step_op machine .done hthread).trans
      (congrArg (fun p => Cfg.mk s.swept (Function.update c₁.thread i p)) hassoc)
  rw [run_cons, hsweep, run_cons, hselect]
  have hrows : ∀ r ∈ s.swept.batch, r.2 ≠ 0 := by
    intro r hr
    obtain ⟨row, hrow, rfl⟩ := mem_batch hr
    exact hpos row hrow
  have hrun := refused_run (c := c₂) (i := i) (Function.update_self ..) hrows
  rwa [Nat.zero_add] at hrun

theorem nodup_tokens {n : Nat} (hn : n ≤ 2 ^ 128) :
    ((List.range n).map (BitVec.ofNat 128)).Nodup := by
  refine List.Nodup.map_on (fun j hj j' hj' h => ?_) List.nodup_range
  have h := congrArg BitVec.toNat h
  simp only [BitVec.toNat_ofNat] at h
  rw [List.mem_range] at hj hj'
  rwa [Nat.mod_eq_of_lt (by omega), Nat.mod_eq_of_lt (by omega)] at h

/-- Revocations of `n` tokens for a quarter of an hour that never reached Redis. -/
def crowded (n : Nat) (hn : n ≤ 2 ^ 128) : Cluster :=
  { plainCluster with outbox :=
      ⟨(List.range n).map fun jti => ⟨.ofNat 128 jti, 900, 0, ofSecs 900⟩, by
      rw [List.map_map]
      exact nodup_tokens hn⟩ }

theorem swept_crowded (n : Nat) (hn : n ≤ 2 ^ 128) :
    (crowded n hn).swept.outbox.rows = (List.range n).map fun jti =>
      ⟨.ofNat 128 jti, 900, 0, ofSecs 900⟩ := by
  refine List.filter_eq_self.mpr fun r hr => ?_
  obtain ⟨jti, -, rfl⟩ := List.mem_map.mp hr
  rfl

/-- Instance 0 flushes, and every other call checks a token. -/
def flushBesideChecks : Nat → Task
  | 0 => .flushPending 0
  | j => .isRevoked 0 j

/-- Of two rows Redis takes the second. -/
theorem backlog_of_batch_crowded :
    Reports (crowded 2 (by decide)).swept
      (machine.run (instances flushBesideChecks (crowded 2 (by decide)))
      [.run 0 .done, .run 0 .done, .run 0 .failed, .run 0 .done, .run 0 .done, .run 0 .done,
        .run 0 .done]).shared 1 := by
  refine backlog_of_batch flushBesideChecks (crowded 2 (by decide)) 0 0 1 .done _ rfl
    (fun j hj => ?_) (by simp) rfl
  obtain ⟨k, rfl⟩ := Nat.exists_eq_succ_of_ne_zero hj
  trivial

/-- Of 501 rows that Redis does not take, 500 are reported. -/
theorem crowded_undercounted :
    (machine.run (instances flushBesideChecks (crowded 501 (by decide)))
      (.run 0 .done :: .run 0 .done :: List.replicate 500 (.run 0 .failed))).thread 0 =
        .ret (.flushed (.ok 500)) ∧
    (machine.run (instances flushBesideChecks (crowded 501 (by decide)))
      (.run 0 .done :: .run 0 .done :: List.replicate 500
        (.run 0 .failed))).shared.outbox.rows.length = 501 := by
  generalize hs : crowded 501 (by decide) = s
  have hrows : s.swept.outbox.rows.length = 501 := by
    rw [← hs, swept_crowded, List.length_map, List.length_range]
  have hlength : s.swept.batch.length = 500 := by
    rw [length_batch, hrows]
    rfl
  have hpos : ∀ r ∈ s.swept.outbox.rows, r.ttlSecs ≠ 0 := by
    intro r hr
    rw [← hs, swept_crowded] at hr
    obtain ⟨jti, -, rfl⟩ := List.mem_map.mp hr
    show 900 ≠ 0
    decide
  obtain ⟨hend, hleft⟩ := refused_flush (show flushBesideChecks 0 = .flushPending 0 from rfl) hpos
  rw [hlength] at hend hleft
  exact ⟨hend, by rw [hleft, hrows]⟩

end AppHome.Durable
