import AppHome.Service.Revocations

/-!
# A logged-out token stays out

* `Stores` : the last step of a revocation that is stored;
* `shielded_of_stores`, `protected_of_stores` : from then on Redis or the pending set of the process
  has the token, and Redis or the outbox;
* `logged_out_rejected` : so a request that begins later and presents the token is rejected, by the
  process of the logout at once, and by every process as soon as no row of the outbox waits for a
  sweep.
-/

namespace AppHome.Service

open Interleave
open Durable (Cluster)

/-- The last step of a revocation that is stored: Redis acknowledges the key, or the pending set of
the process takes the token, whose row is in the outbox by then. A sweep that delivers the token
stores it as well. -/
inductive Stores (inst : Nat) (jti : Uuid) : (o : Op) → Res o → Prop
  | acknowledged (ttlSecs : Nat) : Stores inst jti (.revocation (.write (.setEx jti ttlSecs))) true
  | journaled (ttlSecs : Nat) : Stores inst jti (.revocation (.pendingInsert inst jti ttlSecs)) ()

/-! ## The row comes before the pending entry -/

def InsertsPending (jti : Uuid) (o : Op) : Prop :=
  ∃ inst ttlSecs, o = .revocation (.pendingInsert inst jti ttlSecs)

def JournalOpens (jti : Uuid) : (o : Op) → Res o → Prop
  | .revocation (.write (.journal jti' _)), done => jti' = jti ∧ done = true
  | _, _ => False

theorem until_revoke (inst : Nat) (jti jti' : Uuid) (ttlSecs : Nat) :
    (ofRevocation (Durable.revoke inst jti' ttlSecs)).Until (InsertsPending jti) (JournalOpens jti)
      fun _ => True := by
  unfold Durable.revoke Durable.innerRevoke
  split_ifs
  · trivial
  · refine ⟨(by rintro ⟨_, _, h⟩; cases h), fun stored _ => ?_⟩
    cases stored with
    | true => trivial
    | false =>
        refine ⟨(by rintro ⟨_, _, h⟩; cases h), fun journaled hjournaled => ?_⟩
        cases journaled with
        | false => trivial
        | true =>
            refine ⟨?_, fun _ _ => trivial⟩
            rintro ⟨_, _, h⟩
            cases h
            exact hjournaled ⟨rfl, rfl⟩

theorem until_pendingInsert (app : App) (jti : Uuid) (inst : Nat) (job : Job) :
    (job.prog app inst).Until (InsertsPending jti) (JournalOpens jti) fun _ => True := by
  have hquiet : ∀ {α : Type} {p : Program α}, p.Ops (fun o => ¬ InsertsPending jti o) →
      p.Until (InsertsPending jti) (JournalOpens jti) fun _ => True :=
        fun h => .of_ops h (Prog.rets_true _)
  have hextracts : ∀ o : Op, o.Extracts → ¬ InsertsPending jti o := by
    rintro o ho ⟨inst, ttlSecs, rfl⟩
    exact ho
  cases job with
  | sweep =>
      refine hquiet
        (Prog.Ops.bind (Prog.ops_widen ((Durable.ops_flushPending inst).mono ?_)) fun _ => trivial)
      rintro o ho ⟨inst, ttlSecs, h⟩
      cases h
      exact ho
  | request r =>
      simp only [Job.prog]
      rcases serve_cases app inst r with hlimited | ⟨sessionId, -, hserve⟩ | ⟨handler, hserve, hops⟩
      · refine hquiet (ops_serve_limited ?_ ?_ app inst hlimited)
        · rintro _ ⟨_, _, h⟩
          cases h
        · rintro _ _ ⟨_, _, h⟩
          cases h
      · rw [hserve]
        refine until_behind hextracts trivial fun claims _ => ?_
        have hauth : ∀ {α : Type} (p : Prog AppHome.Op AppHome.Res α),
            (ofAuth p).Until (InsertsPending jti) (JournalOpens jti) fun _ => True :=
          fun p => hquiet (ops_ofAuth (by rintro _ ⟨_, _, h⟩; cases h) p)
        refine ((hauth _).mono fun answer _ => ?_).bind
        rcases answer with e | events
        · cases e <;> trivial
        · refine ((hauth _).mono fun _ _ => ?_).bind
          refine ⟨(by rintro ⟨_, _, h⟩; cases h), fun now _ =>
            ⟨(by rintro ⟨_, _, h⟩; cases h), fun _ _ => ?_⟩⟩
          exact ((until_revoke inst jti _ _).mono fun _ _ => trivial).bind
      · rw [hserve]
        refine until_behind hextracts trivial fun claims _ => hquiet ((hops claims.user).mono ?_)
        rintro o ho ⟨inst, ttlSecs, rfl⟩
        exact ho

/-! ## The check asks Redis last -/

theorem until_existsKey {v : JwtVerification} {inst : Nat} {headers : HeaderMap}
    {claims : AccessClaims} (hclaims : subject v headers = some claims)
    {handler : AuthenticatedUser → Program Outcome} :
    (authenticated v inst headers handler).Until (fun o => o = .revocation (.existsKey claims.jti))
      (PendingOpens inst claims.jti) fun _ => True := by
  unfold authenticated fromRequestParts
  cases hheader : bearerToken headers with
  | none => trivial
  | some token =>
      refine ⟨fun h => (by cases h), fun now _ => ?_⟩
      beta_reduce
      cases hdecode : v.decode token now with
      | none => trivial
      | some claims' =>
          cases hclaims.symm.trans (subject_of_decode hheader hdecode)
          refine ⟨fun h => (by cases h), fun t _ =>
            ⟨fun h => (by cases h), fun pending hpending => ?_⟩⟩
          cases pending with
          | true => trivial
          | false => exact absurd ⟨rfl, rfl, rfl⟩ hpending

/-! ## What a stored revocation leaves -/

section Stored
variable {d : Deployment} {app : App} {jobs : Nat → Job} {s : State} {D : Instant} {jti : Uuid}
  (hs : s.revocations.Fresh jti) (ht : ∀ l, (after d app jobs s l).revocations.Timely D jti)
  {l : List (Label Fate Move)} {i : Nat} {f : Fate} {o : Op} {k : Res o → Program Outcome}
  (hi : ((machine d).run (service d app jobs s) l).thread i = .op o k)

include hi in
theorem after_step :
    after d app jobs s (l ++ [.run i f]) = (exec d (after d app jobs s l) i o f).2 := by
  rw [after, run_append, run_cons, run_nil, step_op (machine d) f hi]
  rfl

include hs ht hi

theorem inRedis_of_setEx {ttlSecs : Nat} (ho : o = .revocation (.write (.setEx jti ttlSecs)))
    (hdone : (Durable.exec (after d app jobs s l).revocations i (.write (.setEx jti ttlSecs))
      f.revocation).1 = true) :
    (after d app jobs s (l ++ [.run i f])).revocations.InRedis D jti := by
  have hreach : (after d app jobs s l).revocations.Reaches D jti jti ttlSecs :=
    ((fit_next hs hi) _ ho (ht l)).2
  have hperform := Durable.performed_of_done hdone
  rw [after_step hi]
  subst ho
  refine Or.inr ⟨(after d app jobs s l).revocations.now + ofSecs ttlSecs, ?_, hreach rfl⟩
  show (Durable.exec (after d app jobs s l).revocations i
      (.write (.setEx jti ttlSecs)) f.revocation).2.redis.find? jti = _
  rw [← Option.some.inj hperform, Redis.find?_setEx, if_pos rfl]

/-- Redis or the pending set of the process has the token. -/
theorem shielded_of_stores {inst : Nat}
    (hstores : Stores inst jti o (exec d (after d app jobs s l) i o f).1) :
    (after d app jobs s (l ++ [.run i f])).revocations.Shielded D jti inst := by
  generalize hr : (exec d (after d app jobs s l) i o f).1 = r at hstores
  cases hstores with
  | acknowledged ttlSecs => exact Or.inl (inRedis_of_setEx hs ht hi rfl hr)
  | journaled ttlSecs =>
    rw [after_step hi]
    refine Or.inr ⟨⟨(after d app jobs s l).revocations.now, ofSecs ttlSecs⟩, ?_⟩
    show (((after d app jobs s l).revocations.insertPending inst jti
      ttlSecs).pending inst).find? jti = _
    rw [Durable.find?_insertPending, if_pos ⟨rfl, rfl⟩]

omit hs ht in
theorem protected_of_journal (hopen : JournalOpens jti o (exec d (after d app jobs s l) i o f).1) :
    (after d app jobs s (l ++ [.run i f])).revocations.Protected D jti := by
  rw [after_step hi]
  cases o with
  | revocation o =>
      cases o with
      | write w =>
          cases w with
          | journal jti' ttlSecs =>
              obtain ⟨rfl, hdone⟩ := hopen
              have hperform := Durable.performed_of_done hdone
              simp only [Cluster.perform, Option.ite_none_right_eq_some,
                Option.some.injEq] at hperform
              refine Or.inr ?_
              show ∃ r ∈ (Durable.exec (after d app jobs s l).revocations i
                  (.write (.journal jti' ttlSecs))
                f.revocation).2.outbox.rows, r.jti = jti'
              rw [← hperform.2]
              exact (Durable.journal_rows ..).2.2
          | _ => exact hopen.elim
      | _ => exact hopen.elim
  | _ => exact hopen.elim

theorem protected_of_stores {inst : Nat}
    (hstores : Stores inst jti o (exec d (after d app jobs s l) i o f).1) :
    (after d app jobs s (l ++ [.run i f])).revocations.Protected D jti := by
  generalize hr : (exec d (after d app jobs s l) i o f).1 = r at hstores
  cases hstores with
  | acknowledged ttlSecs => exact Or.inl (inRedis_of_setEx hs ht hi rfl hr)
  | journaled ttlSecs =>
    -- the row was written before, and has not left the outbox without a key in Redis
    obtain ⟨l₁, f', l₂, o', k', rfl, hi', hopen⟩ :=
      run_until (machine d) (until_pendingInsert app jti (d.inst i) (jobs i))
        (c := service d app jobs s) (l := l)
        (by rw [hi]; exact ⟨inst, ttlSecs, rfl⟩)
    have hkept := kept_after hs ht (l₂ ++ [.run i f]) Durable.protected_kept (fun _ _ _ h => h)
      (protected_of_journal (D := D) (f := f') hi' hopen)
    simpa only [List.append_assoc, List.singleton_append, List.cons_append,
      List.nil_append] using hkept

end Stored

/-! ## The check of a later request -/

theorem inRedis_kept {D : Instant} {jti : Uuid} : Durable.Kept D jti (Cluster.InRedis D jti) :=
  fun _ _ _ h => h.inRedis

section Later
variable {d : Deployment} {app : App} {jobs : Nat → Job} {s : State} {D : Instant} {jti : Uuid}
  (hs : s.revocations.Fresh jti) (ht : ∀ l, (after d app jobs s l).revocations.Timely D jti)
  {m l : List (Label Fate Move)} {j : Nat} {handler : AuthenticatedUser → Program Outcome}
  {headers : HeaderMap}
  {claims : AccessClaims} (hclaims : subject app.verification headers = some claims)
  (hjti : claims.jti = jti)
  (hbegin : ((machine d).run (service d app jobs s) m).thread j =
    authenticated app.verification (d.inst j) headers handler)
include hs ht hclaims hjti hbegin

omit hclaims hjti hbegin in
theorem shielded_after {inst : Nat} (hrestart : .ext (.restart inst) ∉ l)
    (h : (after d app jobs s m).revocations.Shielded D jti inst) :
    (after d app jobs s (m ++ l)).revocations.Shielded D jti inst := by
  refine kept_after hs ht l (Durable.shielded_kept inst) (fun inst' hinst' c hc => ?_) h
  have hne : inst ≠ inst' := fun heq => hrestart (heq ▸ hinst')
  exact hc.imp_right fun ⟨e, he⟩ => ⟨e, by rw [Durable.find?_retain, if_neg hne, he]⟩

/-- A check on a process that is shielded comes to Redis only when Redis has the token. -/
theorem inRedis_at_check (hS : (after d app jobs s m).revocations.Shielded D jti (d.inst j))
    (hrestart : .ext (.restart (d.inst j)) ∉ l)
    {k : Res (.revocation (.existsKey jti)) → Program Outcome}
    (hcheck : ((machine d).run (service d app jobs s) (m ++ l)).thread j =
      .op (.revocation (.existsKey jti)) k) :
    (after d app jobs s (m ++ l)).revocations.InRedis D jti := by
  rw [run_append] at hcheck
  have huntil : (authenticated app.verification (d.inst j) headers handler).Until _ _ _ :=
    until_existsKey hclaims
  rw [← hbegin] at huntil
  obtain ⟨l₁, f, l₂, o, k', rfl, hj, hopen⟩ := run_until (machine d) huntil (l := l) (by
    rw [hcheck, hjti]
    rfl)
  rw [← run_append] at hj hopen
  cases o with
  | revocation o =>
      cases o with
      | pendingLookup inst jti' t =>
          obtain ⟨rfl, rfl, hfound⟩ := hopen
          subst hjti
          -- the process was shielded when the pending set was asked, and the token was not there
          have hshielded :=
            shielded_after hs ht (fun h => hrestart (List.mem_append_left _ h)) hS (l := l₁)
          have hnow : t ≤ (after d app jobs s (m ++ l₁)).revocations.now :=
            ((fit_next hs hj) _ rfl (ht _)).2
          have hredis :
              (after d app jobs s (m ++ l₁ ++ [.run j f])).revocations.InRedis D claims.jti := by
            rw [after_step hj]
            exact Durable.lookup_false (bounded_after hs ht _) hnow hshielded hfound
          have hkept := kept_after hs ht l₂ inRedis_kept (fun _ _ _ h => h) hredis
          simpa only [List.append_assoc, List.singleton_append] using hkept
      | _ => exact hopen.elim
  | _ => exact hopen.elim

/-- A check that Redis answers rejects the token, where Redis has it when it is asked. -/
theorem unauthorized_of_inRedis (hredis : ∀ f, .run j f ∈ l → f.revocation = .done)
    (hfound : ∀ l₁ l₂ k, l = l₁ ++ l₂ →
      ((machine d).run (service d app jobs s) (m ++ l₁)).thread j = .op
      (.revocation (.existsKey jti)) k → (after d app jobs s (m ++ l₁)).revocations.InRedis D jti)
    (hnow : (after d app jobs s (m ++ l)).revocations.now < D) {a : Outcome}
    (hanswer : ((machine d).run (service d app jobs s) (m ++ l)).thread j = .ret a) :
    a = .unauthorized := by
  by_contra ha
  have huntil : (authenticated app.verification (d.inst j) headers handler).Until
      (fun o => ¬ o.Extracts)
      (RedisOpens jti) (· = .unauthorized) := by
    refine until_authenticated fun token claims' now hheader hdecode =>
      Or.inr (Or.inr fun held hheld => ⟨?_, hheld⟩)
    cases hclaims.symm.trans (subject_of_decode hheader hdecode)
    exact hjti
  rw [← hbegin] at huntil
  rw [run_append] at hanswer
  obtain ⟨l₁, f, l₂, o, k, rfl, hj, hopen⟩ := run_until (machine d) huntil (l := l) (by
    rw [hanswer]
    exact ha)
  rw [← run_append] at hj hopen
  cases o with
  | revocation o =>
      cases o with
      | existsKey jti' =>
          obtain ⟨rfl, hheld⟩ := hopen
          have hin := hfound l₁ _ k rfl hj
          have hbefore : (after d app jobs s (m ++ l₁)).revocations.now < D := by
            refine lt_of_le_of_lt ?_ hnow
            rw [← List.append_assoc]
            exact now_le_after (m ++ l₁) _
          have hdone := hredis f (List.mem_append_right _ List.mem_cons_self)
          refine hheld ?_
          show (Durable.exec (after d app jobs s (m ++ l₁)).revocations j
              (.existsKey jti') f.revocation).1 = some true
          rw [hdone]
          exact congrArg some (hin.holds hbefore)
      | _ => exact hopen.elim
  | _ => exact hopen.elim

end Later

/-- **A logged-out token stays out.** Once its revocation is stored, a request that begins later
with the token is rejected by the extractor until 60 seconds after `exp`, if Redis answers its
check: on the process that stored it unless the process is restarted, and on every process as soon
as the outbox has no row for it. -/
theorem logged_out_rejected (d : Deployment) (app : App) (jobs : Nat → Job) (s : State)
    (jti : Uuid) (exp : Int)
    (hexp : ∀ token claims, app.verification.claims token = some claims → claims.jti = jti →
      exp ≤ claims.exp)
    (hs : s.revocations.Fresh jti) (hcalls : s.revocations.calls = [])
    (l₁ l₂ l₃ : List (Label Fate Move)) (i inst : Nat) (f : Fate) (o : Op)
    (k : Res o → Program Outcome)
    (hi : ((machine d).run (service d app jobs s) l₁).thread i = .op o k)
    (hstores : Stores inst jti o (exec d (after d app jobs s l₁) i o f).1) (j : Nat)
    (r : HttpRequest) (hjob : jobs j = .request r) (hprotected : r.endpoint.limiter? = none)
    (claims : AccessClaims) (hclaims : subject app.verification r.headers = some claims)
    (hjti : claims.jti = jti)
    (hbegin : ((machine d).run (service d app jobs s) (l₁ ++ .run i f :: l₂)).thread j =
      (service d app jobs s).thread j)
    (hreach : (d.inst j = inst ∧ .ext (.restart inst) ∉ l₂ ++ l₃) ∨
      (after d app jobs s (l₁ ++ .run i f :: l₂)).revocations.outbox.find? jti = none)
    (hredis : ∀ f, .run j f ∈ l₃ → f.revocation = .done)
    (hnow : (after d app jobs s (l₁ ++ .run i f :: l₂ ++ l₃)).revocations.now <
      ofSecs (exp + jwtExpLeewaySecs))
    (a : Outcome)
    (hanswer : ((machine d).run (service d app jobs s) (l₁ ++ .run i f :: l₂ ++ l₃)).thread j =
      .ret a) :
    a = .unauthorized := by
  have ht : ∀ l, (after d app jobs s l).revocations.Timely _ jti := timely_after hexp hcalls
  obtain ⟨handler, hserve, -⟩ := serve_protected app hprotected (d.inst j)
  have hbegin' : ((machine d).run (service d app jobs s) (l₁ ++ .run i f :: l₂)).thread j =
      authenticated app.verification (d.inst j) r.headers handler := by
    rw [hbegin, ← hserve]
    simp only [service, hjob, Job.prog]
  refine unauthorized_of_inRedis hs ht hclaims hjti hbegin' hredis
    (fun la lb k hl hcheck => ?_) hnow hanswer
  have happend : l₁ ++ .run i f :: l₂ = l₁ ++ [.run i f] ++ l₂ := by simp
  rcases hreach with ⟨hinst, hrestart⟩ | hempty
  · have hS := shielded_after hs ht (fun h => hrestart (List.mem_append_left _ h))
      (shielded_of_stores hs ht hi hstores)
      (l := l₂)
    rw [← happend, ← hinst] at hS
    refine inRedis_at_check hs ht hclaims hjti hbegin' hS (fun h => hrestart ?_) hcheck
    rw [hl, ← hinst]
    exact List.mem_append_right _ (List.mem_append_left _ h)
  · have hP := kept_after hs ht l₂ Durable.protected_kept (fun _ _ _ h => h)
      (protected_of_stores hs ht hi hstores)
    rw [← happend] at hP
    refine kept_after hs ht la inRedis_kept (fun _ _ _ h => h) (hP.resolve_right ?_)
    rintro ⟨row, hrow, hid⟩
    exact Table.find?_eq_none.mp hempty row hrow hid

/-- The logout up to the pending set, with a Redis that does not take the key. -/
def untilPending : List (Label Fate Move) :=
  List.replicate 9 (.run 0 allDone) ++ [.run 0 { allDone with revocation := .failed },
    .run 0 allDone]

/-- The logout is answered 200, and the next request 401. -/
theorem logged_out_rejected_profile :
    ((machine plainDeployment).run (service plainDeployment plainApp logoutThenProfile plainService)
      (untilPending ++ .run 0 allDone :: [] ++ List.replicate 3 (.run 1 allDone))).thread 0 =
        .ret (.auth ⟨200, .status "logged_out"⟩) ∧
    ∃ a, ((machine plainDeployment).run
      (service plainDeployment plainApp logoutThenProfile plainService)
      (untilPending ++ .run 0 allDone :: [] ++ List.replicate 3 (.run 1 allDone))).thread 1 =
        .ret a ∧ a = .unauthorized := by
  refine ⟨rfl, .unauthorized, rfl, ?_⟩
  refine logged_out_rejected plainDeployment plainApp logoutThenProfile plainService 1 1000 ?_
    ⟨rfl, rfl, fun _ => rfl, rfl⟩
    rfl untilPending [] (List.replicate 3 (.run 1 allDone)) 0 0 allDone
      (.revocation (.pendingInsert 0 1 1060))
    (fun _ => .ret (.auth ⟨200, .status "logged_out"⟩)) rfl (.journaled 1060) 1 _ rfl rfl
      ⟨1, 1, 1000⟩ rfl rfl rfl
    (Or.inl ⟨rfl, ?_⟩) ?_ (by decide) .unauthorized rfl
  · intro token claims htoken _
    obtain ⟨b, -, rfl⟩ := Option.map_eq_some_iff.mp htoken
    exact le_rfl
  · simp
  · intro f hf
    rw [List.mem_replicate] at hf
    cases hf.2
    rfl

end AppHome.Service
