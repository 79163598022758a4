import AppHome.Service.Access

/-!
# The service refines the handlers of `auth`

The results about `handlers` leave out the limiters, the extractor, the revocation list and the
other parts, and give all requests one event bus. `service_refines_handlers` says that nothing is
lost: every run of the service, with any number of processes, does to the users, the sessions and
the events what some run of `handlers` does, with the answers of the limiters as its argument.

* `HttpRequest.call?` : the request as `handlers` has it. A logout is one of the user its token
  names;
* `World.Same` : the tables and histories are the same, the buses and the audit trail need not be;
* `job_becomes` : every job is one of the two handlers of its call, or leaves `auth` alone.
-/

namespace AppHome

open Interleave

/-! ## What an answer depends on -/

/-- The tables of `auth` and the histories of saves and events agree. -/
structure World.Same (w w' : World) : Prop where
  db : w.db = w'.db
  commits : w.commits = w'.commits
  published : w.published = w'.published

theorem Fate.leave_same (f : Fate) {w w' : World} {new new' : Option World} (h : w.Same w')
    (hnew : Option.Rel World.Same new new') : (f.leave w new).Same (f.leave w' new') := by
  cases hnew with
  | none => cases f <;> exact h
  | some hnew =>
      cases f with
      | failed e => exact h
      | _ => exact hnew

theorem World.Same.exec {w w' : World} (h : w.Same w') (i : Nat) (o : Op) (f : Fate) :
    (w.exec i o f).1 = (w'.exec i o f).1 ∧ (w.exec i o f).2.Same (w'.exec i o f).2 := by
  obtain ⟨hdb, hcommits, hpublished⟩ := h
  cases o with
  | findAggregateById id => exact ⟨by simp only [World.exec, hdb], hdb, hcommits, hpublished⟩
  | findAggregateByUsername username =>
    exact ⟨by simp only [World.exec, hdb], hdb, hcommits, hpublished⟩
  | findAggregateByEmail email => exact ⟨by simp only [World.exec, hdb], hdb, hcommits, hpublished⟩
  | publish e => exact ⟨rfl, hdb, hcommits, by simp only [World.exec, hpublished]⟩
  | create u id now =>
      simp only [World.exec, hdb]
      refine ⟨trivial, Fate.leave_same f ⟨hdb, hcommits, hpublished⟩ ?_⟩
      cases w'.db.create u id now with
      | error e => exact .none
      | ok p => exact .some ⟨rfl, hcommits, hpublished⟩
  | saveAggregate a news now =>
      simp only [World.exec, hdb]
      refine ⟨trivial, Fate.leave_same f ⟨hdb, hcommits, hpublished⟩ ?_⟩
      cases w'.db.saveAggregate a news now with
      | error e => exact .none
      | ok db => exact .some ⟨rfl, by simp only [hcommits], hpublished⟩

end AppHome

namespace AppHome.Service

open Interleave

/-- The part of the state that `handlers` works on. -/
def Agrees (s : State) (w : World) : Prop := (s.world 0).Same w

theorem Agrees.world {s : State} {w : World} (h : Agrees s w) (inst : Nat) :
    (s.world inst).Same w :=
  ⟨h.db, h.commits, h.published⟩

theorem agrees_auth (d : Deployment) {s : State} {w : World} (h : Agrees s w) (i : Nat)
    (o : AppHome.Op) (f : Fate) :
    (exec d s i (.auth o) f).1 = (w.exec i o f.auth).1 ∧
    Agrees (exec d s i (.auth o) f).2 (w.exec i o f.auth).2 := by
  obtain ⟨hanswer, hsame⟩ := (h.world (d.inst i)).exec i o f.auth
  exact ⟨hanswer, hsame.db, hsame.commits, hsame.published⟩

theorem agrees_outside (d : Deployment) {s : State} {w : World} (h : Agrees s w) (i : Nat) {o : Op}
    (ho : Outside Op.auth o) (f : Fate) : Agrees (exec d s i o f).2 w := by
  cases o with
  | auth o => exact absurd rfl (ho o)
  | limiter which o => exact h
  | revocation o => exact h
  | admin o => exact h
  | profile o => exact h
  | utcNow => exact h

theorem agrees_move (d : Deployment) {s : State} {w : World} (h : Agrees s w) (e : Move) :
    Agrees (move d s e) w := by
  cases e with
  | tick nanos => exact h
  | limiterLate which n => exact h
  | revocationLate n => exact h
  | restart inst => exact ⟨h.db, h.commits, h.published⟩
  | consume inst c =>
      have hdb := (s.world inst).consume_db c
      have hcommits := (s.world inst).consume_commits c
      have hpublished : ((s.world inst).consume c).published = s.published := by
        unfold World.consume
        split <;> rfl
      exact ⟨hdb.trans h.db, hcommits.trans h.commits, hpublished.trans h.published⟩

/-! ## The requests as `handlers` has them -/

def HttpRequest.call? (app : App) (r : HttpRequest) : Option Call :=
  match r.endpoint with
  | .loginPassword username password => some ⟨r.env, .loginWithPassword username password⟩
  | .loginGoogle idToken => some ⟨r.env, .loginWithGoogle idToken⟩
  | .refresh token => some ⟨r.env, .refreshToken token⟩
  | .logout sessionId =>
    ((bearerToken r.headers).bind app.verification.claims).map fun claims =>
      ⟨r.env, .logout claims.sub sessionId⟩
  | _ => none

def Job.call? (app : App) : Job → Option Call
  | .request r => r.call? app
  | .sweep => none

/-- The answer of an endpoint of `auth`. -/
def Answers (a : Outcome) (r : HttpResponse) : Prop := a = .auth r

abbrev BecomesAuth (C : Set Handler) (p : Program Outcome) : Prop :=
  Becomes Op.auth (fun _ r => r) Answers C p

abbrev ErasesAuth (p : Program Outcome) (q : Handler) : Prop :=
  Erases Op.auth (fun _ r => r) Answers p q

theorem erases_ret (r : HttpResponse) : ErasesAuth (.ret (.auth r)) (.ret r) := .ret rfl

section Parts
variable {α : Type}

theorem outside_limiter (which : Limiter) (o : RateLimit.Op) : Outside Op.auth (.limiter which o) :=
  fun _ h => by cases h

theorem outside_revocation (o : Durable.Op) : Outside Op.auth (.revocation o) :=
  fun _ h => by cases h

theorem outside_admin (o : Admin.ListOp) : Outside Op.auth (.admin o) := fun _ h => by cases h

theorem outside_profile (o : Profiles.Op) : Outside Op.auth (.profile o) := fun _ h => by cases h

theorem outside_utcNow : Outside Op.auth .utcNow := fun _ h => by cases h

theorem becomes_silent {C : Set Handler} {p : Program α} {f : α → Outcome}
    (hp : p.Ops (Outside Op.auth)) (hf : ∀ a r, f a ≠ .auth r) :
    BecomesAuth C (p >>= fun a => .ret (f a)) :=
  .silent (hp.bind fun _ => trivial) (p.rets_true.bind fun a _ => hf a)

theorem becomes_authenticated {C : Set Handler} {v : JwtVerification} {inst : Nat}
    {headers : HeaderMap} {handler : AuthenticatedUser → Program Outcome}
    (h : ∀ token claims, bearerToken headers = some token → v.claims token = some claims →
      BecomesAuth C (handler claims.user)) :
    BecomesAuth C (authenticated v inst headers handler) := by
  have hreject : BecomesAuth C (.ret .unauthorized) := .silent trivial fun r hr => by cases hr
  unfold authenticated fromRequestParts
  cases hheader : bearerToken headers with
  | none => exact hreject
  | some token =>
      refine .skip outside_utcNow fun now => ?_
      beta_reduce
      cases hdecode : v.decode token now with
      | none => exact hreject
      | some claims =>
          have hclaims : v.claims token = some claims := (Option.filter_eq_some_iff.mp hdecode).1
          have hhandler := h token claims hheader hclaims
          show BecomesAuth C ((ofRevocation (Durable.isRevoked inst claims.jti) >>= fun revoked =>
            Prog.ret (admitted claims revoked)) >>= _)
          rw [Prog.bind_assoc]
          refine .bind_outside (ops_ofRevocation outside_revocation _) fun revoked => ?_
          rcases revoked with e | b
          · exact hhandler
          · cases b
            · exact hhandler
            · exact hreject

/-- An endpoint with a limiter is its handler, with what the limiter answers. -/
theorem becomes_limited {C : Set Handler} {which : Limiter} {inst : Nat} {ip : IpAddr}
    {tooMany : String} {useCase : UseCase α} {events : α → List Event} {ok : α → HttpResponse}
    {err : AuthError → HttpResponse} (hrefused : .ret (errorResponse 429 tooMany) ∈ C)
    (hadmitted : runAndPublish useCase events ok err ∈ C) :
    BecomesAuth C (limited which inst ip tooMany useCase events ok err) := by
  refine .bind_outside (ops_ofLimiter (outside_limiter which) _) fun allowed => ?_
  cases allowed with
  | false => exact .erases hrefused (erases_ret _)
  | true =>
      refine .erases hadmitted ?_
      show ErasesAuth (ofAuth useCase.run >>= _) (useCase.run >>= _)
      refine .bind_widen fun result => ?_
      rcases result with e | a
      · exact erases_ret _
      · refine .bind_outside (ops_ofLimiter (outside_limiter which) _) fun _ => ?_
        exact .bind_widen fun _ => erases_ret _

end Parts

theorem erases_logoutUser (inst : Nat) (env : Env) (user : AuthenticatedUser) (sessionId : Uuid) :
    ErasesAuth (logoutUser inst env user sessionId) (logoutHandler env user.userId sessionId) := by
  refine .bind_widen fun result => ?_
  rcases result with e | events
  · cases e <;> exact erases_ret _
  · refine .bind_widen fun _ => ?_
    refine .skip outside_utcNow fun now => ?_
    refine .skip (outside_revocation _) fun _ => ?_
    exact .bind_outside (ops_ofRevocation outside_revocation _) fun _ => erases_ret _

/-- **Every job is one of the two handlers of its call**, or leaves `auth` alone. -/
theorem job_becomes (app : App) (inst : Nat) (job : Job) {C : Set Handler}
    (hC : ∀ c, job.call? app = some c → ∀ allowed, c.handle app.state allowed ∈ C) :
    BecomesAuth C (job.prog app inst) := by
  cases job with
  | sweep => exact becomes_silent (ops_ofRevocation outside_revocation _) fun _ _ h => by cases h
  | request r =>
      have hC : ∀ c, r.call? app = some c → ∀ allowed, c.handle app.state allowed ∈ C := hC
      unfold HttpRequest.call? at hC
      simp only [Job.prog]
      unfold HttpRequest.serve
      split
      · next username password hr =>
          rw [hr] at hC
          have hhandle := hC _ rfl
          simp only [Call.handle, loginPasswordHandler] at hhandle
          unfold loginPassword
          split_ifs at hhandle ⊢
          · exact .erases (hhandle true) (erases_ret _)
          · exact becomes_limited (hhandle false) (hhandle true)
      · next idToken hr =>
          rw [hr] at hC
          have hhandle := hC _ rfl
          simp only [Call.handle, loginGoogleHandler] at hhandle
          unfold loginGoogle
          split_ifs at hhandle ⊢
          · exact .erases (hhandle true) (erases_ret _)
          · exact becomes_limited (hhandle false) (hhandle true)
      · next token hr =>
          rw [hr] at hC
          have hhandle := hC _ rfl
          simp only [Call.handle, refreshTokenHandler] at hhandle
          unfold refresh
          split_ifs at hhandle ⊢
          · exact .erases (hhandle true) (erases_ret _)
          · exact becomes_limited (hhandle false) (hhandle true)
      · next sessionId hr =>
          rw [hr] at hC
          refine becomes_authenticated fun token claims hheader hclaims => ?_
          have hhandle := hC ⟨r.env, .logout claims.sub sessionId⟩ (by simp [hheader, hclaims]) true
          exact .erases hhandle (erases_logoutUser inst r.env claims.user sessionId)
      all_goals
        refine becomes_authenticated fun _ claims _ _ => ?_
        first
        | exact becomes_silent (ops_ofProfile outside_profile _) fun _ _ h => by cases h
        | exact becomes_silent (ops_ofAdmin outside_admin _) fun _ _ h => by cases h

theorem ops_of_call_none (app : App) (inst : Nat) {job : Job} (h : job.call? app = none) :
    (job.prog app inst).Ops (Outside Op.auth) := by
  cases job with
  | sweep => exact (ops_ofRevocation outside_revocation _).bind fun _ => trivial
  | request r =>
      have hbehind : ∀ {handler : AuthenticatedUser → Program Outcome},
          (∀ claims, subject app.verification r.headers = some claims →
            (handler claims.user).Ops (Outside Op.auth)) →
          (authenticated app.verification inst r.headers handler).Ops (Outside Op.auth) :=
        fun hhandler => ops_authenticated outside_utcNow outside_revocation hhandler
      simp only [Job.call?, HttpRequest.call?] at h
      simp only [Job.prog]
      unfold HttpRequest.serve
      cases hr : r.endpoint with
      | logout sessionId =>
          refine hbehind fun claims hclaims => ?_
          rw [hr] at h
          cases (Option.map_eq_none_iff.mp h).symm.trans hclaims
      | getProfile =>
        exact hbehind fun _ _ => (ops_ofProfile outside_profile _).bind fun _ => trivial
      | updateProfile avatarUrl bio =>
        exact hbehind fun _ _ => (ops_ofProfile outside_profile _).bind fun _ => trivial
      | listUsers query =>
        exact hbehind fun _ _ => (ops_ofAdmin outside_admin _).bind fun _ => trivial
      | getUser userId =>
        exact hbehind fun _ _ => (ops_ofAdmin outside_admin _).bind fun _ => trivial
      | updateUserRole userId role =>
        exact hbehind fun _ _ => (ops_ofAdmin outside_admin _).bind fun _ => trivial
      | _ =>
          rw [hr] at h
          cases h

/-- A request that has got to `auth` is not turned away by the extractor. -/
theorem behind_auth (app : App) (inst : Nat) (job : Job) :
    (job.prog app inst).Behind (fun o => ¬ Outside Op.auth o) (· ≠ .unauthorized) := by
  cases job with
  | sweep => exact ((Prog.rets_true _).bind fun r _ => by simp [Prog.Rets]).behind
  | request r =>
      simp only [Job.prog]
      cases hlimiter : r.endpoint.limiter? with
      | some which =>
          refine serve_limited hlimiter (fun text => trivial)
            fun tooMany useCase events ok err _ _ => ?_
          refine Prog.Rets.behind ((Prog.rets_true _).bind fun allowed _ => ?_)
          cases allowed with
          | false => simp [Prog.Rets]
          | true =>
              refine (Prog.rets_true _).bind fun answer _ => ?_
              rcases answer with e | a
              · simp [Prog.Rets]
              · exact (Prog.rets_true _).bind fun _ _ => (Prog.rets_true _).bind fun _ _ => by
                  simp [Prog.Rets]
      | none =>
          obtain ⟨handler, hserve, hrets⟩ := serve_protected app hlimiter inst
          have hextract : (fromRequestParts app.verification inst r.headers).Ops fun o =>
              ¬ ¬ Outside Op.auth o :=
            (ops_fromRequestParts _ _ _).mono fun o ho h =>
              h (ho.elim outside_utcNow outside_revocation)
          rw [hserve]
          refine Prog.Behind.bind hextract fun answer => ?_
          rcases answer with e | user
          · trivial
          · exact (hrets user).behind

/-- **The service refines the handlers of `auth`.** In every run, at every moment, the users, the
sessions, the saves and the events are those of a run of `handlers`, and so is every answer of an
endpoint of `auth`. Only calls of requests that the extractor has not turned away take
part in it. -/
theorem service_refines_handlers (d : Deployment) (app : App) (jobs : Nat → Job) (s : State)
    (l : List (Label Fate Move)) :
    ∃ calls allowed, (∀ i c, (jobs i).call? app = some c → calls i = c) ∧ ∀ l₁, l₁ <+: l →
      ∃ l', Agrees ((machine d).run (service d app jobs s) l₁).shared
          (AppHome.machine.run (handlers app.state calls allowed (s.world 0)) l').shared ∧
        (∀ i r, ((machine d).run (service d app jobs s) l₁).thread i = .ret (.auth r) →
          (AppHome.machine.run (handlers app.state calls allowed (s.world 0)) l').thread i =
            .ret r) ∧
        ∀ a ∈ l', ∃ i f, a = .run i f ∧ (jobs i).call? app = some (calls i) ∧
          ((machine d).run (service d app jobs s) l₁).thread i ≠ .ret .unauthorized := by
  let C : Nat → Set Handler := fun i =>
    {q | ∃ c allowed, (∀ c', (jobs i).call? app = some c' → c = c') ∧
      q = c.handle app.state allowed}
  have hne : ∀ i, (C i).Nonempty := by
    intro i
    cases hc : (jobs i).call? app with
    | none =>
      exact ⟨_, ⟨plainEnv 0 0, .logout 0 0⟩, true, fun c' h =>
        absurd (hc.symm.trans h) (by simp), rfl⟩
    | some c => exact ⟨_, c, true, fun c' h => Option.some.inj (hc.symm.trans h), rfl⟩
  have hC : ∀ i, BecomesAuth (C i) ((service d app jobs s).thread i) := fun i =>
    job_becomes app (d.inst i) (jobs i) fun c hc allowed =>
      ⟨c, allowed, fun c' h => Option.some.inj (hc.symm.trans h), rfl⟩
  have hkeep : ∀ (t : State) (w : World) (i : Nat) (o : AppHome.Op) (f : Fate), Agrees t w →
      ∃ f', ((machine d).exec t i (.auth o) f).1 = (AppHome.machine.exec w i o f').1 ∧
        Agrees ((machine d).exec t i (.auth o) f).2 (AppHome.machine.exec w i o f').2 :=
    fun t w i o f h => ⟨f.auth, agrees_auth d h i o f⟩
  obtain ⟨q, hq, -, hrun⟩ := run_becomes (machine d) AppHome.machine Agrees
    (fun o o' h => Op.auth.inj h) hkeep (fun t w i o f h ho => agrees_outside d h i ho f)
    (fun t w e h => agrees_move d h e) hne (c := service d app jobs s) (t := s.world 0)
    ⟨rfl, rfl, rfl⟩ hC l
  choose calls allowed hcalls hhandle using hq
  refine ⟨calls, allowed, hcalls, fun l₁ hl₁ => ?_⟩
  obtain ⟨l', hagrees, hsettled, hmoves⟩ := hrun l₁ hl₁
  have hfrom : (⟨s.world 0, q⟩ : Cfg World AppHome.Op AppHome.Res HttpResponse) =
      handlers app.state calls allowed (s.world 0) := by
    rw [handlers, ← funext hhandle]
  rw [hfrom] at hagrees hsettled
  refine ⟨l', hagrees, fun i r hi => ?_, fun a ha => ?_⟩
  · obtain ⟨r', hr', hanswers⟩ := hsettled i _ r hi rfl
    rw [hr', Outcome.auth.inj hanswers]
  · obtain ⟨i, f, rfl, l₂, f₀, l₃, o, k, rfl, hi⟩ := hmoves a ha
    refine ⟨i, f, rfl, ?_, fun hend => ?_⟩
    · cases hcall : (jobs i).call? app with
      | none => exact absurd rfl (run_ops (machine d) (ops_of_call_none app (d.inst i) hcall) hi o)
      | some c => rw [hcalls i c hcall]
    · have hinside : ¬ Outside Op.auth (.auth o) := fun h => h o rfl
      exact run_behind (machine d) (behind_auth app (d.inst i) (jobs i)) hi hinside hend rfl

end AppHome.Service
