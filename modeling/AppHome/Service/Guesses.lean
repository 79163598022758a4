import AppHome.RateLimit.Outage
import AppHome.Service.Endpoints

/-!
# How often a password can be guessed

`outage_bound` counts calls of the limiter. `guesses_bounded` counts answers of the endpoints:
within a window, requests from an address that has not got a session get at most
`(N + 1) * max_attempts` answers from a use case, however they are spread over `N` processes and
whatever fails. Every such answer was admitted by a counter, and the counters are cleared only after
a success.

* `Job.Attempts` : the requests that a limiter counts for an address;
* `Opened` : what a request knows when it clears the counters;
* `guessContract`, `wp_job` : every job keeps to that, in any interleaving;
* `guarded_step`, `guarded_ext` : then no counter lets more through than its limit.
-/

namespace AppHome.Service

open Interleave RateLimit

/-- The job is a request that `which` counts for `ip`. -/
def Job.Attempts (app : App) (which : Limiter) (ip : IpAddr) : Job → Prop
  | .request r => r.endpoint.limiter? = some which ∧ r.ip app = ip
  | .sweep => False

section Contract
variable (app : App) (jobs : Nat → Job) (which : Limiter) (ip : IpAddr)

/-- Request `i` has opened a session. -/
def Opened (i : Nat) (commits : List Commit) : Prop :=
  ∃ k ∈ commits, k.thread = i ∧ k.newSessions ≠ []

/-- Only attempts count for `ip`, and only those that have opened a session clear its counters. -/
def Keeps (i : Nat) (s : State) (o : RateLimit.Op) : Prop :=
  o.Spares ip ∨ (jobs i).Attempts app which ip ∧
    ((o = .tryScript ip ∨ ∃ k, o = .shadow k (.tryRecord ip)) ∨ Opened i s.commits)

def guessContract : Contract State Op where
  rely _ s s' := s.db.Le s'.db ∧ s.commits <+: s'.commits ∧
    (s.limiters which).grants ⊆ (s'.limiters which).grants
  guar i s o := ∀ o', o = .limiter which o' → Keeps app jobs which ip i s o'

end Contract

/-! ## Grants are not taken back -/

section Steps
variable (d : Deployment) (s : State) (i : Nat)

theorem exec_grants_subset (which : Limiter) (o : Op) (f : Fate) :
    (s.limiters which).grants ⊆ ((exec d s i o f).2.limiters which).grants := by
  by_cases h : ∃ o', o = .limiter which o'
  · obtain ⟨o', rfl⟩ := h
    rw [exec_limiter]
    exact exec_grants _ i o' f.limiter
  · rw [exec_limiters d s i (fun o' ho => h ⟨o', ho⟩) f]
    exact List.Subset.refl _

theorem move_grants_subset (which : Limiter) (e : Move) :
    (s.limiters which).grants ⊆ ((move d s e).limiters which).grants := by
  cases e with
  | limiterLate which' n =>
      simp only [move, State.setLimiter]
      by_cases h : which = which'
      · rw [← h, Function.update_self]
        exact RateLimit.move_grants _ _
      · rw [Function.update_of_ne h]
        exact List.Subset.refl _
  | _ => exact List.Subset.refl _

end Steps

theorem guessContract_sound (d : Deployment) (app : App) (jobs : Nat → Job) (which : Limiter)
    (ip : IpAddr) :
    (guessContract app jobs which ip).Sound (machine d) where
  refl _ _ := ⟨.refl _, List.prefix_refl _, List.Subset.refl _⟩
  trans h h' := ⟨h.1.trans h'.1, h.2.1.trans h'.2.1, List.Subset.trans h.2.2 h'.2.2⟩
  exec {_ j s o} f _ _ :=
    ⟨exec_db_le d s j o f, exec_commits d s j o f, exec_grants_subset d s j which o f⟩

/-! ## What a request does -/

section Requests
variable {app : App} {jobs : Nat → Job} {which : Limiter} {ip : IpAddr} {d : Deployment}
  {instances i : Nat}

/-- An answer of a use case was admitted. -/
def Admitted (app : App) (jobs : Nat → Job) (which : Limiter) (ip : IpAddr) (instances i : Nat)
    (a : Outcome) (s : State) : Prop :=
  (jobs i).Attempts app which ip → ∀ r, a = .auth r → r.status ≠ 422 → r.status ≠ 429 →
    ∃ src ∈ sources instances, (⟨i, ip, src⟩ : RateLimit.Grant) ∈ (s.limiters which).grants

theorem Admitted.mono {a : Outcome} {s s' : State}
    (hs : (s.limiters which).grants ⊆ (s'.limiters which).grants)
    (h : Admitted app jobs which ip instances i a s) :
    Admitted app jobs which ip instances i a s' := by
  intro hattempts r ha h422 h429
  obtain ⟨src, hsrc, hgrant⟩ := h hattempts r ha h422 h429
  exact ⟨src, hsrc, hs hgrant⟩

theorem opens_obligations (st : AppState) (c : Call)
    (hc : ∀ userId sessionId, c.request ≠ .logout userId sessionId) (i : Nat) :
    c.Obligations st freeContract i (fun _ => True)
      fun answer w => ∀ r, answer = .ok r → Opened i w.commits where
  le h := h
  rely _ _ := trivial
  load _ _ := trivial
  create _ _ := trivial
  error e _ r hr := by cases hr
  lost e _ _ _ _ _ _ r hr := by cases hr
  save _ _ _ _ _ := trivial
  commit {w₀ w a p db} _ _ _ hdec _ _ r hr := by
    refine ⟨⟨i, p.aggregate, p.newSessions, true⟩,
      List.mem_append_right _ List.mem_cons_self, rfl, ?_⟩
    cases hdec with
    | opens => exact List.cons_ne_nil _ _
    | rotates => exact List.cons_ne_nil _ _
    | reuses => cases hr
    | closes hlogout => exact absurd hlogout (hc _ _)

theorem wp_admission (hinst : d.inst i < instances) (hattempts : (jobs i).Attempts app which ip)
    (s : State) :
    wp (machine d) (guessContract app jobs which ip) i
      (ofLimiter which (tryCheckAndRecord (d.inst i) ip))
      (fun allowed s => allowed = true → ∃ src ∈ sources instances,
        (⟨i, ip, src⟩ : RateLimit.Grant) ∈ (s.limiters which).grants) s := by
  let tasks : Nat → Task := fun _ => ⟨.tryCheckAndRecord, d.inst i, ip⟩
  have hip : (tasks i).ip = ip := rfl
  have hprog : wp (RateLimit.machine d.server d.limits) (outageContract tasks ip) i
      (tryCheckAndRecord (d.inst i) ip >>= fun b => .ret (RateAnswer.allowed b))
      (Served instances tasks ip i)
      (s.limiters which) := wp_tryCheckAndRecord hip hinst _
  rw [wp_bind] at hprog
  refine wp_mono (fun b s h hb => ?_) (wp_widen (fun s : State => s.limiters which) ?_ ?_ ?_ hprog)
  · exact h rfl (by rw [hb])
  · exact fun s o f => ⟨f.limiter, rfl, exec_limiter d s i which o f⟩
  · exact fun s s' hs => hs.2.2
  · rintro s o ho o' heq
    cases heq
    exact ho.imp id fun h => ⟨hattempts, Or.inl h.2⟩

/-- A part that does not ask the limiter keeps to the contract. -/
theorem wp_free {α : Type} {p : Program α} (hp : p.Ops fun o => ∀ o', o ≠ .limiter which o')
    {J : State → Prop} (hJ : ∀ s s', s.commits <+: s'.commits → J s → J s') {s : State} (hs : J s) :
    wp (machine d) (guessContract app jobs which ip) i p (fun _ => J) s :=
  wp_ops (guessContract app jobs which ip) (fun s s' h => hJ s s' h.2.1)
    (fun _ _ _ ho o' heq => absurd heq (ho o'))
    (fun s o f h _ => hJ s _ (exec_commits d s i o f) h) hp hs

theorem Opened.mono {commits commits' : List Commit} (h : commits <+: commits')
    (ho : Opened i commits) :
    Opened i commits' := by
  obtain ⟨k, hk, hi⟩ := ho
  exact ⟨k, h.subset hk, hi⟩

/-- The counters are cleared only where a session was opened. -/
theorem wp_runAndReset {α : Type} {useCase : UseCase α} {f : α → Response}
    {events : α → List Event} {ok : α → HttpResponse} {err : AuthError → HttpResponse}
    (hattempts : (jobs i).Attempts app which ip)
    (hcase : ∀ w, wp AppHome.machine freeContract i (respond f useCase)
      (fun answer w => ∀ r, answer = .ok r → Opened i w.commits) w)
    (s : State) :
    wp (machine d) (guessContract app jobs which ip) i
      (runAndReset which (d.inst i) ip useCase events ok err)
      (fun _ _ => True) s := by
  unfold runAndReset
  rw [wp_bind]
  have hcase := hcase (s.world (d.inst i))
  rw [respond, wp_bind] at hcase
  refine wp_mono (fun answer s hanswer => ?_)
    (wp_widen (fun s : State => s.world (d.inst i)) ?_ ?_ ?_ hcase)
  · rcases answer with e | a
    · trivial
    · have hopened : Opened i s.commits := hanswer (f a) rfl
      rw [wp_bind]
      refine wp_mono (fun _ s _ => ?_) (wp_ops (guessContract app jobs which ip)
        (J := fun s => Opened i s.commits) (P := fun _ => True)
        (fun s s' h => Opened.mono h.2.1) ?_ ?_ (Prog.ops_true _) hopened)
      · rw [wp_bind]
        refine wp_free (J := fun _ => True) ?_ (fun _ _ _ _ => trivial) trivial
        exact Prog.ops_widen ((Prog.ops_true _).mono fun _ _ _ h => by cases h)
      · exact fun s o hJ _ o' _ => Or.inr ⟨hattempts, Or.inr hJ⟩
      · exact fun s o f hJ _ => hJ.mono (exec_commits d s i o f)
  · exact fun s o f => ⟨f.auth, rfl, State.world_setWorld s (d.inst i) _⟩
  · exact fun s s' hs => ⟨hs.1, hs.2.1⟩
  · exact fun s o _ o' heq => by cases heq

theorem wp_limited {α : Type} {tooMany : String} {useCase : UseCase α} {f : α → Response}
    {events : α → List Event} {ok : α → HttpResponse} {err : AuthError → HttpResponse}
    (hinst : d.inst i < instances) (hattempts : (jobs i).Attempts app which ip)
    (hcase : ∀ w, wp AppHome.machine freeContract i (respond f useCase)
      (fun answer w => ∀ r, answer = .ok r → Opened i w.commits) w)
    (s : State) :
    wp (machine d) (guessContract app jobs which ip) i
      (limited which (d.inst i) ip tooMany useCase events ok err)
      (Admitted app jobs which ip instances i) s := by
  unfold limited
  rw [wp_bind]
  refine wp_mono (fun allowed s hgrant => ?_) (wp_admission hinst hattempts s)
  cases allowed with
  | false =>
      intro _ r hr _ h429
      cases hr
      exact absurd rfl h429
  | true =>
      refine wp_mono (fun a s h _ _ _ _ _ => h.2)
        (wp_frame ?_ ?_ (wp_runAndReset hattempts hcase s) (hgrant rfl))
      · rintro s s' hs ⟨src, hsrc, hg⟩
        exact ⟨src, hsrc, hs.2.2 hg⟩
      · rintro s o f - ⟨src, hsrc, hg⟩
        exact ⟨src, hsrc, exec_grants_subset d s i which o f hg⟩

/-! ## All jobs -/

/-- The operation does not count or forget attempts of `ip` with the limiter. -/
def Spares (which : Limiter) (ip : IpAddr) (o : Op) : Prop :=
  ∀ o', o = .limiter which o' → o'.Spares ip

theorem spares_ofLimiter {α : Type} {which' : Limiter} {p : RateLimit.Program α}
    (h : which' = which → p.Ops (RateLimit.Op.Spares ip)) :
    (ofLimiter which' p).Ops (Spares which ip) := by
  by_cases heq : which' = which
  · subst heq
    refine Prog.ops_widen ((h rfl).mono fun o ho o' h => ?_)
    cases h
    exact ho
  · refine Prog.ops_widen (p.ops_true.mono fun o _ o' h => ?_)
    cases h
    exact absurd rfl heq

theorem spares_of_ne {o : Op} (h : ∀ o', o ≠ .limiter which o') : Spares which ip o :=
  fun o' ho => absurd ho (h o')

theorem spares_auth (o : AppHome.Op) : Spares which ip (.auth o) :=
  spares_of_ne fun _ h => by cases h

theorem spares_revocation (o : Durable.Op) : Spares which ip (.revocation o) :=
  spares_of_ne fun _ h => by cases h

theorem spares_admin (o : Admin.ListOp) : Spares which ip (.admin o) :=
  spares_of_ne fun _ h => by cases h

theorem spares_profile (o : Profiles.Op) : Spares which ip (.profile o) :=
  spares_of_ne fun _ h => by cases h

theorem spares_utcNow : Spares which ip .utcNow := spares_of_ne fun _ h => by cases h

theorem spares_limited {α : Type} {which' : Limiter} {ip' : IpAddr}
    (hne : which' = which → ip' ≠ ip) (inst : Nat) (tooMany : String) (useCase : UseCase α)
    (events : α → List Event) (ok : α → HttpResponse) (err : AuthError → HttpResponse) :
    (limited which' inst ip' tooMany useCase events ok err).Ops (Spares which ip) := by
  have hprog : ∀ method, which' = which →
      (prog ⟨0, 0⟩ inst ip' method).Ops (RateLimit.Op.Spares ip) := fun method h =>
    prog_spares ⟨0, 0⟩ inst (hne h) method
  refine (spares_ofLimiter fun h => (hprog .tryCheckAndRecord h).of_bind).bind fun allowed => ?_
  cases allowed with
  | false => trivial
  | true =>
      refine (ops_ofAuth spares_auth _).bind fun answer => ?_
      rcases answer with e | a
      · trivial
      · refine (spares_ofLimiter fun h => (hprog .reset h).of_bind).bind fun _ => ?_
        exact (ops_ofAuth spares_auth _).bind fun _ => trivial

theorem spares_job {job : Job} (hno : ¬ job.Attempts app which ip) (inst : Nat) :
    (job.prog app inst).Ops (Spares which ip) := by
  cases job with
  | sweep => exact (ops_ofRevocation spares_revocation _).bind fun _ => trivial
  | request r =>
      have hno : r.endpoint.limiter? = some which → r.ip app ≠ ip := fun h h' => hno ⟨h, h'⟩
      have hlimited : ∀ which', r.endpoint.limiter? = some which' →
          (r.serve app inst).Ops (Spares which ip) :=
        fun which' h => serve_limited h (fun _ => trivial) fun _ _ _ _ _ _ _ =>
          spares_limited (fun heq => hno (h.trans (congrArg some heq))) ..
      simp only [Job.prog]
      cases hr : r.endpoint with
      | loginPassword username password => exact hlimited .login (by rw [hr]; rfl)
      | loginGoogle idToken => exact hlimited .login (by rw [hr]; rfl)
      | refresh token => exact hlimited .refresh (by rw [hr]; rfl)
      | logout sessionId =>
          simp only [HttpRequest.serve, hr]
          exact ops_authenticated spares_utcNow spares_revocation fun _ _ =>
            ops_logoutUser _ _ spares_auth spares_utcNow spares_revocation _ _
      | _ =>
          simp only [HttpRequest.serve, hr]
          refine ops_authenticated spares_utcNow spares_revocation fun _ _ => ?_
          first
          | exact (ops_ofProfile spares_profile _).bind fun _ => trivial
          | exact (ops_ofAdmin spares_admin _).bind fun _ => trivial

theorem wp_attempt (hinst : d.inst i < instances) (hattempts : (jobs i).Attempts app which ip)
    (s : State) :
    wp (machine d) (guessContract app jobs which ip) i ((jobs i).prog app (d.inst i))
      (Admitted app jobs which ip instances i) s := by
  have hinvalid : ∀ text s, Admitted app jobs which ip instances i
      (.auth (errorResponse 422 text)) s := by
    intro text s _ r hr h422
    cases hr
    exact absurd rfl h422
  cases hjob : jobs i with
  | sweep =>
      rw [hjob] at hattempts
      exact hattempts.elim
  | request r =>
      have hcounted := hattempts
      rw [hjob] at hcounted
      obtain ⟨hlimiter, hip⟩ := hcounted
      simp only [Job.prog]
      unfold HttpRequest.serve
      split
      · next username password hr =>
          rw [hr] at hlimiter
          cases hlimiter
          unfold loginPassword
          split_ifs
          · exact hinvalid _ s
          · rw [hip]
            refine wp_limited (f := .loginWithPassword) hinst hattempts (fun w => ?_) s
            exact wp_loginWithPassword (c := ⟨r.env, .loginWithPassword username password⟩)
              (opens_obligations app.state _ (fun _ _ h => by cases h) i) rfl trivial
      · next idToken hr =>
          rw [hr] at hlimiter
          cases hlimiter
          unfold loginGoogle
          split_ifs
          · exact hinvalid _ s
          · rw [hip]
            refine wp_limited (f := .loginWithGoogle) hinst hattempts (fun w => ?_) s
            exact wp_loginWithGoogle (c := ⟨r.env, .loginWithGoogle idToken⟩)
              (opens_obligations app.state _ (fun _ _ h => by cases h) i) rfl trivial
      · next token hr =>
          rw [hr] at hlimiter
          cases hlimiter
          unfold refresh
          split_ifs
          · exact hinvalid _ s
          · rw [hip]
            refine wp_limited (f := .refreshToken) hinst hattempts (fun w => ?_) s
            exact wp_refreshToken (c := ⟨r.env, .refreshToken token⟩)
              (opens_obligations app.state _ (fun _ _ h => by cases h) i) rfl trivial
      all_goals
        next hr =>
          rw [hr] at hlimiter
          cases hlimiter

/-- **Every job keeps to the contract.** -/
theorem wp_job (hinst : d.inst i < instances) (s : State) :
    wp (machine d) (guessContract app jobs which ip) i ((jobs i).prog app (d.inst i))
      (Admitted app jobs which ip instances i) s := by
  by_cases hattempts : (jobs i).Attempts app which ip
  · exact wp_attempt hinst hattempts s
  · refine wp_mono (fun a s _ h => absurd h hattempts) (wp_ops (guessContract app jobs which ip)
      (J := fun _ => True) (P := Spares which ip) (fun _ _ _ _ => trivial) ?_
        (fun _ _ _ _ _ => trivial)
      (spares_job hattempts _) trivial)
    exact fun _ o _ ho o' heq => Or.inl (ho o' heq)

end Requests

/-! ## Runs -/

section Runs
variable (d : Deployment) (app : App) (jobs : Nat → Job) (which : Limiter) (ip : IpAddr)
  (first : Instant)

/-- The shadows have room, no attempt of `ip` takes a step before `first`, and
no process restarts. -/
def Proper (c : Cfg State Op Res Outcome) (a : Label Fate Move) : Prop :=
  (∀ k, ((c.shared.limiters which).shadow k).entries.rows.length < maxEntries) ∧
    (∀ i f, a = .run i f → (jobs i).Attempts app which ip → first ≤ (c.shared.limiters which).now) ∧
    ∀ inst, a ≠ .ext (.restart inst)

/-- The counters of `ip` are guarded, unless the window is over or an attempt has
opened a session. -/
def GuardedUntil (s : State) : Prop :=
  (s.limiters which).now < first + ofSecs d.limits.windowSeconds →
    (∀ k ∈ s.commits, (jobs k.thread).Attempts app which ip → k.newSessions = []) →
    Guarded d.limits ip first (s.limiters which)

variable {d app jobs which ip first}

theorem guarded_step (hw : 0 < ofSecs d.limits.windowSeconds) {c : Cfg State Op Res Outcome}
    {i : Nat} {o : Op} {f : Fate} (hg : Proper app jobs which ip first c (.run i f))
    (ho : (guessContract app jobs which ip).guar i c.shared o)
    (hI : GuardedUntil d app jobs which ip first c.shared) :
    GuardedUntil d app jobs which ip first ((machine d).exec c.shared i o f).2 := by
  intro hnow hclosed
  have hclosed' : ∀ k ∈ c.shared.commits, (jobs k.thread).Attempts app which ip →
      k.newSessions = [] := fun k hk =>
    hclosed k ((exec_commits d c.shared i o f).subset hk)
  by_cases hlimiter : ∃ o', o = .limiter which o'
  · obtain ⟨o', rfl⟩ := hlimiter
    simp only [machine, exec_limiter] at hnow ⊢
    rw [exec_now] at hnow
    refine guarded_exec hw (hI hnow hclosed') hnow hg.1 i f.limiter ?_
    rcases ho o' rfl with hspares | ⟨hattempts, hcounts | hopened⟩
    · exact Or.inl hspares
    · exact Or.inr ⟨hg.2.1 i f rfl hattempts, hcounts⟩
    · obtain ⟨k, hk, hthread, hnew⟩ := hopened
      exact absurd (hclosed' k hk (hthread ▸ hattempts)) hnew
  · have hsame : ((machine d).exec c.shared i o f).2.limiters which = c.shared.limiters which :=
      exec_limiters d c.shared i (fun o' h => hlimiter ⟨o', h⟩) f
    rw [hsame] at hnow ⊢
    exact hI hnow hclosed'

theorem guarded_ext (hw : 0 < ofSecs d.limits.windowSeconds) {c : Cfg State Op Res Outcome}
    {e : Move} (hg : Proper app jobs which ip first c (.ext e))
    (hI : GuardedUntil d app jobs which ip first c.shared) :
    GuardedUntil d app jobs which ip first ((machine d).ext c.shared e) := by
  intro hnow hclosed
  have hclosed' : ∀ k ∈ c.shared.commits, (jobs k.thread).Attempts app which ip →
      k.newSessions = [] := by
    rw [← move_commits d c.shared e]
    exact hclosed
  have hlimiter : ∀ e', ((move d c.shared e).limiters which) =
      RateLimit.move d.server d.limits (c.shared.limiters which) e' →
      Guarded d.limits ip first ((move d c.shared e).limiters which) := by
    intro e' he
    have hnow : ((move d c.shared e).limiters which).now < first + ofSecs d.limits.windowSeconds :=
      hnow
    rw [he] at hnow ⊢
    exact guarded_move hw (hI ((now_le_move _ e').trans_lt hnow) hclosed') e' hnow
  cases e with
  | tick nanos => exact hlimiter (.tick nanos) rfl
  | limiterLate which' n =>
      by_cases h : which = which'
      · subst h
        exact hlimiter (.takeEffect n) (Function.update_self ..)
      · have hsame : (move d c.shared (.limiterLate which' n)).limiters which =
            c.shared.limiters which :=
          Function.update_of_ne h ..
        have hnow : ((move d c.shared (.limiterLate which' n)).limiters which).now < _ := hnow
        rw [hsame] at hnow
        show Guarded d.limits ip first ((move d c.shared (.limiterLate which' n)).limiters which)
        rw [hsame]
        exact hI hnow hclosed'
  | revocationLate n => exact hI hnow hclosed'
  | consume inst c => exact hI hnow hclosed'
  | restart inst => exact absurd rfl (hg.2.2 inst)

/-- Answers that were admitted, one grant each, of counters that are guarded. -/
theorem card_le_of_guarded {cfg : RedisRateLimiter} {s : Fleet} (hs : Guarded cfg ip first s)
    {instances : Nat} {guesses : Finset Nat}
    (h : ∀ i ∈ guesses, ∃ src ∈ sources instances, (⟨i, ip, src⟩ : RateLimit.Grant) ∈ s.grants) :
    guesses.card ≤ (instances + 1) * cfg.maxAttempts := by
  have : Nonempty Source := ⟨.redis⟩
  choose! source hsource hgrant using h
  calc guesses.card
      ≤ cfg.maxAttempts * (sources instances).card := by
        refine Finset.card_le_mul_card_image_of_maps_to hsource _ fun src _ => ?_
        refine (card_le_granted fun i hi => ?_).trans (hs.capped src)
        obtain ⟨hmem, rfl⟩ := Finset.mem_filter.mp hi
        exact hgrant i hmem
    _ ≤ cfg.maxAttempts * (instances + 1) := Nat.mul_le_mul_left _ (card_sources_le instances)
    _ = (instances + 1) * cfg.maxAttempts := Nat.mul_comm _ _

end Runs

/-- **Guesses are bounded.** In any run of the service on `instances` processes in which none
restarts and the shadows have room, with any failures: until a request from `ip` has opened a
session or the window is over, the requests from `ip` that a limiter counts get at most
`(instances + 1) * max_attempts` answers other than 422 and 429. -/
theorem guesses_bounded (d : Deployment) (hwindow : 1 ≤ d.limits.windowSeconds) (instances : Nat)
    (hinst : ∀ i, d.inst i < instances) (app : App) (jobs : Nat → Job) (which : Limiter)
    (ip : IpAddr) (s : State) (hs : Unused d.limits ip (s.limiters which)) (first : Instant)
    (l : List (Label Fate Move))
    (hl : (machine d).Along (Proper app jobs which ip first) (service d app jobs s) l)
    (hend : (((machine d).run (service d app jobs s) l).shared.limiters which).now <
      first + ofSecs d.limits.windowSeconds)
    (hclosed : ∀ k ∈ ((machine d).run (service d app jobs s) l).shared.commits,
      (jobs k.thread).Attempts app which ip → k.newSessions = [])
    (guesses : Finset Nat)
    (hguesses : ∀ i ∈ guesses, (jobs i).Attempts app which ip ∧
      ∃ r, ((machine d).run (service d app jobs s) l).thread i = .ret (.auth r) ∧ r.status ≠ 422 ∧
      r.status ≠ 429) :
    guesses.card ≤ (instances + 1) * d.limits.maxAttempts := by
  have hw : 0 < ofSecs d.limits.windowSeconds :=
    MemoryRateLimiter.new_windowDuration_pos d.limits.maxAttempts hwindow
  have hQ : ∀ i a (s s' : State), (guessContract app jobs which ip).rely i s s' →
      Admitted app jobs which ip instances i a s → Admitted app jobs which ip instances i a s' :=
    fun i a s s' hs => Admitted.mono hs.2.2
  have hmove : ∀ i (c : Cfg State Op Res Outcome) e, Proper app jobs which ip first c (.ext e) →
      (guessContract app jobs which ip).rely i c.shared ((machine d).ext c.shared e) := by
    intro i c e _
    refine ⟨?_, ?_, move_grants_subset d c.shared which e⟩
    · rw [show ((machine d).ext c.shared e).db = c.shared.db from move_db d c.shared e]
      exact .refl _
    · rw [show ((machine d).ext c.shared e).commits = c.shared.commits from
        move_commits d c.shared e]
  have hjobs : ∀ i, wp (machine d) (guessContract app jobs which ip) i
      ((service d app jobs s).thread i)
      (Admitted app jobs which ip instances i) (service d app jobs s).shared :=
        fun i => wp_job (hinst i) s
  have hguard : GuardedUntil d app jobs which ip first
      ((machine d).run (service d app jobs s) l).shared :=
    run_shared (guessContract_sound d app jobs which ip) hQ hmove
      (fun _ hg ho hI => guarded_step hw hg ho hI)
      (fun hg hI => guarded_ext hw hg hI) hl hjobs fun _ _ => hs.guarded first
  refine card_le_of_guarded (hguard hend hclosed) fun i hi => ?_
  obtain ⟨hattempts, r, hret, h422, h429⟩ := hguesses i hi
  exact run_post (guessContract_sound d app jobs which ip) hQ hmove hl hjobs hret hattempts
    r rfl h422 h429

/-- Two logins of a user who does not exist. -/
def twoGuesses : Nat → Job := fun i =>
  if i < 2 then .request ⟨.v4 1, [], plainEnv 8 0, .loginPassword "nobody" [1]⟩ else .sweep

/-- Redis fails for the second one. -/
def guessSchedule : List (Label Fate Move) :=
  [.run 0 allDone, .run 0 allDone, .run 1 { allDone with limiter := .failed }, .run 1 allDone,
    .run 1 allDone, .run 1 allDone]

theorem guesses_bounded_two :
    (∀ i ∈ ({0, 1} : Finset Nat), (twoGuesses i).Attempts plainApp .login (.v4 1) ∧
      ∃ r, ((machine plainDeployment).run (service plainDeployment plainApp twoGuesses plainService)
        guessSchedule).thread i = .ret (.auth r) ∧ r.status ≠ 422 ∧ r.status ≠ 429) ∧
    ({0, 1} : Finset Nat).card ≤ (1 + 1) * 1 := by
  have hguesses : ∀ i ∈ ({0, 1} : Finset Nat), (twoGuesses i).Attempts plainApp .login (.v4 1) ∧
      ∃ r, ((machine plainDeployment).run (service plainDeployment plainApp twoGuesses plainService)
        guessSchedule).thread i = .ret (.auth r) ∧ r.status ≠ 422 ∧ r.status ≠ 429 := by
    intro i hi
    have hanswer : ∃ r, ((machine plainDeployment).run
        (service plainDeployment plainApp twoGuesses plainService) guessSchedule).thread i =
          .ret (.auth r) ∧
        r = errorResponse 401 "Invalid username or password" := by
      rcases Finset.mem_insert.mp hi with rfl | hi
      · exact ⟨_, rfl, rfl⟩
      · rw [Finset.mem_singleton.mp hi]
        exact ⟨_, rfl, rfl⟩
    obtain ⟨r, hret, rfl⟩ := hanswer
    refine ⟨?_, _, hret, by decide, by decide⟩
    rcases Finset.mem_insert.mp hi with rfl | hi
    · exact ⟨rfl, rfl⟩
    · rw [Finset.mem_singleton.mp hi]
      exact ⟨rfl, rfl⟩
  have hroom : 0 < maxEntries := by decide
  have hproper : ∀ (c : Cfg State Op Res Outcome) i f,
      (∀ k, ((c.shared.limiters .login).shadow k).entries.rows.length <
      maxEntries) → (c.shared.limiters .login).now = 0 →
        Proper plainApp twoGuesses .login (.v4 1) 0 c (.run i f) :=
    fun c i f hshadow hnow => ⟨hshadow, fun _ _ _ _ => hnow.ge, fun _ h => by cases h⟩
  refine ⟨hguesses, guesses_bounded plainDeployment le_rfl 1
    (fun _ => Nat.zero_lt_one) plainApp twoGuesses .login
    (.v4 1) plainService ⟨rfl, fun _ => rfl, fun _ => ⟨rfl, rfl⟩, fun w h => ?_, fun g h => ?_⟩
      0 guessSchedule
    ⟨hproper _ _ _ (fun _ => hroom) rfl, hproper _ _ _ (fun _ => hroom) rfl,
      hproper _ _ _ (fun _ => hroom) rfl,
      hproper _ _ _ (fun _ => hroom) rfl, hproper _ _ _ (fun k => ?_) rfl,
        hproper _ _ _ (fun k => ?_) rfl, trivial⟩
    (by decide) (fun k h => ?_) {0, 1} hguesses⟩
  · cases h
  · cases h
  · cases k <;> exact hroom
  · cases k with
    | zero => exact (by decide : 1 < maxEntries)
    | succ k => exact hroom
  · cases h

end AppHome.Service
