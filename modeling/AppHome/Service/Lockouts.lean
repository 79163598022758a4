import AppHome.Lib.Once
import AppHome.RateLimit.Tally
import AppHome.Service.Access
import AppHome.Service.Guesses

/-!
# Lockouts are earned

The other half of `Guesses`: an address is answered 429 only for requests of its own.

* `Counting`, `once_job` : a request counts itself at most once with each counter;
* `attempts_of_counting` : and only for its own address;
* `attemptsFrom_quiet`, `attemptsFrom_raise`, `attemptsFrom_move` : what can raise the attempts of a
  window, by how much;
* `lockouts_earned` : so when a counter refuses a request, `max_attempts` others from the address
  have asked it within the window.
-/

namespace AppHome.RateLimit

open Interleave

theorem Op.Counts.not_spares {ip : IpAddr} {src : Source} {o : Op} (h : o.Counts ip src) :
    ¬ o.Spares ip := by
  cases o with
  | incrWithExpire ip' => exact fun hne => hne h.2
  | tryScript ip' => exact fun hne => hne h.2
  | shadow k step =>
      cases step with
      | record ip' => exact fun hne => hne h.2
      | tryRecord ip' => exact fun hne => hne h.2
      | _ => exact h.elim
  | _ => exact h.elim

/-- Redis counts the attempt, or the shadow does if Redis was not heard. -/
theorem once_tryCheckAndRecord (inst : Nat) (ip ip' : IpAddr) (src : Source) :
    (tryCheckAndRecord inst ip').Once (Op.Counts ip src) := by
  have hshadow : (swept inst (.tryRecord ip')).Once (Op.Counts ip src) :=
    ⟨fun h => h.elim, fun _ => ⟨fun _ _ => trivial, fun _ => trivial⟩⟩
  refine ⟨fun hcounts r => ?_, fun r => ?_⟩
  · cases r with
    | some allowed => trivial
    | none =>
        refine ⟨fun h => h, fun _ => ⟨fun h => ?_, fun _ => trivial⟩⟩
        cases hcounts.1.symm.trans h.1
  · cases r with
    | some allowed => trivial
    | none => exact hshadow

theorem ops_reset (inst : Nat) (ip ip' : IpAddr) (src : Source) :
    (reset inst ip').Ops fun o => ¬ o.Counts ip src :=
  ⟨fun h => h, fun _ => ⟨fun h => h, fun _ => trivial⟩⟩

end AppHome.RateLimit

namespace AppHome.Service

open Interleave RateLimit

/-! ## A request counts itself once -/

section Counting
variable (which : Limiter) (ip : IpAddr) (src : Source)

/-- The operation counts an attempt of `ip` with a counter of the limiter. -/
def Counting (o : Op) : Prop := ∃ o', o = .limiter which o' ∧ o'.Counts ip src

variable {which ip src}

theorem not_counting {o : Op} (h : ∀ o', o ≠ .limiter which o') : ¬ Counting which ip src o := by
  rintro ⟨o', rfl, -⟩
  exact h o' rfl

theorem not_counting_auth (o : AppHome.Op) : ¬ Counting which ip src (.auth o) :=
  not_counting fun _ h => by cases h

theorem not_counting_ofLimiter {α : Type} {which' : Limiter} {p : RateLimit.Program α}
    (hp : p.Ops fun o => ¬ o.Counts ip src) :
    (ofLimiter which' p).Ops fun o => ¬ Counting which ip src o := by
  refine Prog.ops_widen (hp.mono fun o ho => ?_)
  rintro ⟨o', h, hcounts⟩
  cases h
  exact ho hcounts

theorem once_limited {α : Type} {which' : Limiter} {ip' : IpAddr} {inst : Nat} {tooMany : String}
    {useCase : UseCase α} {events : α → List Event} {ok : α → HttpResponse}
    {err : AuthError → HttpResponse} :
    (limited which' inst ip' tooMany useCase events ok err).Once (Counting which ip src) := by
  have hadmission : (ofLimiter which' (tryCheckAndRecord inst ip')).Once
      (Counting which ip src) := by
    by_cases heq : which' = which
    · subst heq
      refine Prog.Once.widen (fun o => ⟨?_, fun h => ⟨o, rfl, h⟩⟩)
        (once_tryCheckAndRecord inst ip ip' src)
      rintro ⟨o', h, hcounts⟩
      cases h
      exact hcounts
    · refine .of_ops (Prog.ops_widen ((Prog.ops_true _).mono fun o _ => ?_))
      rintro ⟨o', h, -⟩
      cases h
      exact heq rfl
  refine hadmission.bind fun allowed => ?_
  cases allowed with
  | false => trivial
  | true =>
      refine (ops_ofAuth not_counting_auth _).bind fun answer => ?_
      rcases answer with e | a
      · trivial
      · refine (not_counting_ofLimiter (ops_reset inst ip ip' src)).bind fun _ => ?_
        exact (ops_ofAuth not_counting_auth _).bind fun _ => trivial

theorem once_job (app : App) (inst : Nat) (job : Job) :
    (job.prog app inst).Once (Counting which ip src) := by
  have helsewhere : ∀ {p : Program Outcome}, p.Ops (Outside (Op.limiter which)) →
      p.Once (Counting which ip src) :=
    fun hp => .of_ops (hp.mono fun o ho => not_counting ho)
  cases job with
  | sweep => exact helsewhere ((ops_ofRevocation (fun _ _ h => by cases h) _).bind fun _ => trivial)
  | request r =>
      simp only [Job.prog]
      rcases serve_cases app inst r with hlimited | ⟨sessionId, -, hserve⟩ | ⟨handler, hserve, hops⟩
      · obtain ⟨which', hwhich⟩ := Option.ne_none_iff_exists'.mp hlimited
        exact serve_limited hwhich (fun _ => trivial) fun _ _ _ _ _ _ _ => once_limited
      · rw [hserve]
        refine helsewhere
          (ops_authenticated (fun _ h => by cases h) (fun _ _ h => by cases h) fun claims _ => ?_)
        exact ops_logoutUser _ _ (fun _ _ h => by cases h) (fun _ h => by cases h)
          (fun _ _ h => by cases h) _ _
      · rw [hserve]
        refine helsewhere
          (ops_authenticated (fun _ h => by cases h) (fun _ _ h => by cases h) fun claims _ => ?_)
        refine (hops claims.user).mono fun o ho o' h => ?_
        rw [h] at ho
        exact ho

end Counting

/-! ## What raises the attempts of a window -/

section Steps
variable {d : Deployment} {which : Limiter} {ip : IpAddr} {src : Source} {t : Instant}
variable (hw : 0 < ofSecs d.limits.windowSeconds)
  (hserver : ∀ now, d.server.expireAccepts d.limits.windowSeconds now = true)

section Exec
variable {s : State} {i : Nat} {o : Op} {f : Fate}
include hw hserver

theorem tally_step {e : RateLimitEntry}
    (h : ((exec d s i o f).2.limiters which).tally d.limits ip src = some e) :
    (s.limiters which).tally d.limits ip src = some e ∨
      Counting which ip src o ∧ Counted (s.limiters which).now
        ((s.limiters which).tally d.limits ip src) e := by
  by_cases ho : ∃ o', o = .limiter which o'
  · obtain ⟨o', rfl⟩ := ho
    rw [exec_limiter] at h
    exact (tally_exec hw hserver h).imp_right fun hc => ⟨⟨o', rfl, hc.1⟩, hc.2⟩
  · rw [exec_limiters d s i (fun o' h => ho ⟨o', h⟩) f] at h
    exact Or.inl h

theorem attemptsFrom_quiet (ho : ¬ Counting which ip src o) :
    ((exec d s i o f).2.limiters which).attemptsFrom d.limits ip src t ≤
      (s.limiters which).attemptsFrom d.limits ip src t :=
  attemptsFrom_le fun _ he => (tally_step hw hserver he).resolve_right fun hc => ho hc.1

theorem attemptsFrom_raise :
    ((exec d s i o f).2.limiters which).attemptsFrom d.limits ip src t ≤
      (s.limiters which).attemptsFrom d.limits ip src t + 1 :=
  attemptsFrom_le_succ fun _ he => (tally_step hw hserver he).imp_right And.right

theorem timed_step (h : Timed d.limits ip (s.limiters which)) :
    Timed d.limits ip ((exec d s i o f).2.limiters which) := by
  by_cases ho : ∃ o', o = .limiter which o'
  · obtain ⟨o', rfl⟩ := ho
    rw [exec_limiter]
    exact h.exec hw hserver i o' f.limiter
  · rw [exec_limiters d s i (fun o' h => ho ⟨o', h⟩) f]
    exact h

end Exec

theorem tally_restart {fleet : Fleet} {inst : Nat} {e : RateLimitEntry}
    (h : (fleet.setShadow inst (.new d.limits.maxAttempts d.limits.windowSeconds)).tally d.limits ip
      src = some e) :
    fleet.tally d.limits ip src = some e := by
  cases src with
  | redis => exact h
  | shadow k =>
      by_cases hk : k = inst
      · subst hk
        simp only [Fleet.tally, Fleet.setShadow_shadow] at h
        cases h
      · simpa only [Fleet.tally, Fleet.setShadow_shadow_of_ne fleet _ hk] using h

theorem attemptsFrom_move (s : State) {e : Move} (hlate : ∀ n, e ≠ .limiterLate which n) :
    ((move d s e).limiters which).attemptsFrom d.limits ip src t ≤
      (s.limiters which).attemptsFrom d.limits ip src t := by
  cases e with
  | tick nanos => exact attemptsFrom_le fun _ he => tally_tick he
  | limiterLate which' n =>
      have hne : which ≠ which' := fun h => hlate n (by rw [h])
      rw [show (move d s (.limiterLate which' n)).limiters which = s.limiters which from
        Function.update_of_ne hne ..]
  | revocationLate n => exact le_rfl
  | consume inst c => exact le_rfl
  | restart inst => exact attemptsFrom_le fun _ he => tally_restart he

include hw hserver in
theorem timed_move {s : State} (h : Timed d.limits ip (s.limiters which)) (e : Move) :
    Timed d.limits ip ((move d s e).limiters which) := by
  cases e with
  | tick nanos => exact h.tick nanos
  | limiterLate which' n =>
      by_cases heq : which = which'
      · subst heq
        rw [show (move d s (.limiterLate which n)).limiters which = _ from Function.update_self ..]
        exact h.move hw hserver _
      · rw [show (move d s (.limiterLate which' n)).limiters which = s.limiters which from
          Function.update_of_ne heq ..]
        exact h
  | revocationLate n => exact h
  | consume inst c => exact h
  | restart inst =>
      refine ⟨fun src e he => h.starts src e (tally_restart he), h.ends, fun k => ?_⟩
      have hshadow : ((move d s (.restart inst)).limiters which).shadow k =
          ((s.limiters which).setShadow inst
            (.new d.limits.maxAttempts d.limits.windowSeconds)).shadow k := rfl
      rw [hshadow]
      by_cases hk : k = inst
      · rw [hk, Fleet.setShadow_shadow]
        exact ⟨rfl, rfl⟩
      · rw [Fleet.setShadow_shadow_of_ne _ _ hk]
        exact h.config k

end Steps

/-! ## Refusals -/

/-- The limiter refuses the attempt. -/
def RefuseOpens (which : Limiter) (ip : IpAddr) : (o : Op) → Res o → Prop
  | .limiter which' (.tryScript ip'), answer => which' = which ∧ ip' = ip ∧ answer = some false
  | .limiter which' (.shadow _ (.tryRecord ip')), allowed =>
    which' = which ∧ ip' = ip ∧ allowed = false
  | _, _ => False

/-- An answer that no limiter gives. -/
def Outcome.Answered (a : Outcome) : Prop := ∀ r, a = .auth r → r.status ≠ 429

theorem until_limited {α : Type} {which : Limiter} {ip : IpAddr} {inst : Nat} {tooMany : String}
    {useCase : UseCase α} {events : α → List Event} {ok : α → HttpResponse}
    {err : AuthError → HttpResponse} (hok : ∀ a, (ok a).status ≠ 429)
    (herr : ∀ e, (err e).status ≠ 429) :
    (limited which inst ip tooMany useCase events ok err).Until (fun _ => False)
    (RefuseOpens which ip)
      Outcome.Answered := by
  have hquiet : ∀ {β : Type} (p : Program β),
      p.Until (fun _ => False) (RefuseOpens which ip) fun _ => True :=
    fun p => .of_ops ((Prog.ops_true p).mono fun _ _ h => h) (Prog.rets_true p)
  have hadmission : (ofLimiter which (tryCheckAndRecord inst ip)).Until (fun _ => False)
      (RefuseOpens which ip)
      (· = true) := by
    refine ⟨fun h => h, fun answer hanswer => ?_⟩
    cases answer with
    | some allowed =>
        cases allowed with
        | true => rfl
        | false => exact absurd ⟨rfl, rfl, rfl⟩ hanswer
    | none =>
        refine ⟨fun h => h, fun _ _ => ⟨fun h => h, fun allowed hallowed => ?_⟩⟩
        cases allowed with
        | true => rfl
        | false => exact absurd ⟨rfl, rfl, rfl⟩ hallowed
  refine (hadmission.mono fun allowed hallowed => ?_).bind
  subst hallowed
  refine ((hquiet _).mono fun answer _ => ?_).bind
  rcases answer with e | a
  · intro r hr
    cases hr
    exact herr e
  · refine ((hquiet _).mono fun _ _ => ((hquiet _).mono fun _ _ => ?_).bind).bind
    intro r hr
    cases hr
    exact hok a

theorem until_attempt {app : App} {which : Limiter} {ip : IpAddr} {job : Job}
    (h : job.Attempts app which ip) (inst : Nat) :
    (job.prog app inst).Until (fun _ => False) (RefuseOpens which ip) Outcome.Answered := by
  have hinvalid : ∀ text, Outcome.Answered (.auth (errorResponse 422 text)) := by
    intro text r hr
    cases hr
    simp [errorResponse]
  cases job with
  | sweep => exact h.elim
  | request r =>
      obtain ⟨hlimiter, rfl⟩ := h
      exact serve_limited hlimiter hinvalid fun _ _ _ _ _ hok herr => until_limited hok herr

/-! ## Runs -/

section Runs
variable (d : Deployment) (app : App) (jobs : Nat → Job) (which : Limiter) (ip : IpAddr)
  (src : Source) (s : State)

/-- After `l`, the next operation of job `i` asks the counter to count it. -/
def AsksCounter (l : List (Label Fate Move)) (i : Nat) : Prop :=
  ∃ o k, ((machine d).run (service d app jobs s) l).thread i = .op o k ∧ Counting which ip src o

/-- After `l`, the counter refuses job `i`. -/
def RefusedBy (l : List (Label Fate Move)) (i : Nat) (f : Fate) : Prop :=
  ∃ o k, ((machine d).run (service d app jobs s) l).thread i = .op o k ∧ Counting which ip src o ∧
    RefuseOpens which ip o (exec d (after d app jobs s l) i o f).1

variable {d app jobs which ip s}

theorem attempts_of_counting {src : Source} {l : List (Label Fate Move)} {j : Nat} {o : Op}
    {k : Res o → Program Outcome}
    (hj : ((machine d).run (service d app jobs s) l).thread j = .op o k)
    (ho : Counting which ip src o) :
    (jobs j).Attempts app which ip := by
  by_contra hno
  obtain ⟨o', rfl, hcounts⟩ := ho
  have hspares : Spares which ip (.limiter which o') :=
    run_ops (machine d) (c := service d app jobs s) (l := l) (spares_job hno (d.inst j)) hj
  exact hcounts.not_spares (hspares o' rfl)

section Timed
variable (hw : 0 < ofSecs d.limits.windowSeconds)
  (hserver : ∀ now, d.server.expireAccepts d.limits.windowSeconds now = true)
  (hs : Unused d.limits ip (s.limiters which))
include hw hserver hs

theorem timed_after (l : List (Label Fate Move)) :
    Timed d.limits ip ((after d app jobs s l).limiters which) := by
  refine run_rel (R := fun s s' : State => Timed d.limits ip (s.limiters which) →
    Timed d.limits ip (s'.limiters which))
    (fun _ h => h) (fun h h' hs => h' (h hs)) (fun s i o f h => timed_step hw hserver h)
    (fun s e h => timed_move hw hserver h e) (service d app jobs s) l hs.timed

/-- Whoever has raised the attempts of a window is an attempt of the address that was made in it. -/
theorem raisers {src : Source} {t : Instant} {l : List (Label Fate Move)}
    (hlate : ∀ n, .ext (.limiterLate which n) ∉ l) {i : Nat} {o : Op}
    {k : Res o → Program Outcome}
    (hi : ((machine d).run (service d app jobs s) l).thread i = .op o k)
    (ho : Counting which ip src o) :
    ∃ others : Finset Nat, i ∉ others ∧
      ((after d app jobs s l).limiters which).attemptsFrom d.limits ip src t ≤ others.card ∧
      ∀ j ∈ others, (jobs j).Attempts app which ip ∧ ∃ l₁ f l₂, l = l₁ ++ .run j f :: l₂ ∧
        AsksCounter d app jobs which ip src s l₁ j ∧
        t ≤ ((after d app jobs s l₁).limiters which).now := by
  have hzero :
      ((service d app jobs s).shared.limiters which).attemptsFrom d.limits ip src t = 0 := by
    by_contra hne
    obtain ⟨e, he, -⟩ := exists_tally (Nat.pos_of_ne_zero hne)
    have hnone : (s.limiters which).tally d.limits ip src = none := by
      cases src with
      | redis => simp only [Fleet.tally, hs.key, Option.bind_none]
      | shadow k => exact hs.entry k
    cases hnone.symm.trans he
  have honce : ∀ j, ((service d app jobs s).thread j).Once (Counting which ip src) :=
    fun j => once_job app (d.inst j) (jobs j)
  obtain ⟨others, hcard, hothers⟩ := run_raises (machine d)
    (fun s : State => (s.limiters which).attemptsFrom d.limits ip src t) honce (l := l)
    (fun s j o f hquiet => attemptsFrom_quiet hw hserver hquiet)
    (fun s j o f _ => attemptsFrom_raise hw hserver)
    (fun s e he => attemptsFrom_move s fun n heq => hlate n (heq ▸ he))
  rw [hzero, Nat.zero_add] at hcard
  refine ⟨others, fun hmem => ?_, hcard, fun j hj => ?_⟩
  · obtain ⟨l₁, f, l₂, o', k', rfl, hi', ho', -⟩ := hothers i hmem
    exact run_once (machine d) (honce i) hi' ho' hi ho
  · obtain ⟨l₁, f, l₂, o', k', rfl, hj', ho', hlt⟩ := hothers j hj
    refine ⟨attempts_of_counting hj' ho', l₁, f, l₂, rfl, ⟨o', k', hj', ho'⟩, ?_⟩
    obtain ⟨e, he, rfl, -⟩ := exists_tally (Nat.zero_lt_of_lt hlt)
    exact (timed_after hw hserver hs l₁).start_le ((tally_step hw hserver he).imp_right And.right)

end Timed

end Runs

/-- **Lockouts are earned.** In any run of the service, on any number of processes and with any
failures, in which no command of the limiter takes effect late: a request is answered 429 only if a
counter refused it, and `max_attempts` other requests from its address had asked that counter less
than a window before. -/
theorem lockouts_earned (d : Deployment) (hwindow : 1 ≤ d.limits.windowSeconds)
    (hserver : ∀ now, d.server.expireAccepts d.limits.windowSeconds now = true) (app : App)
    (jobs : Nat → Job) (which : Limiter) (ip : IpAddr) (s : State)
    (hs : Unused d.limits ip (s.limiters which)) (l : List (Label Fate Move))
    (hlate : ∀ n, .ext (.limiterLate which n) ∉ l) (i : Nat)
    (hattempt : (jobs i).Attempts app which ip) (r : HttpResponse)
    (hanswer : ((machine d).run (service d app jobs s) l).thread i = .ret (.auth r))
    (h429 : r.status = 429) :
    ∃ l₀ f l₁ src, l = l₀ ++ .run i f :: l₁ ∧ RefusedBy d app jobs which ip src s l₀ i f ∧
      ∃ others : Finset Nat, i ∉ others ∧ d.limits.maxAttempts ≤ others.card ∧
      ∀ j ∈ others, (jobs j).Attempts app which ip ∧ ∃ l₂ f' l₃, l₀ = l₂ ++ .run j f' :: l₃ ∧
        AsksCounter d app jobs which ip src s l₂ j ∧
        ((after d app jobs s l₀).limiters which).now <
          ((after d app jobs s l₂).limiters which).now + ofSecs d.limits.windowSeconds := by
  have hw : 0 < ofSecs d.limits.windowSeconds :=
    MemoryRateLimiter.new_windowDuration_pos d.limits.maxAttempts hwindow
  have huntil : ((service d app jobs s).thread i).Until (fun _ => False)
      (RefuseOpens which ip) Outcome.Answered :=
    until_attempt hattempt (d.inst i)
  obtain ⟨l₀, f, l₁, o, k, rfl, hi, hopen⟩ :=
    run_until (machine d) huntil (by rw [hanswer]; exact fun h => h r rfl h429)
  have htimed : Timed d.limits ip ((after d app jobs s l₀).limiters which) :=
    timed_after hw hserver hs l₀
  -- the counter that refused is full in a window that is not over
  obtain ⟨src, hcounting, t, hopenWindow, hfull⟩ : ∃ src, Counting which ip src o ∧ ∃ t,
      ((after d app jobs s l₀).limiters which).now < t + ofSecs d.limits.windowSeconds ∧
        d.limits.maxAttempts ≤ ((after d app jobs s l₀).limiters which).attemptsFrom d.limits
          ip src t := by
    cases o with
    | limiter which' o =>
        cases o with
        | tryScript ip' =>
            have ⟨hwhich, hip, hrefused⟩ := hopen
            subst hwhich hip
            exact ⟨.redis, ⟨_, rfl, rfl, rfl⟩, refused_tryScript hw htimed hserver hrefused⟩
        | shadow inst step =>
            cases step with
            | tryRecord ip' =>
                have ⟨hwhich, hip, hrefused⟩ := hopen
                subst hwhich hip
                exact ⟨.shadow inst, ⟨_, rfl, rfl, rfl⟩, refused_tryRecord hw htimed hrefused⟩
            | _ => exact hopen.elim
        | _ => exact hopen.elim
    | _ => exact hopen.elim
  obtain ⟨others, hother, hcard, hothers⟩ := raisers (t := t) hw hserver hs
    (fun n h => hlate n (List.mem_append_left _ h)) hi hcounting
  refine ⟨l₀, f, l₁, src, rfl, ⟨o, k, hi, hcounting, hopen⟩, others, hother, hfull.trans hcard,
    fun j hj => ?_⟩
  obtain ⟨hattempts, l₂, f', l₃, hl₀, hasks, hstart⟩ := hothers j hj
  refine ⟨hattempts, l₂, f', l₃, hl₀, hasks, lt_of_lt_of_le hopenWindow ?_⟩
  exact Int.add_le_add_right hstart _

/-- Two logins from one address in one window, of which the second is refused. -/
def refusedSchedule : List (Label Fate Move) := [.run 0 allDone, .run 0 allDone, .run 1 allDone]

theorem lockouts_earned_second :
    ((machine plainDeployment).run (service plainDeployment plainApp twoGuesses plainService)
      refusedSchedule).thread 1 =
      .ret (.auth (errorResponse 429 "Too many login attempts. Please try again later.")) ∧
    ∃ l₀ f l₁ src, refusedSchedule = l₀ ++ .run 1 f :: l₁ ∧
      RefusedBy plainDeployment plainApp twoGuesses .login (.v4 1) src plainService l₀ 1 f ∧
      ∃ others : Finset Nat, 1 ∉ others ∧ 1 ≤ others.card ∧
      ∀ j ∈ others, (twoGuesses j).Attempts plainApp .login (.v4 1) ∧
        ∃ l₂ f' l₃, l₀ = l₂ ++ .run j f' :: l₃ ∧
        AsksCounter plainDeployment plainApp twoGuesses .login (.v4 1) src plainService l₂ j ∧
        ((after plainDeployment plainApp twoGuesses plainService l₀).limiters .login).now <
          ((after plainDeployment plainApp twoGuesses plainService l₂).limiters .login).now +
            ofSecs 1 := by
  refine ⟨rfl, lockouts_earned plainDeployment le_rfl (fun _ => rfl) plainApp twoGuesses .login
    (.v4 1) plainService
    ⟨rfl, fun _ => rfl, fun _ => ⟨rfl, rfl⟩, fun w h => ?_, fun g h => ?_⟩ refusedSchedule
      (fun n h => ?_) 1 ⟨rfl, rfl⟩
    (errorResponse 429 "Too many login attempts. Please try again later.") rfl rfl⟩
  · cases h
  · cases h
  · simp [refusedSchedule] at h

end AppHome.Service
