import AppHome.Service.Endpoints

/-!
# Access to the protected endpoints

* `Cleared` : what the extractor was told before it let a request pass;
* `cleared_of_past` : a protected endpoint does nothing before that, in every run of the service,
  whatever fails and in whatever order the steps are taken.
-/

namespace AppHome.Service

open Interleave

/-! ## The extractor comes first -/

/-- What follows the extractor waits for each of its three answers: the clock, the pending set and
Redis. -/
theorem until_authenticated {opens : ∀ o, Res o → Prop} {v : JwtVerification} {inst : Nat}
    {headers : HeaderMap} {handler : AuthenticatedUser → Program Outcome}
    (h : ∀ token claims now, bearerToken headers = some token → v.decode token now = some claims →
      opens .utcNow now ∨ (∀ t, opens (.revocation (.pendingLookup inst claims.jti t)) false) ∨
      ∀ r, r ≠ some true → opens (.revocation (.existsKey claims.jti)) r) :
    (authenticated v inst headers handler).Until (fun o => ¬ o.Extracts) opens
      (· = .unauthorized) := by
  have hreject : (Prog.ret .unauthorized : Program Outcome).Until (fun o => ¬ o.Extracts) opens
      (· = .unauthorized) := rfl
  unfold authenticated fromRequestParts
  cases hheader : bearerToken headers with
  | none => exact hreject
  | some token =>
      refine ⟨fun h => h trivial, fun now hclock => ?_⟩
      beta_reduce
      cases hdecode : v.decode token now with
      | none => exact hreject
      | some claims =>
          -- the clock did not open what follows, so one of the two lookups does
          have hlookups := (h token claims now hheader hdecode).resolve_left hclock
          refine ⟨fun h => h trivial, fun t _ => ⟨fun h => h trivial, fun pending hpending => ?_⟩⟩
          cases pending with
          | true => exact hreject
          | false =>
              have hredis := hlookups.resolve_left fun h => hpending (h t)
              refine ⟨fun h => h trivial, fun held hheld => ?_⟩
              have hheld : held = some true := by
                by_contra hne
                exact hheld (hredis held hne)
              subst hheld
              exact hreject

/-- What comes behind the extractor is done as the user of the token. -/
theorem until_behind {danger : Op → Prop} {opens : ∀ o, Res o → Prop} {Q : Outcome → Prop}
    (hdanger : ∀ o, o.Extracts → ¬ danger o) (hQ : Q .unauthorized) {v : JwtVerification}
    {inst : Nat} {headers : HeaderMap} {handler : AuthenticatedUser → Program Outcome}
    (h : ∀ claims, subject v headers = some claims → (handler claims.user).Until danger opens Q) :
    (authenticated v inst headers handler).Until danger opens Q := by
  refine ((Prog.Until.of_ops ((ops_fromRequestParts v inst headers).mono hdanger)
    (rets_fromRequestParts v inst headers)).mono fun r hr => ?_).bind
  cases r with
  | error e => exact hQ
  | ok user =>
      obtain ⟨claims, hclaims, rfl⟩ := hr user rfl
      exact h claims hclaims

/-- The operations of the handlers of `admin` and `profiles`. -/
def Op.Lists : Op → Prop
  | .admin _ => True
  | .profile _ => True
  | _ => False

/-- The three kinds of requests: behind a limiter, a logout, or behind the extractor alone. -/
theorem serve_cases (app : App) (inst : Nat) (r : HttpRequest) : r.endpoint.limiter? ≠ none ∨
    (∃ sessionId, r.endpoint = .logout sessionId ∧ r.serve app inst =
      authenticated app.verification inst r.headers fun user =>
        logoutUser inst r.env user sessionId) ∨
    ∃ handler, r.serve app inst = authenticated app.verification inst r.headers handler ∧
      ∀ user, (handler user).Ops Op.Lists := by
  have hadmin : ∀ {α : Type} (p : Prog Admin.ListOp Admin.ListRes α) (f : α → Outcome),
      (ofAdmin p >>= fun a => Prog.ret (f a)).Ops Op.Lists :=
    fun p f => (ops_ofAdmin (fun _ => trivial) p).bind fun _ => trivial
  have hprofile : ∀ {α : Type} (p : Prog Profiles.Op Profiles.Res α) (f : α → Outcome),
      (ofProfile p >>= fun a => Prog.ret (f a)).Ops Op.Lists :=
    fun p f => (ops_ofProfile (fun _ => trivial) p).bind fun _ => trivial
  unfold HttpRequest.serve
  cases r.endpoint with
  | loginPassword username password => exact Or.inl (by simp [Endpoint.limiter?])
  | loginGoogle idToken => exact Or.inl (by simp [Endpoint.limiter?])
  | refresh token => exact Or.inl (by simp [Endpoint.limiter?])
  | logout sessionId => exact Or.inr (Or.inl ⟨sessionId, rfl, rfl⟩)
  | getProfile => exact Or.inr (Or.inr ⟨_, rfl, fun user => hprofile _ _⟩)
  | updateProfile avatarUrl bio => exact Or.inr (Or.inr ⟨_, rfl, fun user => hprofile _ _⟩)
  | listUsers query => exact Or.inr (Or.inr ⟨_, rfl, fun user => hadmin _ _⟩)
  | getUser userId => exact Or.inr (Or.inr ⟨_, rfl, fun user => hadmin _ _⟩)
  | updateUserRole userId role => exact Or.inr (Or.inr ⟨_, rfl, fun user => hadmin _ _⟩)

section Runs
variable (d : Deployment) (app : App) (jobs : Nat → Job) (s : State)

/-- The service after some moves. -/
abbrev after (l : List (Label Fate Move)) : State :=
  ((machine d).run (service d app jobs s) l).shared

/-- Job `i` got past the extractor with the token of `claims`. -/
structure Cleared (i : Nat) (headers : HeaderMap) (claims : AccessClaims)
    (l : List (Label Fate Move)) : Prop where
  verified : ∃ token l₁ f l₂, l = l₁ ++ .run i f :: l₂ ∧ bearerToken headers = some token ∧
    app.verification.decode token (after d app jobs s l₁).revocations.now = some claims
  not_pending : ∃ t l₁ f l₂, l = l₁ ++ .run i f :: l₂ ∧
    (Durable.exec (after d app jobs s l₁).revocations i
      (.pendingLookup (d.inst i) claims.jti t) .done).1 = false
  not_held : ∃ l₁ f l₂, l = l₁ ++ .run i f :: l₂ ∧ (f.revocation = .done →
    (after d app jobs s l₁).revocations.redis.holds claims.jti
      (after d app jobs s l₁).revocations.now = false)

/-- Job `i` is past the extractor: it has to do something else, or has answered something else than
401. -/
def Past (i : Nat) (l : List (Label Fate Move)) : Prop :=
  (((machine d).run (service d app jobs s) l).thread i).Reaches (fun o => ¬ o.Extracts)
    (· = .unauthorized)

variable {d app jobs s}

theorem Cleared.append {i : Nat} {headers : HeaderMap} {claims : AccessClaims}
    {l : List (Label Fate Move)} (h : Cleared d app jobs s i headers claims l)
    (l' : List (Label Fate Move)) :
    Cleared d app jobs s i headers claims (l ++ l') := by
  obtain ⟨⟨token, l₁, f, l₂, rfl, hverified⟩, ⟨t, l₃, f', l₄, hl, hpending⟩, l₅, f'', l₆,
      hl', hheld⟩ := h
  refine ⟨⟨token, l₁, f, l₂ ++ l', by simp, hverified⟩,
    ⟨t, l₃, f', l₄ ++ l', by simp [hl], hpending⟩, l₅, f'', l₆ ++ l', by simp [hl'], hheld⟩

theorem serve_protected (app : App) {r : HttpRequest} (h : r.endpoint.limiter? = none)
    (inst : Nat) :
    ∃ handler, r.serve app inst = authenticated app.verification inst r.headers handler ∧
      ∀ user, (handler user).Rets (· ≠ .unauthorized) := by
  have hrets : ∀ {α : Type} (p : Program α) {f : α → Program Outcome},
      (∀ a, (f a).Rets (· ≠ .unauthorized)) →
      (p >>= f).Rets (· ≠ .unauthorized) := fun p _ hf => (Prog.rets_true p).bind fun a _ => hf a
  unfold HttpRequest.serve
  split
  · next hr =>
      rw [hr] at h
      cases h
  · next hr =>
      rw [hr] at h
      cases h
  · next hr =>
      rw [hr] at h
      cases h
  · refine ⟨_, rfl, fun user => hrets _ fun answer => ?_⟩
    rcases answer with e | events
    · cases e <;> simp [Prog.Rets]
    · exact hrets _ fun _ now _ => hrets _ fun _ => by simp [Prog.Rets]
  all_goals exact ⟨_, rfl, fun user => hrets _ fun _ => by simp [Prog.Rets]⟩

/-- A protected request that is past the extractor was answered as `opens` says before. -/
theorem opened_before (opens : ∀ o, Res o → Prop) {i : Nat} {r : HttpRequest}
    (hjob : jobs i = .request r) (hprotected : r.endpoint.limiter? = none)
    (hopens : ∀ token claims now, bearerToken r.headers = some token →
      app.verification.decode token now = some claims →
      opens .utcNow now ∨
      (∀ t, opens (.revocation (.pendingLookup (d.inst i) claims.jti t)) false) ∨
      ∀ r, r ≠ some true → opens (.revocation (.existsKey claims.jti)) r)
    {l : List (Label Fate Move)} (hpast : Past d app jobs s i l) :
    ∃ l₁ f l₂ o', l = l₁ ++ .run i f :: l₂ ∧
      opens o' ((machine d).exec (after d app jobs s l₁) i o' f).1 := by
  have huntil : ((service d app jobs s).thread i).Until (fun o => ¬ o.Extracts) opens
      (· = .unauthorized) := by
    obtain ⟨handler, hserve, -⟩ := serve_protected app hprotected (d.inst i)
    simp only [service, hjob, Job.prog, hserve]
    exact until_authenticated hopens
  obtain ⟨l₁, f, l₂, o', k', hl, -, hopen⟩ := run_until (machine d) huntil hpast
  exact ⟨l₁, f, l₂, o', hl, hopen⟩

/-- The clock was read when the token was accepted. -/
def ClockOpens (v : JwtVerification) (headers : HeaderMap) (claims : AccessClaims) :
    (o : Op) → Res o → Prop
  | .utcNow, now => ∃ token, bearerToken headers = some token ∧ v.decode token now = some claims
  | _, _ => False

def PendingOpens (inst : Nat) (jti : Uuid) : (o : Op) → Res o → Prop
  | .revocation (.pendingLookup inst' jti' _), found => inst' = inst ∧ jti' = jti ∧ found = false
  | _, _ => False

def RedisOpens (jti : Uuid) : (o : Op) → Res o → Prop
  | .revocation (.existsKey jti'), held => jti' = jti ∧ held ≠ some true
  | _, _ => False

/-- **Complete mediation.** Whatever a protected request does after the extractor, it does as the
user of a token that was verified at a reading of the clock, was not in the pending set of the
process, and was not held by Redis unless Redis failed. -/
theorem cleared_of_past {i : Nat} {r : HttpRequest} (hjob : jobs i = .request r)
    (hprotected : r.endpoint.limiter? = none) {l : List (Label Fate Move)}
    (hpast : Past d app jobs s i l) :
    ∃ claims, subject app.verification r.headers = some claims ∧
      Cleared d app jobs s i r.headers claims l := by
  have hsubject : ∀ {token claims now}, bearerToken r.headers = some token →
      app.verification.decode token now = some claims →
        subject app.verification r.headers = some claims :=
    fun hheader hdecode => subject_of_decode hheader hdecode
  cases hclaims : subject app.verification r.headers with
  | none =>
      obtain ⟨_, _, _, _, _, hnever⟩ := opened_before (fun _ _ => False) hjob hprotected
        (fun token claims now hheader hdecode => by
          rw [hsubject hheader hdecode] at hclaims
          cases hclaims) hpast
      exact hnever.elim
  | some claims =>
      have hsame : ∀ {token claims' now}, bearerToken r.headers = some token →
          app.verification.decode token now = some claims' → claims' = claims :=
            fun hheader hdecode =>
        Option.some.inj ((hsubject hheader hdecode).symm.trans hclaims)
      refine ⟨claims, rfl, ?_, ?_, ?_⟩
      · obtain ⟨l₁, f, l₂, o', hl, hopen⟩ :=
          opened_before (ClockOpens app.verification r.headers claims) hjob hprotected
            (fun token claims' now hheader hdecode => Or.inl ⟨token, hheader, by
              rw [← hsame hheader hdecode]
              exact hdecode⟩) hpast
        cases o' with
        | utcNow =>
            obtain ⟨token, hheader, hdecode⟩ := hopen
            exact ⟨token, l₁, f, l₂, hl, hheader, hdecode⟩
        | _ => exact hopen.elim
      · obtain ⟨l₁, f, l₂, o', hl, hopen⟩ :=
          opened_before (PendingOpens (d.inst i) claims.jti) hjob hprotected
            (fun token claims' now hheader hdecode => Or.inr (Or.inl fun t =>
              ⟨rfl, by rw [hsame hheader hdecode], rfl⟩)) hpast
        cases o' with
        | revocation o' =>
            cases o' with
            | pendingLookup inst jti t =>
                obtain ⟨rfl, rfl, hfound⟩ := hopen
                exact ⟨t, l₁, f, l₂, hl, hfound⟩
            | _ => exact hopen.elim
        | _ => exact hopen.elim
      · obtain ⟨l₁, f, l₂, o', hl, hopen⟩ :=
          opened_before (RedisOpens claims.jti) hjob hprotected
            (fun token claims' now hheader hdecode => Or.inr (Or.inr fun held hheld =>
              ⟨by rw [hsame hheader hdecode], hheld⟩)) hpast
        cases o' with
        | revocation o' =>
            cases o' with
            | existsKey jti =>
                obtain ⟨rfl, hheld⟩ := hopen
                refine ⟨l₁, f, l₂, hl, fun hdone => ?_⟩
                simp only [machine, exec, Durable.exec, hdone, ne_eq, Option.some.injEq] at hheld
                exact Bool.eq_false_iff.mpr hheld
            | _ => exact hopen.elim
        | _ => exact hopen.elim

end Runs

end AppHome.Service
