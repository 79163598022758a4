import AppHome.Auth.Handlers
import AppHome.Profiles.Handlers
import AppHome.Revocation.Logout
import AppHome.Service.Deployment
import AppHome.Shared.Net

/-!
# The endpoints of the service

Every route of the API that works on the shared state, from the extractor of `AuthenticatedUser` or
the rate limiter to the answer, and the sweeps of the revocation flusher. Requests whose body or
path the framework cannot read do not get this far.

* `fromRequestParts` : the extractor, with the revocation list asked step by step;
* `limited`, `runAndReset` : the order of the three endpoints with a limiter: admission, use case,
  and after a success the reset and the events;
* `HttpRequest.serve`, `Job.prog` : a request, a sweep.
-/

namespace AppHome.Service

open Interleave

/-! ## The parts of an endpoint -/

/-- What the handlers share: the state of `auth`, the verification of access tokens and the trusted
proxies. -/
structure App where
  state : AppState
  verification : JwtVerification
  trustedProxyIps : List IpAddr

/-- The answers of the endpoints, and what a sweep ends with. -/
inductive Outcome where
  | unauthorized
  | auth (r : HttpResponse)
  | profile (r : Profiles.HttpResponse)
  | users (r : Admin.ListResponse)
  | user (r : Admin.HttpResponse)
  | swept (r : Except Durable.SqlxError Nat)

/-- The end of the extractor: a list that cannot be asked lets the token pass. -/
def admitted (claims : AccessClaims) :
    Except BlacklistError Bool → Except AuthRejection AuthenticatedUser
  | .ok true => .error ⟨⟩
  | .ok false => .ok ⟨claims.sub, claims.jti, claims.exp⟩
  | .error _ => .ok ⟨claims.sub, claims.jti, claims.exp⟩

/-- `AuthenticatedUser::from_request_parts`. -/
def fromRequestParts (v : JwtVerification) (inst : Nat) (headers : HeaderMap) :
    Program (Except AuthRejection AuthenticatedUser) :=
  match bearerToken headers with
  | none => .ret (.error ⟨⟩)
  | some token => .op .utcNow fun now =>
    match v.decode token now with
    | none => .ret (.error ⟨⟩)
    | some claims => ofRevocation (Durable.isRevoked inst claims.jti) >>= fun revoked =>
      .ret (admitted claims revoked)

/-- A route with the `AuthenticatedUser` extractor; `AuthRejection` is a 401 with the text
"Unauthorized". -/
def authenticated (v : JwtVerification) (inst : Nat) (headers : HeaderMap)
    (handler : AuthenticatedUser → Program Outcome) : Program Outcome :=
  fromRequestParts v inst headers >>= fun
    | .ok user => handler user
    | .error _ => .ret .unauthorized

/-- The claims of the token in the headers, whether it is still accepted or not. -/
def subject (v : JwtVerification) (headers : HeaderMap) : Option AccessClaims :=
  (bearerToken headers).bind v.claims

theorem subject_of_decode {v : JwtVerification} {headers : HeaderMap} {token : Bytes}
    {now : Instant} {claims : AccessClaims} (hheader : bearerToken headers = some token)
    (hdecode : v.decode token now = some claims) :
    subject v headers = some claims := by
  rw [subject, hheader]
  exact (Option.filter_eq_some_iff.mp hdecode).1

/-- The extractor lets nobody through but the user whom the token names. -/
theorem rets_fromRequestParts (v : JwtVerification) (inst : Nat) (headers : HeaderMap) :
    (fromRequestParts v inst headers).Rets fun r =>
      ∀ user, r = .ok user → ∃ claims, subject v headers = some claims ∧ user = claims.user := by
  unfold fromRequestParts
  cases hheader : bearerToken headers with
  | none =>
      intro user h
      cases h
  | some token =>
      intro now
      beta_reduce
      cases hdecode : v.decode token now with
      | none =>
          intro user h
          cases h
      | some claims =>
          refine (Prog.rets_true _).bind fun revoked _ user huser => ?_
          refine ⟨claims, subject_of_decode hheader hdecode, ?_⟩
          rcases revoked with e | b
          · exact (Except.ok.inj huser).symm
          · cases b with
            | true => cases huser
            | false => exact (Except.ok.inj huser).symm

/-- The operations of the extractor. -/
def Op.Extracts : Op → Prop
  | .utcNow => True
  | .revocation o => Durable.LookupOp o
  | _ => False

theorem ops_fromRequestParts (v : JwtVerification) (inst : Nat) (headers : HeaderMap) :
    (fromRequestParts v inst headers).Ops Op.Extracts := by
  unfold fromRequestParts
  split
  · trivial
  · refine ⟨trivial, fun now => ?_⟩
    beta_reduce
    split
    · trivial
    · refine Prog.Ops.bind (Prog.ops_widen ?_) fun _ => trivial
      exact Durable.ops_isRevoked inst _

theorem Op.Extracts.elim {P : Op → Prop} (hnow : P .utcNow) (hrevocation : ∀ o, P (.revocation o))
    {o : Op} (ho : o.Extracts) : P o := by
  cases o with
  | utcNow => exact hnow
  | revocation o => exact hrevocation o
  | _ => exact False.elim ho

theorem ops_authenticated {P : Op → Prop} (hnow : P .utcNow)
    (hrevocation : ∀ o, P (.revocation o)) {v : JwtVerification} {inst : Nat}
    {headers : HeaderMap} {handler : AuthenticatedUser → Program Outcome}
    (h : ∀ claims, subject v headers = some claims → (handler claims.user).Ops P) :
    (authenticated v inst headers handler).Ops P := by
  refine Prog.Ops.bind_rets (rets_fromRequestParts v inst headers)
    ((ops_fromRequestParts v inst headers).mono fun _ ho => ho.elim hnow hrevocation) fun r hr => ?_
  cases r with
  | error e => trivial
  | ok user =>
      obtain ⟨claims, hclaims, rfl⟩ := hr user rfl
      exact h claims hclaims

/-- Run the use case; after a success clear the counters and publish the events. -/
def runAndReset {α : Type} (which : Limiter) (inst : Nat) (ip : IpAddr) (useCase : UseCase α)
    (events : α → List Event) (ok : α → HttpResponse) (err : AuthError → HttpResponse) :
    Program Outcome :=
  ofAuth useCase.run >>= fun
    | .ok result =>
      ofLimiter which (RateLimit.reset inst ip) >>= fun _ =>
        ofAuth (publishAll (events result)) >>= fun _ => .ret (.auth (ok result))
    | .error e => .ret (.auth (err e))

/-- A use case behind a limiter. -/
def limited {α : Type} (which : Limiter) (inst : Nat) (ip : IpAddr) (tooMany : String)
    (useCase : UseCase α) (events : α → List Event) (ok : α → HttpResponse)
    (err : AuthError → HttpResponse) : Program Outcome :=
  ofLimiter which (RateLimit.tryCheckAndRecord inst ip) >>= fun allowed =>
    if !allowed then .ret (.auth (errorResponse 429 tooMany))
    else runAndReset which inst ip useCase events ok err

theorem ops_limited {P : Op → Prop} {α : Type} {which : Limiter} (hauth : ∀ o, P (.auth o))
    (hlimiter : ∀ o, P (.limiter which o)) (inst : Nat) (ip : IpAddr) (tooMany : String)
    (useCase : UseCase α) (events : α → List Event) (ok : α → HttpResponse)
    (err : AuthError → HttpResponse) :
    (limited which inst ip tooMany useCase events ok err).Ops P := by
  refine (ops_ofLimiter hlimiter _).bind fun allowed => ?_
  cases allowed with
  | false => trivial
  | true =>
      refine (ops_ofAuth hauth _).bind fun answer => ?_
      rcases answer with e | a
      · trivial
      · exact (ops_ofLimiter hlimiter _).bind fun _ => (ops_ofAuth hauth _).bind fun _ => trivial

/-! ## The endpoints -/

section Endpoints
variable (app : App) (inst : Nat) (env : Env)

def loginPassword (ip : IpAddr) (username : String) (password : Bytes) : Program Outcome :=
  if username.utf8ByteSize = 0 || password.isEmpty || username.utf8ByteSize > maxUsernameLen ||
      password.length > maxPasswordLen then
    .ret (.auth (errorResponse 422
      "Username and password are required and must not exceed 256 and 4096 characters respectively"))
  else
    limited .login inst ip "Too many login attempts. Please try again later."
      (loginWithPassword app.state.jwtService app.state.bcrypt app.state.authSettings env username
        password) (·.events)
      (fun r => ⟨200, .authTokens "authenticated" r.user.id r.accessToken r.refreshToken⟩)
      fun
        | .invalidCredentials => errorResponse 401 "Invalid username or password"
        | _ => errorResponse 500 "Internal server error"

def loginGoogle (ip : IpAddr) (idToken : Bytes) : Program Outcome :=
  if idToken.isEmpty || idToken.length > maxIdTokenLen then
    .ret (.auth (errorResponse 422 "ID token is required and must not exceed 16384 characters"))
  else
    limited .login inst ip "Too many login attempts. Please try again later."
      (loginWithGoogle app.state.jwtService app.state.bcrypt app.state.authSettings env
        app.state.authProvider idToken)
      (·.events)
      (fun r =>
        ⟨200, .googleAuth "authenticated" r.user.id r.accessToken r.refreshToken r.isNewUser⟩)
      fun
        | .tokenVerificationFailed => errorResponse 401 "Authentication failed"
        | _ => errorResponse 500 "Internal server error"

def refresh (ip : IpAddr) (token : Bytes) : Program Outcome :=
  if token.isEmpty || token.length > maxRefreshTokenLen then
    .ret (.auth (errorResponse 422 "refresh_token is required and must not exceed 8192 characters"))
  else
    limited .refresh inst ip "Too many refresh attempts. Please try again later."
      (refreshToken app.state.jwtService app.state.bcrypt app.state.authSettings env token)
      (·.events)
      (fun r => ⟨200, .refresh r.accessToken r.refreshToken⟩)
      fun
        | .invalidRefreshToken => errorResponse 401 "Invalid or expired refresh token"
        | .tokenVerificationFailed => errorResponse 401 "Invalid refresh token"
        | .sessionExpired => errorResponse 401 "Session has expired"
        | .sessionInvalidated => errorResponse 401 "Session has expired"
        | .userNotFound => errorResponse 401 "Invalid or expired refresh token"
        | .sessionNotFound => errorResponse 401 "Invalid or expired refresh token"
        | _ => errorResponse 500 "Internal server error"

/-- `logout_handler` revokes the presented token once the session is closed; it answers 200 even if
that fails. -/
def logoutUser (user : AuthenticatedUser) (sessionId : Uuid) : Program Outcome :=
  ofAuth (AppHome.logout env user.userId sessionId).run >>= fun
    | .ok events =>
      ofAuth (publishAll events) >>= fun _ =>
        .op .utcNow fun now =>
          .op (.revocation (.call user.jti (revocationTtlSecs user.exp (timestamp now)))) fun _ =>
            ofRevocation (Durable.revoke inst user.jti (revocationTtlSecs user.exp (timestamp now)))
              >>= fun _ =>
              .ret (.auth ⟨200, .status "logged_out"⟩)
    | .error .userNotFound => .ret (.auth (errorResponse 401 "Authentication required"))
    | .error .sessionNotFound => .ret (.auth (errorResponse 400 "Invalid session"))
    | .error .sessionInvalidated => .ret (.auth (errorResponse 400 "Invalid session"))
    | .error .sessionExpired => .ret (.auth (errorResponse 400 "Invalid session"))
    | .error _ => .ret (.auth (errorResponse 500 "Internal server error"))

theorem ops_logoutUser {P : Op → Prop} (hauth : ∀ o, P (.auth o)) (hnow : P .utcNow)
    (hrevocation : ∀ o, P (.revocation o)) (user : AuthenticatedUser) (sessionId : Uuid) :
    (logoutUser inst env user sessionId).Ops P := by
  refine (ops_ofAuth hauth _).bind fun answer => ?_
  rcases answer with e | events
  · cases e <;> trivial
  · refine (ops_ofAuth hauth _).bind fun _ => ⟨hnow, fun now => ⟨hrevocation _, fun _ => ?_⟩⟩
    exact (ops_ofRevocation hrevocation _).bind fun _ => trivial

end Endpoints

inductive Endpoint where
  | loginPassword (username : String) (password : Bytes)
  | loginGoogle (idToken : Bytes)
  | refresh (token : Bytes)
  | logout (sessionId : Uuid)
  | getProfile
  | updateProfile (avatarUrl bio : Option String)
  | listUsers (query : Admin.ListUsersQuery)
  | getUser (userId : Uuid)
  | updateUserRole (userId : Uuid) (role : String)

/-- The limiter an endpoint asks; the others have the extractor. -/
def Endpoint.limiter? : Endpoint → Option Limiter
  | .loginPassword _ _ => some .login
  | .loginGoogle _ => some .login
  | .refresh _ => some .refresh
  | _ => none

/-- A request that was routed, with what `auth` reads while serving it. -/
structure HttpRequest where
  peer : IpAddr
  headers : HeaderMap
  env : Env
  endpoint : Endpoint

/-- The address that the limiters count the request for. -/
def HttpRequest.ip (app : App) (r : HttpRequest) : IpAddr :=
  resolveClientIp r.peer r.headers app.trustedProxyIps

def HttpRequest.serve (app : App) (inst : Nat) (r : HttpRequest) : Program Outcome :=
  match r.endpoint with
  | .loginPassword username password =>
    Service.loginPassword app inst r.env (r.ip app) username password
  | .loginGoogle idToken => Service.loginGoogle app inst r.env (r.ip app) idToken
  | .refresh token => Service.refresh app inst r.env (r.ip app) token
  | .logout sessionId =>
    authenticated app.verification inst r.headers fun user => logoutUser inst r.env user sessionId
  | .getProfile =>
    authenticated app.verification inst r.headers fun user =>
      ofProfile (Profiles.getProfileHandler user.userId) >>= fun answer => .ret (.profile answer)
  | .updateProfile avatarUrl bio =>
    authenticated app.verification inst r.headers fun user =>
      ofProfile (Profiles.updateProfileHandler user.userId avatarUrl bio) >>= fun answer =>
        .ret (.profile answer)
  | .listUsers query =>
    authenticated app.verification inst r.headers fun user =>
      ofAdmin (Admin.listUsersHandler user.userId query) >>= fun answer => .ret (.users answer)
  | .getUser userId =>
    authenticated app.verification inst r.headers fun user =>
      ofAdmin (Admin.ofBase (Admin.getUserHandler user.userId userId)) >>= fun answer =>
        .ret (.user answer)
  | .updateUserRole userId role =>
    authenticated app.verification inst r.headers fun user =>
      ofAdmin (Admin.ofBase (Admin.updateUserRoleHandler ⟨user.userId, userId, role⟩))
        >>= fun answer =>
        .ret (.user answer)

/-- An endpoint with a limiter answers 422 or runs a use case behind the limiter. That use case
gives no 429. -/
theorem serve_limited {app : App} {inst : Nat} {r : HttpRequest} {which : Limiter}
    (h : r.endpoint.limiter? = some which) {P : Program Outcome → Prop}
    (hinvalid : ∀ text, P (.ret (.auth (errorResponse 422 text))))
    (hlimited : ∀ {α : Type} (tooMany : String) (useCase : UseCase α)
      (events : α → List Event) (ok : α → HttpResponse) (err : AuthError → HttpResponse),
      (∀ a, (ok a).status ≠ 429) → (∀ e, (err e).status ≠ 429) →
      P (limited which inst (r.ip app) tooMany useCase events ok err)) :
    P (r.serve app inst) := by
  unfold HttpRequest.serve
  cases hr : r.endpoint with
  | loginPassword username password =>
      rw [hr] at h
      cases h
      simp only [loginPassword]
      split_ifs
      · exact hinvalid _
      · exact hlimited _ _ _ _ _ (fun _ => by simp) fun e => by cases e <;> simp [errorResponse]
  | loginGoogle idToken =>
      rw [hr] at h
      cases h
      simp only [loginGoogle]
      split_ifs
      · exact hinvalid _
      · exact hlimited _ _ _ _ _ (fun _ => by simp) fun e => by cases e <;> simp [errorResponse]
  | refresh token =>
      rw [hr] at h
      cases h
      simp only [refresh]
      split_ifs
      · exact hinvalid _
      · exact hlimited _ _ _ _ _ (fun _ => by simp) fun e => by cases e <;> simp [errorResponse]
  | _ =>
      rw [hr] at h
      cases h

theorem ops_serve_limited {P : Op → Prop} (hauth : ∀ o, P (.auth o))
    (hlimiter : ∀ which o, P (.limiter which o)) (app : App) (inst : Nat) {r : HttpRequest}
    (h : r.endpoint.limiter? ≠ none) : (r.serve app inst).Ops P := by
  obtain ⟨which, hwhich⟩ := Option.ne_none_iff_exists'.mp h
  exact serve_limited hwhich (fun _ => trivial) fun tooMany useCase events ok err _ _ =>
    ops_limited hauth (hlimiter which) inst _ tooMany useCase events ok err

/-- A request, or a sweep of the flusher of a process. -/
inductive Job where
  | request (r : HttpRequest)
  | sweep

def Job.prog (app : App) (inst : Nat) : Job → Program Outcome
  | .request r => r.serve app inst
  | .sweep => ofRevocation (Durable.flushPending inst) >>= fun r => .ret (.swept r)

/-- Any number of jobs, none of them begun. -/
def service (d : Deployment) (app : App) (jobs : Nat → Job) (s : State) :
    Cfg State Op Res Outcome :=
  ⟨s, fun i => (jobs i).prog app (d.inst i)⟩

/-! ## A small instance -/

/-- Access tokens of one digit, the number of the user and of the token. -/
def plainVerification : JwtVerification :=
  ⟨fun token => token.head?.map fun b =>
    ⟨.ofNat 128 (b.toNat - 48), .ofNat 128 (b.toNat - 48), 1000⟩⟩

/-- `Authorization: Bearer` and the digit. -/
def plainBearer (digit : UInt8) : HeaderMap := [(.authorization, bearer ++ [48 + digit])]

def plainApp : App := ⟨plainState, plainVerification, []⟩

/-- One process, one attempt in a second. -/
def plainDeployment : Deployment := ⟨⟨fun _ _ => true⟩, ⟨1, 1⟩, fun _ => 0⟩

/-- The user of `plainDb` with the role `admin`, and nothing else. -/
def plainService : State where
  db := plainDb
  userActions := []
  commits := []
  published := []
  bus := fun _ => ⟨[], 0⟩
  limiters := fun _ => .new ⟨1, 1⟩ 0
  revocations := ⟨0, .empty, .empty, fun _ => .empty, [], []⟩
  roles := Table.empty.put ⟨1, "admin", 0⟩
  profiles := .empty
  updated := []
  seen := fun _ => none

/-- Everything that is sent is done. -/
def allDone : Fate := ⟨.done, .done, .done, .done, .done⟩

end AppHome.Service
