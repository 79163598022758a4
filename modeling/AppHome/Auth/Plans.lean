import AppHome.Auth.World

/-!
# Use cases as load, plan, commit

Between its load and its save a use case only computes. `Plan` is what it has decided by then: the
aggregate and the new sessions to save, and the answer once the save has gone through. Each use case
is its loads followed by `commitPlan` of a pure plan (`loginWithPassword_run`,
`loginWithGoogle_run`, `refreshToken_run`, `logout_run`), and the `*_inv` lemmas say everything a
plan can be.
-/

namespace AppHome

open Interleave

structure Plan (α : Type) where
  aggregate : UserAggregate
  newSessions : List NewSession
  answer : Except AuthError α

/-- Save what was decided, then answer. -/
def commitPlan {α : Type} (now : Nat → Instant) (plan : Except AuthError (Plan α)) :
    Prog Op Res (Except AuthError α) :=
  match plan with
  | .error e => .ret (.error e)
  | .ok p => .op (.saveAggregate p.aggregate p.newSessions now) fun
    | .error e => .ret (.error e)
    | .ok () => .ret p.answer

section Plans
variable (jwt : JwtService) (bcrypt : Bcrypt) (settings : AuthSettings) (env : Env)

/-- A new session of the aggregate's user, with its tokens. -/
def sessionPlan {α : Type} (a : UserAggregate) (method : AuthMethod)
    (answer : UserAggregate → TokenPair → α) : Except AuthError (Plan α) := do
  let tokenPair ← jwt.generateTokenPair env.mintAt env.jti a.user.id env.newSessionId
  let refreshHash ← hashRefreshToken bcrypt settings env tokenPair.refreshToken
  let (a, newSession) ← a.addSession env.checkAt env.newSessionId refreshHash
    (env.expiryBase + days settings.refreshTokenExpiryDays) method
  return ⟨a, [newSession], .ok (answer a tokenPair)⟩

def passwordAnswer (a : UserAggregate) (tokens : TokenPair) : LoginResult :=
  ⟨a.user, env.newSessionId, tokens.accessToken, tokens.refreshToken, a.pendingEvents⟩

def passwordPlan (password : Bytes) (a : Option UserAggregate) :
    Except AuthError (Plan LoginResult) := do
  let passwordOk ← runBounded env.verifyTask
    (verifyPasswordTimingSafe bcrypt (a.map (·.user)) password)
  if !passwordOk then throw .invalidCredentials
  match a with
  | none => throw .invalidCredentials
  | some a => sessionPlan jwt bcrypt settings env a .password (passwordAnswer env)

def googleAnswer (isNewUser : Bool) (a : UserAggregate) (tokens : TokenPair) :
    LoginWithGoogleResult :=
  ⟨a.user, env.newSessionId, tokens.accessToken, tokens.refreshToken, isNewUser,
    if isNewUser then .userCreated a.user.id .google :: a.pendingEvents else a.pendingEvents⟩

def googlePlan (isNewUser : Bool) (a : UserAggregate) :
    Except AuthError (Plan LoginWithGoogleResult) :=
  sessionPlan jwt bcrypt settings env a .googleOAuth (googleAnswer env isNewUser)

def refreshAnswer (claims : RefreshTokenClaims) (a : UserAggregate) (tokens : TokenPair) :
    RefreshResult :=
  ⟨claims.sub, env.newSessionId, tokens.accessToken, tokens.refreshToken,
    (a.pendingEvents.head?.bind (·.authMethod)).getD .password, a.pendingEvents⟩

def refreshPlan (claims : RefreshTokenClaims) (token : Bytes) (a : Option UserAggregate) :
    Except AuthError (Plan RefreshResult) := do
  match a with
  | none => throw .userNotFound
  | some a =>
    let tokenPair ← jwt.generateTokenPair env.mintAt env.jti claims.sub env.newSessionId
    let refreshHash ← hashRefreshToken bcrypt settings env tokenPair.refreshToken
    let tokenMatches ← presentedTokenMatches bcrypt env a claims.sessionId token
    match a.rotateSession (env.checkAt 0) claims.sessionId tokenMatches env.newSessionId refreshHash
        (env.expiryBase + days settings.refreshTokenExpiryDays) with
    | .ok (a, newSession) =>
      return ⟨a, [newSession], .ok (refreshAnswer env claims a tokenPair)⟩
    | .error .sessionInvalidated =>
      return ⟨a.invalidateAllActiveSessions, [], .error .sessionInvalidated⟩
    | .error e => throw e

def logoutPlan (sessionId : Uuid) (a : Option UserAggregate) :
    Except AuthError (Plan (List Event)) := do
  match a with
  | none => throw .userNotFound
  | some a =>
    let (a, _) ← a.invalidateSession (env.checkAt 0) sessionId
    return ⟨a, [], .ok a.pendingEvents⟩

/-! ## The use cases, split at their operations -/

theorem findAggregateById_bind {α : Type} (id : Uuid) (f : Option UserAggregate → UseCase α) :
    (Repo.findAggregateById id >>= f).run = .op (.findAggregateById id) (Fallible.andThen f) := by
  rw [Fallible.run_bind]
  rfl

theorem saveAggregate_bind {α : Type} (a : UserAggregate) (news : List NewSession)
    (now : Nat → Instant) (f : Unit → UseCase α) :
    (Repo.saveAggregate a news now >>= f).run =
      .op (.saveAggregate a news now) (Fallible.andThen f) := by
  rw [Fallible.run_bind]
  rfl

/-- A save with nothing left to compute but the answer. -/
theorem commitPlan_ok {α : Type} (now : Nat → Instant) (p : Plan α) (f : Unit → UseCase α)
    (hf : (f ()).run = .ret p.answer) :
    (Repo.saveAggregate p.aggregate p.newSessions now >>= f).run = commitPlan now (.ok p) := by
  rw [saveAggregate_bind]
  refine congrArg (Prog.op _) (funext fun r => ?_)
  rcases r with e | _
  · rfl
  · exact hf

theorem findAggregateByUsername_bind {α : Type} (n : String)
    (f : Option UserAggregate → UseCase α) :
    (Repo.findAggregateByUsername n >>= f).run =
      .op (.findAggregateByUsername n) (Fallible.andThen f) := by
  rw [Fallible.run_bind]
  rfl

theorem findAggregateByEmail_bind {α : Type} (e : String) (f : Option UserAggregate → UseCase α) :
    (Repo.findAggregateByEmail e >>= f).run =
      .op (.findAggregateByEmail e) (Fallible.andThen f) := by
  rw [Fallible.run_bind]
  rfl

theorem create_bind {α : Type} (u : NewUser) (id : Uuid) (now : Instant) (f : User → UseCase α) :
    (Repo.create u id now >>= f).run = .op (.create u id now) (Fallible.andThen f) := by
  rw [Fallible.run_bind]
  rfl

theorem lift_bind_plan {α β : Type} {now : Nat → Instant} (x : Except AuthError α)
    {f : α → UseCase β} {g : α → Except AuthError (Plan β)}
    (h : ∀ a, (f a).run = commitPlan now (g a)) :
    ((liftM x : UseCase α) >>= f).run = commitPlan now (x >>= g) := by
  rw [Fallible.run_lift_bind]
  cases x with
  | error e => rfl
  | ok a => exact h a

theorem andThen_plan {α β : Type} {now : Nat → Instant} {f : α → UseCase β}
    {g : α → Except AuthError (Plan β)} (h : ∀ a, (f a).run = commitPlan now (g a)) :
    Fallible.andThen f = fun r => commitPlan now (r >>= g) := by
  funext r
  cases r with
  | error e => rfl
  | ok a => exact h a

theorem logout_run (userId sessionId : Uuid) :
    (logout env userId sessionId).run = .op (.findAggregateById userId) fun r =>
      commitPlan env.insertAt (r >>= logoutPlan env sessionId) := by
  unfold logout
  rw [findAggregateById_bind, andThen_plan]
  rintro (_ | a)
  · rfl
  · refine lift_bind_plan _ ?_
    rintro ⟨a', m⟩
    exact commitPlan_ok env.insertAt ⟨a', [], .ok a'.pendingEvents⟩ _ rfl

theorem createSessionTokens_run (a : UserAggregate) :
    (createSessionTokens jwt bcrypt settings env a).run = commitPlan env.insertAt
      (sessionPlan jwt bcrypt settings env a .password (passwordAnswer env)) := by
  refine lift_bind_plan _ fun tokens => lift_bind_plan _ fun hash => lift_bind_plan _ ?_
  rintro ⟨a', ns⟩
  exact commitPlan_ok env.insertAt ⟨a', [ns], .ok (passwordAnswer env a' tokens)⟩ _ rfl

theorem createGoogleSession_run (a : UserAggregate) (isNewUser : Bool) :
    (createGoogleSession jwt bcrypt settings env a isNewUser).run =
      commitPlan env.insertAt (googlePlan jwt bcrypt settings env isNewUser a) := by
  refine lift_bind_plan _ fun tokens => lift_bind_plan _ fun hash => lift_bind_plan _ ?_
  rintro ⟨a', ns⟩
  exact commitPlan_ok env.insertAt ⟨a', [ns], .ok (googleAnswer env isNewUser a' tokens)⟩ _ rfl

theorem loginWithPassword_run (username : String) (password : Bytes) :
    (loginWithPassword jwt bcrypt settings env username password).run =
      .op (.findAggregateByUsername username) fun r =>
        commitPlan env.insertAt (r >>= passwordPlan jwt bcrypt settings env password) := by
  unfold loginWithPassword
  rw [findAggregateByUsername_bind, andThen_plan]
  intro a
  refine lift_bind_plan _ fun passwordOk => ?_
  cases passwordOk with
  | false => rfl
  | true =>
      cases a with
      | none => rfl
      | some a => exact createSessionTokens_run jwt bcrypt settings env a

theorem refreshToken_run (token : Bytes) {claims : RefreshTokenClaims}
    (hv : jwt.validateRefreshToken env.validateAt token = .ok claims) :
    (refreshToken jwt bcrypt settings env token).run = .op (.findAggregateById claims.sub) fun r =>
      commitPlan env.insertAt (r >>= refreshPlan jwt bcrypt settings env claims token) := by
  unfold refreshToken
  rw [Fallible.run_lift_bind, hv, Fallible.andThen, findAggregateById_bind, andThen_plan]
  rintro (_ | a)
  · rfl
  · refine lift_bind_plan _ fun tokens => lift_bind_plan _ fun hash => lift_bind_plan _ fun ok => ?_
    rcases a.rotateSession (env.checkAt 0) claims.sessionId ok env.newSessionId hash
        (env.expiryBase + days settings.refreshTokenExpiryDays) with e | ⟨a', ns⟩
    · cases e
      case sessionInvalidated =>
        exact commitPlan_ok env.insertAt
          ⟨a.invalidateAllActiveSessions, [], .error .sessionInvalidated⟩ _ rfl
      all_goals rfl
    · exact commitPlan_ok env.insertAt ⟨a', [ns], .ok (refreshAnswer env claims a' tokens)⟩ _ rfl

/-- The plan of a Google login whose user was just created. -/
def createdPlan (a : Option UserAggregate) : Except AuthError (Plan LoginWithGoogleResult) :=
  match a with
  | none => .error (.internalError "created user not found")
  | some a => googlePlan jwt bcrypt settings env true a

/-- A Google login after the lookup by email. -/
def googleRest (userInfo : GoogleUserInfo) :
    Option UserAggregate → Prog Op Res (Except AuthError LoginWithGoogleResult)
  | some a => commitPlan env.insertAt (googlePlan jwt bcrypt settings env false a)
  | none =>
    match Email.new userInfo.email with
    | .error e => .ret (.error (.internalError e))
    | .ok email =>
      .op (.create (NewUser.newGoogle email userInfo.name) env.newUserId env.createAt) fun
      | .error e => .ret (.error e)
      | .ok user => .op (.findAggregateById user.id) fun r =>
        commitPlan env.insertAt (r >>= createdPlan jwt bcrypt settings env)

theorem loginWithGoogle_run (authProvider : AuthProvider) (idToken : Bytes)
    {userInfo : GoogleUserInfo} (hv : authProvider.verifyIdToken idToken = .ok userInfo) :
    (loginWithGoogle jwt bcrypt settings env authProvider idToken).run =
      .op (.findAggregateByEmail userInfo.email) fun
        | .error e => .ret (.error e)
        | .ok a => googleRest jwt bcrypt settings env userInfo a := by
  unfold loginWithGoogle
  rw [Fallible.run_lift_bind, hv, Fallible.andThen, findAggregateByEmail_bind]
  refine congrArg (Prog.op _) (funext fun r => ?_)
  rcases r with e | _ | a
  · rfl
  · change ExceptT.run (match Email.new userInfo.email with
      | .error e => throw (.internalError e)
      | .ok email => _) = googleRest jwt bcrypt settings env userInfo none
    unfold googleRest
    cases Email.new userInfo.email with
    | error e => rfl
    | ok email =>
        rw [create_bind]
        refine congrArg (Prog.op _) (funext fun r => ?_)
        cases r with
        | error e => rfl
        | ok user =>
            rw [Fallible.andThen, findAggregateById_bind, andThen_plan]
            rintro (_ | a)
            · rfl
            · exact createGoogleSession_run jwt bcrypt settings env a true
  · exact createGoogleSession_run jwt bcrypt settings env a false

end Plans

end AppHome
