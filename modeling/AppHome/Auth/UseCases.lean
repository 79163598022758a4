import AppHome.Lib.Interleave
import AppHome.Auth.Domain

/-!
# The ports and the use cases of the `auth` crate

A use case is a program over the operations of the `UserRepository` port (and `publish`, for the
handlers). Everything else it reads comes in through arguments:

* `JwtService`, `Bcrypt`, `AuthSettings` : the other ports, the `bcrypt` crate and the settings;
* `Env` : the clock readings, fresh identifiers, salt and the fates of the two blocking tasks of one
  request.

Each database step is one operation, so a schedule can put steps of other requests between any two
of them.
-/

namespace AppHome

open Interleave

/-! ## Ports and libraries -/

structure TokenPair where
  accessToken : Bytes
  refreshToken : Bytes

structure AccessTokenClaims where
  sub : Uuid
  jti : Uuid
  iss : Bytes
  aud : Bytes
  exp : Int
  iat : Int

structure RefreshTokenClaims where
  sub : Uuid
  sessionId : Uuid
  iss : Bytes
  aud : Bytes
  exp : Int
  iat : Int

/-- The `JwtService` port. Minting reads the clock and draws the access token's id. -/
structure JwtService where
  generateTokenPair : (now : Instant) → (jti userId sessionId : Uuid) → Except AuthError TokenPair
  validateAccessToken : (now : Instant) → Bytes → Except AuthError AccessTokenClaims
  validateRefreshToken : (now : Instant) → Bytes → Except AuthError RefreshTokenClaims

/-- `bcrypt::hash` (with the salt it draws) and `bcrypt::verify`. -/
structure Bcrypt where
  hash : (salt : Bytes) → Bytes → (cost : Nat) → Except String String
  verify : Bytes → String → Except String Bool

structure GoogleUserInfo where
  email : String
  name : String

/-- The `AuthProvider` port. -/
structure AuthProvider where
  verifyIdToken : Bytes → Except AuthError GoogleUserInfo

structure AuthSettings where
  refreshTokenExpiryDays : Int
  bcryptCost : Nat

/-- How a task given to `BcryptLimiter::run_bounded` ends. -/
inductive TaskFate where
  | completed
  | semaphoreClosed
  | failed (e : String)

def runBounded {α : Type} (fate : TaskFate) (f : α) : Except AuthError α :=
  match fate with
  | .completed => .ok f
  | .semaphoreClosed =>
    .error (.internalError "bcrypt concurrency semaphore was unexpectedly closed")
  | .failed e => .error (.internalError ("bcrypt task failed to complete: " ++ e))

/-- What one request reads from its surroundings. -/
structure Env where
  validateAt : Instant
  newSessionId : Uuid
  jti : Uuid
  mintAt : Instant
  expiryBase : Instant
  salt : Bytes
  hashTask : TaskFate
  verifyTask : TaskFate
  checkAt : Nat → Instant
  insertAt : Nat → Instant
  newUserId : Uuid
  createAt : Instant

/-! ## Operations -/

inductive Op where
  | findAggregateById (id : Uuid)
  | findAggregateByUsername (username : String)
  | findAggregateByEmail (email : String)
  | create (user : NewUser) (id : Uuid) (now : Instant)
  | saveAggregate (aggregate : UserAggregate) (newSessions : List NewSession) (now : Nat → Instant)
  | publish (event : Event)

abbrev Res : Op → Type
  | .findAggregateById _ => Except AuthError (Option UserAggregate)
  | .findAggregateByUsername _ => Except AuthError (Option UserAggregate)
  | .findAggregateByEmail _ => Except AuthError (Option UserAggregate)
  | .create _ _ _ => Except AuthError User
  | .saveAggregate _ _ _ => Except AuthError Unit
  | .publish _ => Unit

abbrev UseCase (α : Type) := Fallible Op Res AuthError α

namespace Repo

def findAggregateById (id : Uuid) : UseCase (Option UserAggregate) :=
  ExceptT.mk (Prog.op (Op.findAggregateById id) Prog.ret)

def findAggregateByUsername (username : String) : UseCase (Option UserAggregate) :=
  ExceptT.mk (Prog.op (Op.findAggregateByUsername username) Prog.ret)

def findAggregateByEmail (email : String) : UseCase (Option UserAggregate) :=
  ExceptT.mk (Prog.op (Op.findAggregateByEmail email) Prog.ret)

def create (user : NewUser) (id : Uuid) (now : Instant) : UseCase User :=
  ExceptT.mk (Prog.op (Op.create user id now) Prog.ret)

def saveAggregate (aggregate : UserAggregate) (newSessions : List NewSession)
    (now : Nat → Instant) :
    UseCase Unit :=
  ExceptT.mk (Prog.op (Op.saveAggregate aggregate newSessions now) Prog.ret)

end Repo

/-! ## Use cases -/

structure LoginResult where
  user : User
  sessionId : Uuid
  accessToken : Bytes
  refreshToken : Bytes
  events : List Event

structure LoginWithGoogleResult where
  user : User
  sessionId : Uuid
  accessToken : Bytes
  refreshToken : Bytes
  isNewUser : Bool
  events : List Event

structure RefreshResult where
  userId : Uuid
  sessionId : Uuid
  accessToken : Bytes
  refreshToken : Bytes
  authMethod : AuthMethod
  events : List Event

/-- `chrono::Duration::days`. -/
def days (n : Int) : Int := ofSecs (n * 86400)

section UseCases
variable (jwt : JwtService) (bcrypt : Bcrypt) (settings : AuthSettings) (env : Env)

/-- The hash stored for a refresh token. -/
def hashRefreshToken (refreshToken : Bytes) : Except AuthError HashedPassword := do
  match ← runBounded env.hashTask (bcrypt.hash env.salt refreshToken settings.bcryptCost) with
  | .error _ => throw .tokenGenerationFailed
  | .ok hash =>
    match HashedPassword.new hash with
    | .error _ => throw .tokenGenerationFailed
    | .ok hash => pure hash

/-- The answer of `verify_password_timing_safe`; the work it spends does not show in it. -/
def verifyPasswordTimingSafe (user : Option User) (password : Bytes) : Bool :=
  match user.bind (·.passwordHash) with
  | some hash => (bcrypt.verify password hash.value).toOption.getD false
  | none => false

def createSessionTokens (aggregate : UserAggregate) : UseCase LoginResult := do
  let sessionId := env.newSessionId
  let tokenPair ← jwt.generateTokenPair env.mintAt env.jti aggregate.user.id sessionId
  let expiresAt := env.expiryBase + days settings.refreshTokenExpiryDays
  let refreshHash ← hashRefreshToken bcrypt settings env tokenPair.refreshToken
  let (aggregate, newSession) ←
    aggregate.addSession env.checkAt sessionId refreshHash expiresAt .password
  Repo.saveAggregate aggregate [newSession] env.insertAt
  let (events, aggregate) := aggregate.takeEvents
  return ⟨aggregate.user, sessionId, tokenPair.accessToken, tokenPair.refreshToken, events⟩

def loginWithPassword (username : String) (password : Bytes) : UseCase LoginResult := do
  let aggregate ← Repo.findAggregateByUsername username
  let passwordOk ← runBounded env.verifyTask
    (verifyPasswordTimingSafe bcrypt (aggregate.map (·.user)) password)
  if !passwordOk then
    throw .invalidCredentials
  match aggregate with
  | none => throw .invalidCredentials
  | some aggregate => createSessionTokens jwt bcrypt settings env aggregate

/-- The part of `login_with_google` after the aggregate is there. -/
def createGoogleSession (aggregate : UserAggregate) (isNewUser : Bool) :
    UseCase LoginWithGoogleResult := do
  let sessionId := env.newSessionId
  let tokenPair ← jwt.generateTokenPair env.mintAt env.jti aggregate.user.id sessionId
  let expiresAt := env.expiryBase + days settings.refreshTokenExpiryDays
  let refreshHash ← hashRefreshToken bcrypt settings env tokenPair.refreshToken
  let (aggregate, newSession) ←
    aggregate.addSession env.checkAt sessionId refreshHash expiresAt .googleOAuth
  Repo.saveAggregate aggregate [newSession] env.insertAt
  let (events, aggregate) := aggregate.takeEvents
  let events := if isNewUser then .userCreated aggregate.user.id .google :: events else events
  return ⟨aggregate.user, sessionId, tokenPair.accessToken, tokenPair.refreshToken,
    isNewUser, events⟩

def loginWithGoogle (authProvider : AuthProvider) (idToken : Bytes) :
    UseCase LoginWithGoogleResult := do
  let userInfo ← authProvider.verifyIdToken idToken
  match ← Repo.findAggregateByEmail userInfo.email with
  | some aggregate => createGoogleSession jwt bcrypt settings env aggregate false
  | none =>
    match Email.new userInfo.email with
    | .error e => throw (.internalError e)
    | .ok email =>
      let user ← Repo.create (NewUser.newGoogle email userInfo.name) env.newUserId env.createAt
      match ← Repo.findAggregateById user.id with
      | none => throw (.internalError "created user not found")
      | some aggregate => createGoogleSession jwt bcrypt settings env aggregate true

/-- Whether the presented token matches the stored hash of the session it names. -/
def presentedTokenMatches (aggregate : UserAggregate) (sessionId : Uuid) (token : Bytes) :
    Except AuthError Bool :=
  match aggregate.sessions.find? fun s => s.id = sessionId with
  | some session => do
    let answer ← runBounded env.verifyTask (bcrypt.verify token session.refreshTokenHash.value)
    pure (answer.toOption.getD false)
  | none => pure false

def refreshToken (token : Bytes) : UseCase RefreshResult := do
  let claims ← jwt.validateRefreshToken env.validateAt token
  match ← Repo.findAggregateById claims.sub with
  | none => throw .userNotFound
  | some aggregate =>
    let newSessionId := env.newSessionId
    let tokenPair ← jwt.generateTokenPair env.mintAt env.jti claims.sub newSessionId
    let expiresAt := env.expiryBase + days settings.refreshTokenExpiryDays
    let refreshHash ← hashRefreshToken bcrypt settings env tokenPair.refreshToken
    let tokenMatches ← presentedTokenMatches bcrypt env aggregate claims.sessionId token
    match aggregate.rotateSession (env.checkAt 0) claims.sessionId tokenMatches newSessionId
        refreshHash expiresAt with
    | .ok (aggregate, newSession) =>
      Repo.saveAggregate aggregate [newSession] env.insertAt
      let (events, _) := aggregate.takeEvents
      let authMethod := (events.head?.bind (·.authMethod)).getD .password
      return ⟨claims.sub, newSessionId, tokenPair.accessToken, tokenPair.refreshToken, authMethod,
        events⟩
    | .error .sessionInvalidated =>
      Repo.saveAggregate aggregate.invalidateAllActiveSessions [] env.insertAt
      throw .sessionInvalidated
    | .error e => throw e

def logout (userId sessionId : Uuid) : UseCase (List Event) := do
  match ← Repo.findAggregateById userId with
  | none => throw .userNotFound
  | some aggregate =>
    let (aggregate, _) ← aggregate.invalidateSession (env.checkAt 0) sessionId
    Repo.saveAggregate aggregate [] env.insertAt
    return aggregate.takeEvents.1

end UseCases

end AppHome
