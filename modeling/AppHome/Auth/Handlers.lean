import AppHome.Auth.Requests

/-!
# The HTTP handlers

Each handler checks the request, asks the rate limiter (whose answer is an argument), runs its use
case and, only when that answers `Ok`, publishes the events it returned. The revocation that
`logout_handler` adds after publishing works on other state and does not change its answer.
-/

namespace AppHome

open Interleave

inductive ResponseBody where
  | error (error : String)
  | authTokens (status : String) (userId : Uuid) (accessToken refreshToken : Bytes)
  | googleAuth (status : String) (userId : Uuid) (accessToken refreshToken : Bytes)
    (isNewUser : Bool)
  | refresh (accessToken refreshToken : Bytes)
  | status (status : String)

structure HttpResponse where
  status : Nat
  body : ResponseBody

abbrev Handler := Prog Op Res HttpResponse

def errorResponse (status : Nat) (error : String) : HttpResponse := ⟨status, .error error⟩

def publishAll : List Event → Prog Op Res Unit
  | [] => .ret ()
  | e :: events => .op (.publish e) fun _ => publishAll events

/-- Run the use case; publish what it returns, if it returns. -/
def runAndPublish {α : Type} (useCase : UseCase α) (events : α → List Event) (ok : α → HttpResponse)
    (err : AuthError → HttpResponse) : Handler :=
  useCase.run >>= fun
    | .ok result => publishAll (events result) >>= fun _ => .ret (ok result)
    | .error e => .ret (err e)

def maxUsernameLen : Nat := 256

def maxPasswordLen : Nat := 4096

def maxIdTokenLen : Nat := 16384

def maxRefreshTokenLen : Nat := 8192

section Handlers
variable (st : AppState) (env : Env) (allowed : Bool)

def loginPasswordHandler (username : String) (password : Bytes) : Handler :=
  if username.utf8ByteSize = 0 || password.isEmpty || username.utf8ByteSize > maxUsernameLen ||
      password.length > maxPasswordLen then
    .ret (errorResponse 422
      "Username and password are required and must not exceed 256 and 4096 characters respectively")
  else if !allowed then
    .ret (errorResponse 429 "Too many login attempts. Please try again later.")
  else
    runAndPublish (loginWithPassword st.jwtService st.bcrypt st.authSettings env username password)
      (·.events)
      (fun r => ⟨200, .authTokens "authenticated" r.user.id r.accessToken r.refreshToken⟩)
      fun
        | .invalidCredentials => errorResponse 401 "Invalid username or password"
        | _ => errorResponse 500 "Internal server error"

def loginGoogleHandler (idToken : Bytes) : Handler :=
  if idToken.isEmpty || idToken.length > maxIdTokenLen then
    .ret (errorResponse 422 "ID token is required and must not exceed 16384 characters")
  else if !allowed then
    .ret (errorResponse 429 "Too many login attempts. Please try again later.")
  else
    runAndPublish
      (loginWithGoogle st.jwtService st.bcrypt st.authSettings env st.authProvider idToken)
      (·.events)
      (fun r =>
        ⟨200, .googleAuth "authenticated" r.user.id r.accessToken r.refreshToken r.isNewUser⟩)
      fun
        | .tokenVerificationFailed => errorResponse 401 "Authentication failed"
        | _ => errorResponse 500 "Internal server error"

def refreshTokenHandler (token : Bytes) : Handler :=
  if token.isEmpty || token.length > maxRefreshTokenLen then
    .ret (errorResponse 422 "refresh_token is required and must not exceed 8192 characters")
  else if !allowed then
    .ret (errorResponse 429 "Too many refresh attempts. Please try again later.")
  else
    runAndPublish (refreshToken st.jwtService st.bcrypt st.authSettings env token) (·.events)
      (fun r => ⟨200, .refresh r.accessToken r.refreshToken⟩)
      fun
        | .invalidRefreshToken => errorResponse 401 "Invalid or expired refresh token"
        | .tokenVerificationFailed => errorResponse 401 "Invalid refresh token"
        | .sessionExpired => errorResponse 401 "Session has expired"
        | .sessionInvalidated => errorResponse 401 "Session has expired"
        | .userNotFound => errorResponse 401 "Invalid or expired refresh token"
        | .sessionNotFound => errorResponse 401 "Invalid or expired refresh token"
        | _ => errorResponse 500 "Internal server error"

def logoutHandler (userId sessionId : Uuid) : Handler :=
  runAndPublish (logout env userId sessionId) id (fun _ => ⟨200, .status "logged_out"⟩)
    fun
      | .userNotFound => errorResponse 401 "Authentication required"
      | .sessionNotFound => errorResponse 400 "Invalid session"
      | .sessionInvalidated => errorResponse 400 "Invalid session"
      | .sessionExpired => errorResponse 400 "Invalid session"
      | _ => errorResponse 500 "Internal server error"

end Handlers

/-- The handler of a request. -/
def Call.handle (st : AppState) (c : Call) (allowed : Bool) : Handler :=
  match c.request with
  | .loginWithPassword username password => loginPasswordHandler st c.env allowed username password
  | .loginWithGoogle idToken => loginGoogleHandler st c.env allowed idToken
  | .refreshToken token => refreshTokenHandler st c.env allowed token
  | .logout userId sessionId => logoutHandler c.env userId sessionId

/-! ## The rule for handlers -/

section Rule
variable {st : AppState} {c : Call} {ct : Contract World Op} {i : Nat} {J : World → Prop}
  {Q : Except AuthError Response → World → Prop} {Q' : World → Prop}

theorem wp_runAndPublish {α : Type} {u : UseCase α} {f : α → Response} {ok : α → HttpResponse}
    {err : AuthError → HttpResponse} {w : World} (hu : wp machine ct i (respond f u) Q w)
    (herr : ∀ e w, Q (.error e) w → Q' w)
    (hok : ∀ r w, Q (.ok r) w → wp machine ct i (publishAll r.events) (fun _ => Q') w) :
    wp machine ct i (runAndPublish u (fun a => (f a).events) ok err) (fun _ => Q') w := by
  unfold runAndPublish
  unfold respond at hu
  rw [wp_bind] at hu ⊢
  refine wp_mono ?_ hu
  rintro (e | a) w hQ
  · exact herr e w hQ
  · rw [wp_bind]
    exact hok (f a) w hQ

/-- **The rule for handlers**: what the request has to show, and what publishing its events does. -/
theorem Call.Obligations.wp_handle (h : c.Obligations st ct i J Q) (hreject : ∀ w, J w → Q' w)
    (herr : ∀ e w, Q (.error e) w → Q' w)
    (hok : ∀ r w, Q (.ok r) w → wp machine ct i (publishAll r.events) (fun _ => Q') w)
    (allowed : Bool) {w : World} (hJ : J w) :
    wp machine ct i (c.handle st allowed) (fun _ => Q') w := by
  unfold Call.handle
  split
  · next username password hr =>
      unfold loginPasswordHandler
      split_ifs
      · exact hreject w hJ
      · exact hreject w hJ
      · exact wp_runAndPublish (wp_loginWithPassword h hr hJ) herr hok
  · next idToken hr =>
      unfold loginGoogleHandler
      split_ifs
      · exact hreject w hJ
      · exact hreject w hJ
      · exact wp_runAndPublish (wp_loginWithGoogle h hr hJ) herr hok
  · next token hr =>
      unfold refreshTokenHandler
      split_ifs
      · exact hreject w hJ
      · exact hreject w hJ
      · exact wp_runAndPublish (wp_refreshToken h hr hJ) herr hok
  · next userId sessionId hr => exact wp_runAndPublish (wp_logout h hr hJ) herr hok

end Rule

/-- The handlers of any number of requests, before their first step. -/
def handlers (st : AppState) (calls : Nat → Call) (allowed : Nat → Bool) (w : World) :
    Cfg World Op Res HttpResponse :=
  ⟨w, fun i => (calls i).handle st (allowed i)⟩

end AppHome
