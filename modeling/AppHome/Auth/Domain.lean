import AppHome.Shared.Values

/-!
# The `auth` domain: sessions, users and the user aggregate

`UserAggregate` is a user with the session rows a load found, the events it has collected, and the
four operations the use cases perform on it:

* `addSession` : refused at `maxActiveSessions` live sessions;
* `invalidateSession` : logout of one session;
* `rotateSession` : found, active, unexpired, token matches, in that order;
* `invalidateAllActiveSessions` : the answer to a reused refresh token.

`is_expired` reads the clock at every call, so an operation that calls it takes the readings as an
argument.
-/

namespace AppHome

inductive AuthError where
  | invalidCredentials
  | userNotFound
  | tokenVerificationFailed
  | sessionNotFound
  | sessionExpired
  | sessionInvalidated
  | invalidRefreshToken
  | rateLimited
  | tokenGenerationFailed
  | internalError (message : String)
  deriving DecidableEq

/-! ## Entities -/

structure Session where
  id : Uuid
  userId : Uuid
  refreshTokenHash : HashedPassword
  expiresAt : Instant
  isActive : Bool
  createdAt : Instant
  authMethod : AuthMethod

structure NewSession where
  id : Uuid
  userId : Uuid
  refreshTokenHash : HashedPassword
  expiresAt : Instant
  authMethod : AuthMethod

def Session.isExpired (s : Session) (now : Instant) : Bool := s.expiresAt ≤ now

def Session.invalidate (s : Session) : Session := { s with isActive := false }

structure User where
  id : Uuid
  username : Option String
  email : Email
  displayName : String
  passwordHash : Option HashedPassword
  authProvider : AuthProviderKind
  createdAt : Instant
  updatedAt : Instant

structure NewUser where
  username : Option String
  email : Email
  displayName : String
  passwordHash : Option HashedPassword
  authProvider : AuthProviderKind

def NewUser.newGoogle (email : Email) (displayName : String) : NewUser :=
  ⟨none, email, displayName, none, .google⟩

/-! ## The aggregate -/

def maxActiveSessions : Nat := 25

structure UserAggregate where
  user : User
  sessions : List Session
  pendingEvents : List Event

namespace UserAggregate

def new (user : User) (sessions : List Session) : UserAggregate := ⟨user, sessions, []⟩

/-- The sessions the cap counts. The `i`th one is compared with the `i`th clock reading. -/
def activeCount (a : UserAggregate) (now : Nat → Instant) : Nat :=
  (a.sessions.zipIdx.filter fun p => p.1.isActive && !p.1.isExpired (now p.2)).length

/-- `sessions.iter_mut().find(..)` followed by `invalidate`: the first session with this id. -/
def invalidateFirst (sessionId : Uuid) : List Session → List Session
  | [] => []
  | s :: ss => if s.id = sessionId then s.invalidate :: ss else s :: invalidateFirst sessionId ss

/-- `pending_events.push`. -/
def push (a : UserAggregate) (e : Event) : UserAggregate :=
  { a with pendingEvents := a.pendingEvents ++ [e] }

/-- The session found made inactive, and the event pushed for it. -/
def retired (a : UserAggregate) (sessionId : Uuid) (e : Event) : UserAggregate :=
  { a.push e with sessions := invalidateFirst sessionId a.sessions }

def addSession (a : UserAggregate) (now : Nat → Instant) (sessionId : Uuid)
    (refreshTokenHash : HashedPassword) (expiresAt : Instant) (authMethod : AuthMethod) :
    Except AuthError (UserAggregate × NewSession) :=
  if a.activeCount now ≥ maxActiveSessions then
    .error (.internalError "maximum active sessions reached")
  else
    .ok (a.push (.userLoggedIn a.user.id sessionId authMethod),
      ⟨sessionId, a.user.id, refreshTokenHash, expiresAt, authMethod⟩)

def invalidateSession (a : UserAggregate) (now : Instant) (sessionId : Uuid) :
    Except AuthError (UserAggregate × AuthMethod) :=
  match a.sessions.find? fun s => s.id = sessionId with
  | none => .error .sessionNotFound
  | some session =>
    if session.userId ≠ a.user.id then .error .sessionNotFound
    else if !session.isActive then .error .sessionInvalidated
    else if session.isExpired now then .error .sessionExpired
    else
      .ok (a.retired sessionId (.userLoggedOut a.user.id sessionId session.authMethod),
        session.authMethod)

def rotateSession (a : UserAggregate) (now : Instant) (sessionId : Uuid) (tokenMatches : Bool)
    (newSessionId : Uuid) (newRefreshHash : HashedPassword) (expiresAt : Instant) :
    Except AuthError (UserAggregate × NewSession) :=
  match a.sessions.find? fun s => s.id = sessionId with
  | none => .error .sessionNotFound
  | some session =>
    if !session.isActive then .error .sessionInvalidated
    else if session.isExpired now then .error .sessionExpired
    else if !tokenMatches then .error .invalidRefreshToken
    else
      .ok (a.retired sessionId (.sessionRefreshed a.user.id newSessionId session.authMethod),
        ⟨newSessionId, a.user.id, newRefreshHash, expiresAt, session.authMethod⟩)

/-- The sessions after the loop, and the events it pushed. -/
def invalidateAll (userId : Uuid) : List Session → List Session × List Event
  | [] => ([], [])
  | s :: ss =>
    let rest := invalidateAll userId ss
    if s.isActive then (s.invalidate :: rest.1, .userLoggedOut userId s.id s.authMethod :: rest.2)
    else (s :: rest.1, rest.2)

def invalidateAllActiveSessions (a : UserAggregate) : UserAggregate :=
  { a with
    sessions := (invalidateAll a.user.id a.sessions).1
    pendingEvents := a.pendingEvents ++ (invalidateAll a.user.id a.sessions).2 }

def takeEvents (a : UserAggregate) : List Event × UserAggregate :=
  (a.pendingEvents, { a with pendingEvents := [] })

/-! ### What the operations do -/

theorem find_session {l : List Session} {sid : Uuid} {s : Session}
    (h : l.find? (fun s => s.id = sid) = some s) : s ∈ l ∧ s.id = sid :=
  ⟨List.mem_of_find?_eq_some h, by simpa using List.find?_some h⟩

/-- A rotation that goes through found the session active, unexpired and with its own token. -/
theorem rotateSession_ok {a a' : UserAggregate} {now : Instant} {sid : Uuid} {tm : Bool}
    {nid : Uuid} {h : HashedPassword} {e : Instant} {ns : NewSession}
    (hr : a.rotateSession now sid tm nid h e = .ok (a', ns)) :
    ∃ s, a.sessions.find? (fun s => s.id = sid) = some s ∧ s.isActive = true ∧ now < s.expiresAt ∧
      tm = true ∧ ns = ⟨nid, a.user.id, h, e, s.authMethod⟩ ∧
      a' = a.retired sid (.sessionRefreshed a.user.id nid s.authMethod) := by
  unfold rotateSession at hr
  split at hr
  · cases hr
  · rename_i s hs
    split_ifs at hr with h1 h2 h3
    cases hr
    refine ⟨s, hs, by simpa using h1, ?_, by simpa using h3, rfl, rfl⟩
    simpa [Session.isExpired] using h2

/-- The only way to `SessionInvalidated` is an inactive session with the presented id. -/
theorem rotateSession_invalidated {a : UserAggregate} {now : Instant} {sid : Uuid} {tm : Bool}
    {nid : Uuid} {h : HashedPassword} {e : Instant} :
    a.rotateSession now sid tm nid h e = .error .sessionInvalidated ↔
      ∃ s, a.sessions.find? (fun s => s.id = sid) = some s ∧ s.isActive = false := by
  unfold rotateSession
  constructor
  · intro hr
    split at hr
    · cases hr
    · rename_i s hs
      split_ifs at hr with h1 h2 h3
      · exact ⟨s, hs, by simpa using h1⟩
      · cases hr
      · cases hr
  · rintro ⟨s, hs, hi⟩
    rw [hs]
    simp [hi]

theorem addSession_ok {a a' : UserAggregate} {now : Nat → Instant} {sid : Uuid} {h : HashedPassword}
    {e : Instant} {am : AuthMethod} {ns : NewSession}
    (hr : a.addSession now sid h e am = .ok (a', ns)) :
    a.activeCount now < maxActiveSessions ∧ ns = ⟨sid, a.user.id, h, e, am⟩ ∧
      a' = a.push (.userLoggedIn a.user.id sid am) := by
  unfold addSession at hr
  split_ifs at hr with hc
  cases hr
  exact ⟨by omega, rfl, rfl⟩

theorem invalidateSession_ok {a a' : UserAggregate} {now : Instant} {sid : Uuid} {am : AuthMethod}
    (hr : a.invalidateSession now sid = .ok (a', am)) :
    ∃ s, a.sessions.find? (fun s => s.id = sid) = some s ∧ s.userId = a.user.id ∧
      s.isActive = true ∧ now < s.expiresAt ∧ am = s.authMethod ∧
      a' = a.retired sid (.userLoggedOut a.user.id sid s.authMethod) := by
  unfold invalidateSession at hr
  split at hr
  · cases hr
  · rename_i s hs
    split_ifs at hr with h0 h1 h2
    cases hr
    refine ⟨s, hs, by simpa using h0, by simpa using h1, ?_, rfl, rfl⟩
    simpa [Session.isExpired] using h2

/-! ### Which sessions come out inactive -/

theorem mem_invalidateFirst {sid : Uuid} {l : List Session} {s : Session}
    (hs : s ∈ invalidateFirst sid l) :
    s ∈ l ∨ s.id = sid ∧ s.isActive = false ∧ ∃ t ∈ l, t.id = sid := by
  induction l with
  | nil => cases hs
  | cons t l ih =>
      unfold invalidateFirst at hs
      split_ifs at hs with h
      · rcases List.mem_cons.mp hs with rfl | hs
        · exact Or.inr ⟨h, rfl, t, List.mem_cons_self, h⟩
        · exact Or.inl (List.mem_cons_of_mem t hs)
      · rcases List.mem_cons.mp hs with rfl | hs
        · exact Or.inl List.mem_cons_self
        · rcases ih hs with hs | ⟨h1, h2, u, hu, hid⟩
          · exact Or.inl (List.mem_cons_of_mem t hs)
          · exact Or.inr ⟨h1, h2, u, List.mem_cons_of_mem t hu, hid⟩

theorem exists_invalidateFirst {sid : Uuid} {l : List Session} {s : Session} (hs : s ∈ l)
    (hid : s.id = sid) : ∃ t ∈ invalidateFirst sid l, t.id = sid ∧ t.isActive = false := by
  induction l with
  | nil => cases hs
  | cons t l ih =>
      unfold invalidateFirst
      split_ifs with h
      · exact ⟨t.invalidate, List.mem_cons_self, h, rfl⟩
      · rcases List.mem_cons.mp hs with rfl | hs
        · exact absurd hid h
        · obtain ⟨u, hu, hu'⟩ := ih hs
          exact ⟨u, List.mem_cons_of_mem t hu, hu'⟩

theorem invalidateAll_fst (userId : Uuid) (l : List Session) :
    (invalidateAll userId l).1 = l.map Session.invalidate := by
  induction l with
  | nil => rfl
  | cons s l ih =>
      unfold invalidateAll
      rw [List.map_cons, ← ih]
      by_cases h : s.isActive = true
      · rw [if_pos h]
      · have hs : s.invalidate = s := by
          cases s
          simp_all [Session.invalidate]
        rw [if_neg h, hs]

end UserAggregate

end AppHome
