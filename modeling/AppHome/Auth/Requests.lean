import AppHome.Auth.Plans

/-!
# Requests, and everything one of them can do

* `Call` : a request together with what it reads from its surroundings, and `Call.run`, its program;
* `Call.ActsFor` : the user a request acts for;
* `Call.Decides` : the four things a request can decide about the aggregate it loaded. It opens a
  session, rotates the presented one, answers a reused token, or closes a session;
* `Call.Obligations.wp_run` : the rule by which every property of a request is proved. Apart from
  loads, a request performs at most one `create` and one save of something it has decided on an
  aggregate loaded earlier.
-/

namespace AppHome

open Interleave

/-- The parts of `AppState` the use cases are given. -/
structure AppState where
  jwtService : JwtService
  bcrypt : Bcrypt
  authSettings : AuthSettings
  authProvider : AuthProvider

inductive Request where
  | loginWithPassword (username : String) (password : Bytes)
  | loginWithGoogle (idToken : Bytes)
  | refreshToken (token : Bytes)
  | logout (userId sessionId : Uuid)

structure Call where
  env : Env
  request : Request

inductive Response where
  | loginWithPassword (result : LoginResult)
  | loginWithGoogle (result : LoginWithGoogleResult)
  | refreshToken (result : RefreshResult)
  | logout (events : List Event)

/-- The events the handler publishes. -/
def Response.events : Response → List Event
  | .loginWithPassword r => r.events
  | .loginWithGoogle r => r.events
  | .refreshToken r => r.events
  | .logout events => events

abbrev RequestProg := Prog Op Res (Except AuthError Response)

/-- The answer of a use case as the answer of a request. -/
def respond {α : Type} (f : α → Response) (u : UseCase α) : RequestProg :=
  u.run >>= fun r => .ret (r.map f)

section Requests
variable (st : AppState)

def Call.run (c : Call) : RequestProg :=
  match c.request with
  | .loginWithPassword username password => respond .loginWithPassword
      (AppHome.loginWithPassword st.jwtService st.bcrypt st.authSettings c.env username password)
  | .loginWithGoogle idToken => respond .loginWithGoogle
      (AppHome.loginWithGoogle st.jwtService st.bcrypt st.authSettings c.env
        st.authProvider idToken)
  | .refreshToken token => respond .refreshToken
      (AppHome.refreshToken st.jwtService st.bcrypt st.authSettings c.env token)
  | .logout userId sessionId => respond .logout (AppHome.logout c.env userId sessionId)

/-- The claims of the token a refresh presents. -/
def Call.claims (c : Call) : Option RefreshTokenClaims :=
  match c.request with
  | .refreshToken token => (st.jwtService.validateRefreshToken c.env.validateAt token).toOption
  | _ => none

/-- The user a request acts for: the one it names, or the one its credentials belong to. -/
def Call.ActsFor (c : Call) (db : Db) (userId : Uuid) : Prop :=
  match c.request with
  | .loginWithPassword username _ => ∃ u ∈ db.users.rows, u.id = userId ∧ u.username = some username
  | .loginWithGoogle idToken => ∃ info, st.authProvider.verifyIdToken idToken = .ok info ∧
      ∃ u ∈ db.users.rows, u.id = userId ∧ u.email = info.email
  | .refreshToken _ => ∃ claims, c.claims st = some claims ∧ claims.sub = userId
  | .logout id _ => id = userId

theorem Call.ActsFor.mono {c : Call} {db db' : Db} {userId : Uuid} (hle : db.Le db')
    (h : c.ActsFor st db userId) : c.ActsFor st db' userId := by
  unfold Call.ActsFor at h ⊢
  split at h
  · obtain ⟨u, hu, h⟩ := h
    exact ⟨u, hle.users u hu, h⟩
  · obtain ⟨info, hi, u, hu, h⟩ := h
    exact ⟨info, hi, u, hle.users u hu, h⟩
  · exact h
  · exact h

/-! ## Decisions -/

/-- The tokens and the stored hash of a new session of `userId`. -/
structure Call.Mints (c : Call) (userId : Uuid) (tokens : TokenPair)
    (hash : HashedPassword) : Prop where
  generated : st.jwtService.generateTokenPair c.env.mintAt c.env.jti userId c.env.newSessionId =
    .ok tokens
  hashed : hashRefreshToken st.bcrypt st.authSettings c.env tokens.refreshToken = .ok hash

/-- The row-to-be of the session a request creates. -/
def Call.newSession (c : Call) (userId : Uuid) (hash : HashedPassword) (method : AuthMethod) :
    NewSession :=
  ⟨c.env.newSessionId, userId, hash,
    c.env.expiryBase + days st.authSettings.refreshTokenExpiryDays, method⟩

/-- The method of the session a login opens, and its answer. -/
inductive Call.Opens (c : Call) (a : UserAggregate) (tokens : TokenPair) :
    AuthMethod → Response → Prop
  | password {username password} (hr : c.request = .loginWithPassword username password) :
    Opens c a tokens .password (.loginWithPassword (passwordAnswer c.env a tokens))
  | google {idToken} (isNewUser : Bool) (hr : c.request = .loginWithGoogle idToken) :
    Opens c a tokens .googleOAuth (.loginWithGoogle (googleAnswer c.env isNewUser a tokens))

/-- **Everything a request can decide about the aggregate it loaded.** -/
inductive Call.Decides (c : Call) (a : UserAggregate) : Plan Response → Prop
  | opens {tokens hash method answer} (hm : c.Mints st a.user.id tokens hash)
      (hcap : a.activeCount c.env.checkAt < maxActiveSessions)
      (ho : c.Opens (a.push (.userLoggedIn a.user.id c.env.newSessionId method)) tokens
        method answer) :
    Decides c a ⟨a.push (.userLoggedIn a.user.id c.env.newSessionId method),
      [c.newSession st a.user.id hash method], .ok answer⟩
  | rotates {token claims tokens hash s} (hr : c.request = .refreshToken token)
      (hv : c.claims st = some claims) (hu : claims.sub = a.user.id)
      (hm : c.Mints st a.user.id tokens hash)
      (hs : a.sessions.find? (fun s => s.id = claims.sessionId) = some s)
      (hactive : s.isActive = true)
      (hexp : c.env.checkAt 0 < s.expiresAt)
      (htoken : presentedTokenMatches st.bcrypt c.env a claims.sessionId token = .ok true) :
    Decides c a ⟨a.retired claims.sessionId
        (.sessionRefreshed a.user.id c.env.newSessionId s.authMethod),
      [c.newSession st a.user.id hash s.authMethod],
      .ok (.refreshToken (refreshAnswer c.env claims
        (a.retired claims.sessionId (.sessionRefreshed a.user.id c.env.newSessionId s.authMethod))
          tokens))⟩
  | reuses {token claims s} (hr : c.request = .refreshToken token)
      (hv : c.claims st = some claims) (hu : claims.sub = a.user.id)
      (hs : a.sessions.find? (fun s => s.id = claims.sessionId) = some s)
      (hactive : s.isActive = false) :
    Decides c a ⟨a.invalidateAllActiveSessions, [], .error .sessionInvalidated⟩
  | closes {sessionId s} (hr : c.request = .logout a.user.id sessionId)
      (hs : a.sessions.find? (fun s => s.id = sessionId) = some s) (hactive : s.isActive = true)
      (hexp : c.env.checkAt 0 < s.expiresAt) :
    Decides c a ⟨a.retired sessionId (.userLoggedOut a.user.id sessionId s.authMethod), [],
      .ok (.logout
        (a.retired sessionId (.userLoggedOut a.user.id sessionId s.authMethod)).pendingEvents)⟩

/-! ## What the plans are -/

variable {st} {c : Call} {a : UserAggregate}

theorem sessionPlan_inv {α : Type} {method : AuthMethod} {answer : UserAggregate → TokenPair → α}
    {p : Plan α}
    (h : sessionPlan st.jwtService st.bcrypt st.authSettings c.env a method answer = .ok p) :
    ∃ tokens hash, c.Mints st a.user.id tokens hash ∧
      a.activeCount c.env.checkAt < maxActiveSessions ∧
      p = ⟨a.push (.userLoggedIn a.user.id c.env.newSessionId method),
        [c.newSession st a.user.id hash method],
        .ok (answer (a.push (.userLoggedIn a.user.id c.env.newSessionId method)) tokens)⟩ := by
  obtain ⟨tokens, hg, h⟩ := (bind_eq_ok_iff _ _ _).mp h
  obtain ⟨hash, hh, h⟩ := (bind_eq_ok_iff _ _ _).mp h
  obtain ⟨⟨a', ns⟩, ha, h⟩ := (bind_eq_ok_iff _ _ _).mp h
  obtain ⟨hcap, rfl, rfl⟩ := UserAggregate.addSession_ok ha
  cases h
  exact ⟨tokens, hash, ⟨hg, hh⟩, hcap, rfl⟩

theorem passwordPlan_inv {username : String} {password : Bytes} {o : Option UserAggregate}
    {p : Plan LoginResult} (hr : c.request = .loginWithPassword username password)
    (h : passwordPlan st.jwtService st.bcrypt st.authSettings c.env password o = .ok p) :
    ∃ a, o = some a ∧ c.Decides st a
      ⟨p.aggregate, p.newSessions, p.answer.map .loginWithPassword⟩ := by
  obtain ⟨passwordOk, -, h⟩ := (bind_eq_ok_iff _ _ _).mp h
  cases passwordOk with
  | false => cases h
  | true =>
      cases o with
      | none => cases h
      | some a =>
          obtain ⟨tokens, hash, hm, hcap, rfl⟩ := sessionPlan_inv h
          exact ⟨a, rfl, .opens hm hcap (.password hr)⟩

theorem googlePlan_inv {idToken : Bytes} {isNewUser : Bool} {p : Plan LoginWithGoogleResult}
    (hr : c.request = .loginWithGoogle idToken)
    (h : googlePlan st.jwtService st.bcrypt st.authSettings c.env isNewUser a = .ok p) :
    c.Decides st a ⟨p.aggregate, p.newSessions, p.answer.map .loginWithGoogle⟩ := by
  obtain ⟨tokens, hash, hm, hcap, rfl⟩ := sessionPlan_inv h
  exact .opens hm hcap (.google isNewUser hr)

variable (st) in
theorem logoutPlan_inv {sessionId : Uuid} {o : Option UserAggregate} {p : Plan (List Event)}
    (h : logoutPlan c.env sessionId o = .ok p) :
    ∃ a, o = some a ∧ (c.request = .logout a.user.id sessionId →
      c.Decides st a ⟨p.aggregate, p.newSessions, p.answer.map .logout⟩) := by
  cases o with
  | none => cases h
  | some a =>
      obtain ⟨⟨a', m⟩, ha, h⟩ := (bind_eq_ok_iff _ _ _).mp h
      obtain ⟨s, hs, -, hactive, hexp, -, rfl⟩ := UserAggregate.invalidateSession_ok ha
      cases h
      exact ⟨a, rfl, fun hr => .closes hr hs hactive hexp⟩

theorem refreshPlan_inv {token : Bytes} {claims : RefreshTokenClaims} {o : Option UserAggregate}
    {p : Plan RefreshResult} (hr : c.request = .refreshToken token) (hv : c.claims st = some claims)
    (h : refreshPlan st.jwtService st.bcrypt st.authSettings c.env claims token o = .ok p) :
    ∃ a, o = some a ∧ (claims.sub = a.user.id →
      c.Decides st a ⟨p.aggregate, p.newSessions, p.answer.map .refreshToken⟩) := by
  cases o with
  | none => cases h
  | some a =>
      refine ⟨a, rfl, fun hu => ?_⟩
      obtain ⟨tokens, hg, h⟩ := (bind_eq_ok_iff _ _ _).mp h
      obtain ⟨hash, hh, h⟩ := (bind_eq_ok_iff _ _ _).mp h
      obtain ⟨ok, hok, h⟩ := (bind_eq_ok_iff _ _ _).mp h
      rw [hu] at hg
      cases hrot : a.rotateSession (c.env.checkAt 0) claims.sessionId ok c.env.newSessionId hash
          (c.env.expiryBase + days st.authSettings.refreshTokenExpiryDays) with
      | ok q =>
          rw [hrot] at h
          obtain ⟨s, hs, hactive, hexp, rfl, hn, ha⟩ := UserAggregate.rotateSession_ok hrot
          cases h
          rw [hn, ha]
          exact .rotates hr hv hu ⟨hg, hh⟩ hs hactive hexp hok
      | error e =>
          rw [hrot] at h
          cases e
          case sessionInvalidated =>
            obtain ⟨s, hs, hactive⟩ := UserAggregate.rotateSession_invalidated.mp hrot
            cases h
            exact .reuses hr hv hu hs hactive
          all_goals cases h

end Requests

/-! ## The rule -/

/-- Loads, and the creation of a user. -/
def Op.isQuery : Op → Bool
  | .saveAggregate _ _ _ => false
  | .publish _ => false
  | _ => true

/-- What has to be shown of a request: `J` holds up to its save, and `Q` where it answers. An error
may also follow a save that committed. -/
structure Call.Obligations (st : AppState) (c : Call) (ct : Contract World Op) (i : Nat)
    (J : World → Prop) (Q : Except AuthError Response → World → Prop) : Prop where
  le : ∀ {w w'}, ct.rely i w w' → w.Le w'
  rely : ∀ {w w'}, ct.rely i w w' → J w → J w'
  load : ∀ {w o}, J w → o.isQuery = true → ct.guar i w o
  create : ∀ {w u id now user db}, J w → w.db.create u id now = .ok (user, db) → J { w with db }
  error : ∀ {w} e, J w → Q (.error e) w
  save : ∀ {w₀ w a p}, J w₀ → w₀.db.Loads a → c.ActsFor st w₀.db a.user.id → c.Decides st a p →
    ct.rely i w₀ w → ct.guar i w (.saveAggregate p.aggregate p.newSessions c.env.insertAt)
  commit : ∀ {w₀ w a p db}, J w₀ → w₀.db.Loads a → c.ActsFor st w₀.db a.user.id → c.Decides st a p →
    ct.rely i w₀ w → w.db.saveAggregate p.aggregate p.newSessions c.env.insertAt = .ok db →
    Q p.answer { w with db, commits := w.commits ++ [⟨i, p.aggregate, p.newSessions, true⟩] }
  lost : ∀ {w₀ w a p db} e, J w₀ → w₀.db.Loads a → c.ActsFor st w₀.db a.user.id → c.Decides st a p →
    ct.rely i w₀ w → w.db.saveAggregate p.aggregate p.newSessions c.env.insertAt = .ok db →
    Q (.error e) { w with db, commits := w.commits ++ [⟨i, p.aggregate, p.newSessions, false⟩] }

section Rule
variable {st : AppState} {c : Call} {ct : Contract World Op} {i : Nat} {J : World → Prop}
  {Q : Except AuthError Response → World → Prop} (h : c.Obligations st ct i J Q)
include h

theorem wp_commitPlan {α : Type} {f : α → Response} {plan : Except AuthError (Plan α)} {w₀ : World}
    (hJ : J w₀)
    (hp : ∀ p, plan = .ok p → ∃ a, w₀.db.Loads a ∧ c.ActsFor st w₀.db a.user.id ∧
      c.Decides st a ⟨p.aggregate, p.newSessions, p.answer.map f⟩) :
    wp machine ct i (commitPlan c.env.insertAt plan >>= fun r => .ret (r.map f)) Q w₀ := by
  rw [wp_bind]
  cases plan with
  | error e => exact h.error e hJ
  | ok p =>
      obtain ⟨a, hload, hacts, hdec⟩ := hp p rfl
      intro w hw
      refine ⟨h.save hJ hload hacts hdec hw, fun fate => ?_⟩
      rcases w.exec_saveAggregate i p.aggregate p.newSessions c.env.insertAt fate with
        ⟨e, he⟩ | ⟨db, hdb, ⟨-, he⟩ | ⟨e, -, he⟩⟩
      · rw [show machine.exec w i (.saveAggregate p.aggregate p.newSessions c.env.insertAt) fate =
          (.error e, w) from he]
        exact h.error e (h.rely hw hJ)
      · rw [show machine.exec w i (.saveAggregate p.aggregate p.newSessions c.env.insertAt) fate = _
          from he]
        exact h.commit hJ hload hacts hdec hw hdb
      · rw [show machine.exec w i (.saveAggregate p.aggregate p.newSessions c.env.insertAt) fate = _
          from he]
        exact h.lost (.internalError e) hJ hload hacts hdec hw hdb

theorem wp_load {α : Type} {o : Op} {k : Res o → Prog Op Res α} {Q' : α → World → Prop} {w₀ : World}
    (ho : o.isQuery = true) (hstay : ∀ w f, (machine.exec w i o f).2 = w) (hJ : J w₀)
    (hk : ∀ w f, ct.rely i w₀ w → J w → wp machine ct i (k (machine.exec w i o f).1) Q' w) :
    wp machine ct i (.op o k) Q' w₀ := by
  intro w hw
  refine ⟨h.load (h.rely hw hJ) ho, fun f => ?_⟩
  rw [hstay]
  exact hk w f hw (h.rely hw hJ)

theorem wp_logout {userId sessionId : Uuid} (hr : c.request = .logout userId sessionId) {s : World}
    (hJ : J s) : wp machine ct i (respond .logout (logout c.env userId sessionId)) Q s := by
  unfold respond
  rw [logout_run]
  refine wp_load h rfl (fun _ _ => rfl) hJ fun w f _ hJ => wp_commitPlan h hJ fun p hp => ?_
  obtain ⟨o, ho, hp⟩ := (bind_eq_ok_iff _ _ _).mp hp
  obtain ⟨a, rfl, hdec⟩ := logoutPlan_inv st hp
  obtain ⟨rfl, hload⟩ := Db.findAggregateById_some (orFail_ok ho)
  refine ⟨a, hload, ?_, hdec hr⟩
  unfold Call.ActsFor
  rw [hr]

theorem wp_loginWithPassword {username : String} {password : Bytes}
    (hr : c.request = .loginWithPassword username password) {s : World} (hJ : J s) :
    wp machine ct i (respond .loginWithPassword
      (loginWithPassword st.jwtService st.bcrypt st.authSettings c.env username password)) Q s := by
  unfold respond
  rw [loginWithPassword_run]
  refine wp_load h rfl (fun _ _ => rfl) hJ fun w f _ hJ => wp_commitPlan h hJ fun p hp => ?_
  obtain ⟨o, ho, hp⟩ := (bind_eq_ok_iff _ _ _).mp hp
  obtain ⟨a, rfl, hdec⟩ := passwordPlan_inv hr hp
  obtain ⟨⟨u, hu, hname, hrow⟩, hload⟩ := Db.findAggregate_some (orFail_ok ho)
  refine ⟨a, hload, ?_, hdec⟩
  unfold Call.ActsFor
  rw [hr]
  exact ⟨u, hu, (UserRow.intoUser_id hrow).1.symm, of_decide_eq_true hname⟩

theorem wp_refreshToken {token : Bytes} (hr : c.request = .refreshToken token) {s : World}
    (hJ : J s) :
    wp machine ct i (respond .refreshToken
      (refreshToken st.jwtService st.bcrypt st.authSettings c.env token)) Q s := by
  unfold respond
  cases hv : st.jwtService.validateRefreshToken c.env.validateAt token with
  | error e =>
      unfold refreshToken
      rw [Fallible.run_lift_bind, hv]
      exact h.error e hJ
  | ok claims =>
      have hc : c.claims st = some claims := by
        unfold Call.claims
        rw [hr]
        exact congrArg Except.toOption hv
      rw [refreshToken_run _ _ _ _ _ hv]
      refine wp_load h rfl (fun _ _ => rfl) hJ fun w f _ hJ => wp_commitPlan h hJ fun p hp => ?_
      obtain ⟨o, ho, hp⟩ := (bind_eq_ok_iff _ _ _).mp hp
      obtain ⟨a, rfl, hdec⟩ := refreshPlan_inv hr hc hp
      obtain ⟨hid, hload⟩ := Db.findAggregateById_some (orFail_ok ho)
      refine ⟨a, hload, ?_, hdec hid.symm⟩
      unfold Call.ActsFor
      rw [hr]
      exact ⟨claims, hc, hid.symm⟩

theorem wp_created {idToken : Bytes} (hr : c.request = .loginWithGoogle idToken)
    {info : GoogleUserInfo} (hv : st.authProvider.verifyIdToken idToken = .ok info)
    (row : UserRow) (hemail : row.email = info.email) {w₀ : World} (hrow : row ∈ w₀.db.users.rows)
    (hJ : J w₀) :
    wp machine ct i ((.op (.findAggregateById row.id) fun r => commitPlan c.env.insertAt
      (r >>= createdPlan st.jwtService st.bcrypt st.authSettings c.env)) >>=
        fun r => .ret (r.map .loginWithGoogle)) Q w₀ := by
  refine wp_load h rfl (fun _ _ => rfl) hJ fun w f hw hJ => wp_commitPlan h hJ fun p hp => ?_
  obtain ⟨o, ho, hp⟩ := (bind_eq_ok_iff _ _ _).mp hp
  cases o with
  | none => cases hp
  | some a =>
      obtain ⟨hid, hload⟩ := Db.findAggregateById_some (orFail_ok ho)
      refine ⟨a, hload, ?_, googlePlan_inv hr hp⟩
      unfold Call.ActsFor
      rw [hr]
      exact ⟨info, hv, row, (h.le hw).db.users row hrow, hid.symm, hemail⟩

/-- A Google login may create its user before it loads the aggregate. -/
theorem wp_googleRest {idToken : Bytes} (hr : c.request = .loginWithGoogle idToken)
    {info : GoogleUserInfo} (hv : st.authProvider.verifyIdToken idToken = .ok info) {w : World}
    (hJ : J w) {o : Option UserAggregate} (ho : w.db.findAggregateByEmail info.email = .ok o) :
    wp machine ct i (googleRest st.jwtService st.bcrypt st.authSettings c.env info o >>=
      fun r => .ret (r.map .loginWithGoogle)) Q w := by
  cases o with
  | some a =>
      refine wp_commitPlan h hJ fun p hp => ?_
      obtain ⟨⟨u, hu, hmail, hrow⟩, hload⟩ := Db.findAggregate_some ho
      refine ⟨a, hload, ?_, googlePlan_inv hr hp⟩
      unfold Call.ActsFor
      rw [hr]
      exact ⟨info, hv, u, hu, (UserRow.intoUser_id hrow).1.symm, of_decide_eq_true hmail⟩
  | none =>
      unfold googleRest
      cases hm : Email.new info.email with
      | error e => exact h.error _ hJ
      | ok email =>
          intro w hw
          have hJ := h.rely hw hJ
          refine ⟨h.load hJ rfl, fun f => ?_⟩
          rcases w.exec_create i (NewUser.newGoogle email info.name) c.env.newUserId
            c.env.createAt f with
            ⟨e, he⟩ | ⟨user, db, hdb, ⟨-, he⟩ | ⟨e, -, he⟩⟩
          · rw [show machine.exec w i (.create (NewUser.newGoogle email info.name) c.env.newUserId
              c.env.createAt) f = _ from he]
            exact h.error e hJ
          · rw [show machine.exec w i (.create (NewUser.newGoogle email info.name) c.env.newUserId
              c.env.createAt) f = _ from he]
            obtain ⟨-, -, -, hinto⟩ := Db.create_ok hdb
            have hid : user.id = c.env.newUserId := (UserRow.intoUser_id hinto).1
            have hwp := wp_created h hr hv ((NewUser.newGoogle email info.name).row
              c.env.newUserId c.env.createAt) (Email.value_of_new hm) (Db.create_mem hdb)
                (h.create hJ hdb)
            rw [show ((NewUser.newGoogle email info.name).row c.env.newUserId c.env.createAt).id =
              user.id from hid.symm] at hwp
            exact hwp
          · rw [show machine.exec w i (.create (NewUser.newGoogle email info.name) c.env.newUserId
              c.env.createAt) f = _ from he]
            exact h.error (.internalError e) (h.create hJ hdb)

theorem wp_loginWithGoogle {idToken : Bytes} (hr : c.request = .loginWithGoogle idToken) {s : World}
    (hJ : J s) :
    wp machine ct i
      (respond .loginWithGoogle
        (loginWithGoogle st.jwtService st.bcrypt st.authSettings c.env st.authProvider idToken))
      Q s := by
  unfold respond
  cases hv : st.authProvider.verifyIdToken idToken with
  | error e =>
      unfold loginWithGoogle
      rw [Fallible.run_lift_bind, hv]
      exact h.error e hJ
  | ok info =>
      rw [loginWithGoogle_run _ _ _ _ _ _ hv]
      refine wp_load h rfl (fun _ _ => rfl) hJ fun w f _ hJ => ?_
      cases ho : (machine.exec w i (.findAggregateByEmail info.email) f).1 with
      | error e => exact h.error e hJ
      | ok o => exact wp_googleRest h hr hv hJ (orFail_ok ho)

/-- **The rule for requests.** -/
theorem Call.Obligations.wp_run {s : World} (hJ : J s) : wp machine ct i (c.run st) Q s := by
  unfold Call.run
  split
  · next hr => exact wp_loginWithPassword h hr hJ
  · next hr => exact wp_loginWithGoogle h hr hJ
  · next hr => exact wp_refreshToken h hr hJ
  · next hr => exact wp_logout h hr hJ

end Rule

/-! ## Any number of requests side by side -/

abbrev Config := Cfg World Op Res (Except AuthError Response)

/-- The requests before their first step. -/
def system (st : AppState) (calls : Nat → Call) (w : World) : Config :=
  ⟨w, fun i => (calls i).run st⟩

section System
variable {st : AppState} {calls : Nat → Call} {guar : Nat → World → Op → Prop} {J : World → Prop}
  {Q : Nat → Except AuthError Response → World → Prop} {g : Config → Label Fate Consume → Prop}
  (hob : ∀ i, (calls i).Obligations st (sharedContract guar) i J (Q i))
  (hQ : ∀ i r w w', w.Le w' → Q i r w → Q i r w')
  {w : World} (hJ : J w) {l : List (Label Fate Consume)}
  (hl : machine.Along g (system st calls w) l)
include hob hQ hJ hl

/-- A request that has answered meets its postcondition, whatever the schedule. -/
theorem system_post {i : Nat} {r : Except AuthError Response}
    (hi : (machine.run (system st calls w) l).thread i = .ret r) :
    Q i r (machine.run (system st calls w) l).shared :=
  run_post (sharedContract_sound guar) hQ (fun _ c e _ => c.shared.consume_le e) hl
    (fun i => (hob i).wp_run hJ) hi

theorem system_guar {i : Nat} {o : Op} {k : Res o → RequestProg}
    (hi : (machine.run (system st calls w) l).thread i = .op o k) :
    guar i (machine.run (system st calls w) l).shared o :=
  run_guar (sharedContract_sound guar) hQ (fun _ c e _ => c.shared.consume_le e) hl
    (fun i => (hob i).wp_run hJ) hi

/-- An invariant of the shared state, from operations that keep their promise and the consumer. -/
theorem system_shared (I : World → Prop)
    (hop : ∀ {c : Config} {i o k f}, c.thread i = .op o k → g c (.run i f) → guar i c.shared o →
      I c.shared → I (c.shared.exec i o f).2)
    (hmove : ∀ {w : World} {e}, I w → I (w.consume e)) (hI : I w) :
    I (machine.run (system st calls w) l).shared :=
  run_shared (sharedContract_sound guar) hQ (fun _ c e _ => c.shared.consume_le e) hop
    (fun _ => hmove) hl (fun i => (hob i).wp_run hJ) hI

end System

/-! ## A small instance

Services simple enough to run by hand: a refresh token is the two ids it is for, in unary, and a
hash is the token itself in readable form. -/

def plainHash (b : Bytes) : String := String.ofList ('$' :: b.map fun x => Char.ofNat x.toNat)

def plainToken (userId sessionId : Uuid) : Bytes :=
  List.replicate userId.toNat 0 ++ 1 :: List.replicate sessionId.toNat 0

def plainJwt : JwtService where
  generateTokenPair := fun _ _ userId sessionId => .ok ⟨[], plainToken userId sessionId⟩
  validateAccessToken := fun _ _ => .error .tokenVerificationFailed
  validateRefreshToken := fun _ token =>
    match token.dropWhile (· = 0) with
    | 1 :: rest =>
      .ok ⟨.ofNat 128 (token.takeWhile (· = 0)).length, .ofNat 128 rest.length, [], [], 0, 0⟩
    | _ => .error .tokenVerificationFailed

def plainBcrypt : Bcrypt := ⟨fun _ b _ => .ok (plainHash b), fun b h => .ok (h = plainHash b)⟩

def plainState : AppState :=
  ⟨plainJwt, plainBcrypt, ⟨7, 4⟩, ⟨fun _ => .error .tokenVerificationFailed⟩⟩

/-- A request whose clock stands at `now` and that draws `newSessionId`. -/
def plainEnv (newSessionId : Uuid) (now : Instant) : Env :=
  ⟨now, newSessionId, 0, now, now, [], .completed, .completed, fun _ => now, fun _ => now, 2, now⟩

/-- An active session of user `1`, with its own token, that lives until `expiresAt`. -/
def plainSession (id : Uuid) (expiresAt : Instant) : SessionRow :=
  ⟨id, 1, plainHash (plainToken 1 id), expiresAt, true, 0, "password"⟩

/-- User `1` with the session `7`. -/
def plainDb : Db where
  users :=
    ⟨[⟨1, some "jdoe", "jdoe@example.org", "J", some (plainHash [0]), "local", 0, 0⟩], by decide⟩
  sessions := ⟨[plainSession 7 1000], by decide⟩

end AppHome
