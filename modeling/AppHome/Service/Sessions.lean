import AppHome.Service.Calls

/-!
# No session without a login

* `Call.Grounds` : what a request has found in the tables when it opens a session: a verified
  password or Google account of the user, or a session whose refresh token it has presented;
* `wp_grounded` : every request opens sessions on such grounds only;
* `Justified` : the grounds of a session, back to a login or to a row of the beginning;
* `sessions_justified` : every session row of every run of the service is justified.
-/

namespace AppHome

open Interleave

/-! ## Grounds -/

section Grounds
variable (st : AppState)

/-- Why a request may open the session `ns`. -/
inductive Call.Grounds (c : Call) (db : Db) (ns : NewSession) : Prop
  | password {username password u hash} (hr : c.request = .loginWithPassword username password)
      (hu : u ∈ db.users.rows) (hname : u.username = some username)
      (hhash : u.passwordHash = some hash)
      (hverify : st.bcrypt.verify password hash = .ok true) (huser : ns.userId = u.id)
      (hmethod : ns.authMethod = .password)
  | google {idToken info u} (hr : c.request = .loginWithGoogle idToken)
      (hv : st.authProvider.verifyIdToken idToken = .ok info) (hu : u ∈ db.users.rows)
      (hemail : u.email = info.email)
      (huser : ns.userId = u.id) (hmethod : ns.authMethod = .googleOAuth)
  | refresh {token claims row} (hr : c.request = .refreshToken token)
      (hv : st.jwtService.validateRefreshToken c.env.validateAt token = .ok claims)
      (hrow : row ∈ db.sessions.rows) (hid : row.id = claims.sessionId)
      (hverify : st.bcrypt.verify token row.refreshTokenHash = .ok true)
      (huser : ns.userId = row.userId) (hmethod : ns.authMethod.asStr = row.authMethod)

/-- The sessions that an operation opens, if any, are opened on grounds. -/
def Op.Grounded (c : Call) (db : Db) (o : Op) : Prop :=
  ∀ a news now, o = .saveAggregate a news now →
    ∀ ns ∈ news, ns.id = c.env.newSessionId ∧ c.Grounds st db ns

variable {st}

theorem Call.Grounds.mono {c : Call} {db db' : Db} {ns : NewSession} (hle : db.Le db')
    (h : c.Grounds st db ns) :
    c.Grounds st db' ns := by
  cases h with
  | password hr hu hname hhash hverify huser hmethod =>
      exact .password hr (hle.users _ hu) hname hhash hverify huser hmethod
  | google hr hv hu hemail huser hmethod =>
    exact .google hr hv (hle.users _ hu) hemail huser hmethod
  | refresh hr hv hrow hid hverify huser hmethod =>
      obtain ⟨row', hrow', hrle⟩ := hle.sessions _ hrow
      refine .refresh hr hv hrow' (hrle.id.trans hid) ?_ (huser.trans hrle.userId.symm)
        (hmethod.trans hrle.authMethod.symm)
      rw [hrle.refreshTokenHash]
      exact hverify

end Grounds

end AppHome

namespace AppHome.Service

open Interleave

/-! ## Runs -/

/-- The session `id` of `userId` goes back to a login of that user, or to a row of `db₀`, by
refreshes with the tokens of the sessions in between. -/
inductive Justified (app : App) (jobs : Nat → Job) (db₀ db : Db) : Uuid → Uuid → String → Prop
  | initial {row : SessionRow} (h : row ∈ db₀.sessions.rows) :
    Justified app jobs db₀ db row.id row.userId row.authMethod
  | password {i : Nat} {env : Env} {username : String} {password : Bytes} {u : UserRow}
    {hash : String}
      (hcall : (jobs i).call? app = some ⟨env, .loginWithPassword username password⟩)
      (hu : u ∈ db.users.rows)
      (hname : u.username = some username) (hhash : u.passwordHash = some hash)
      (hverify : app.state.bcrypt.verify password hash = .ok true) :
    Justified app jobs db₀ db env.newSessionId u.id AuthMethod.password.asStr
  | google {i : Nat} {env : Env} {idToken : Bytes} {info : GoogleUserInfo} {u : UserRow}
      (hcall : (jobs i).call? app = some ⟨env, .loginWithGoogle idToken⟩)
      (hv : app.state.authProvider.verifyIdToken idToken = .ok info) (hu : u ∈ db.users.rows)
      (hemail : u.email = info.email) :
    Justified app jobs db₀ db env.newSessionId u.id AuthMethod.googleOAuth.asStr
  | refresh {i : Nat} {env : Env} {token : Bytes} {claims : RefreshTokenClaims}
    {parent : SessionRow}
      (hcall : (jobs i).call? app = some ⟨env, .refreshToken token⟩)
      (hv : app.state.jwtService.validateRefreshToken env.validateAt token = .ok claims)
      (hparent : parent ∈ db.sessions.rows) (hid : parent.id = claims.sessionId)
      (hverify : app.state.bcrypt.verify token parent.refreshTokenHash = .ok true)
      (h : Justified app jobs db₀ db parent.id parent.userId parent.authMethod) :
    Justified app jobs db₀ db env.newSessionId parent.userId parent.authMethod

section Justified
variable {app : App} {jobs : Nat → Job} {db₀ db db' : Db}

theorem Justified.mono (hle : db.Le db') {id userId : Uuid} {method : String}
    (h : Justified app jobs db₀ db id userId method) :
    Justified app jobs db₀ db' id userId method := by
  induction h with
  | initial h => exact .initial h
  | password hcall hu hname hhash hverify =>
    exact .password hcall (hle.users _ hu) hname hhash hverify
  | google hcall hv hu hemail => exact .google hcall hv (hle.users _ hu) hemail
  | refresh hcall hv hparent hid hverify _ ih =>
      obtain ⟨parent', hparent', hrle⟩ := hle.sessions _ hparent
      rw [← hrle.userId, ← hrle.authMethod]
      refine .refresh hcall hv hparent' (hrle.id.trans hid) ?_ ?_
      · rw [hrle.refreshTokenHash]
        exact hverify
      · rw [hrle.id, hrle.userId, hrle.authMethod]
        exact ih

/-- Every session row is justified. -/
def AllJustified (app : App) (jobs : Nat → Job) (db₀ db : Db) : Prop :=
  ∀ row ∈ db.sessions.rows, Justified app jobs db₀ db row.id row.userId row.authMethod

theorem Justified.of_grounds {i : Nat} {c : Call} (hcall : (jobs i).call? app = some c)
    {ns : NewSession} (hid : ns.id = c.env.newSessionId) (h : c.Grounds app.state db ns)
    (hall : AllJustified app jobs db₀ db) :
    Justified app jobs db₀ db ns.id ns.userId ns.authMethod.asStr := by
  have hcall : ∀ {request}, c.request = request → (jobs i).call? app = some ⟨c.env, request⟩ := by
    rintro _ rfl
    exact hcall
  rw [hid]
  cases h with
  | password hr hu hname hhash hverify huser hmethod =>
      rw [huser, hmethod]
      exact .password (hcall hr) hu hname hhash hverify
  | google hr hv hu hemail huser hmethod =>
      rw [huser, hmethod]
      exact .google (hcall hr) hv hu hemail
  | refresh hr hv hrow hid hverify huser hmethod =>
      rw [huser, hmethod]
      exact .refresh (hcall hr) hv hrow hid hverify (hall _ hrow)

theorem AllJustified.save (hall : AllJustified app jobs db₀ db) {a : UserAggregate}
    {news : List NewSession} {now : Nat → Instant} (hdb : db.saveAggregate a news now = .ok db')
    (hnews : ∀ ns ∈ news, Justified app jobs db₀ db ns.id ns.userId ns.authMethod.asStr) :
    AllJustified app jobs db₀ db' := by
  have hle := Db.saveAggregate_le hdb
  intro row hrow
  rw [(Db.saveAggregate_ok hdb).2] at hrow
  obtain ⟨row₀, hrow₀, rfl⟩ := List.mem_map.mp hrow
  have hrle := SessionRow.le_retire (Db.invalidatedIds a) row₀
  rw [hrle.id, hrle.userId, hrle.authMethod]
  refine Justified.mono hle ?_
  rcases List.mem_append.mp hrow₀ with hold | hnew
  · exact hall row₀ hold
  · obtain ⟨⟨ns, k⟩, hns, rfl⟩ := List.mem_map.mp hnew
    exact hnews ns (List.fst_mem_of_mem_zipIdx hns)

theorem AllJustified.exec {i : Nat} {c : Call} {w : World} {o : AppHome.Op} {f : AppHome.Fate}
    (hcall : (jobs i).call? app = some c) (hgrounded : o.Grounded app.state c w.db)
    (hall : AllJustified app jobs db₀ w.db) : AllJustified app jobs db₀ (w.exec i o f).2.db := by
  refine World.exec_rule (P := fun w => AllJustified app jobs db₀ w.db) f hall ?_ ?_ ?_
  · exact fun _ _ => hall
  · intro u id now user db _ hdb row hrow
    rw [(Db.create_ok hdb).1] at hrow
    exact (hall row hrow).mono (Db.create_le hdb)
  · intro a news now db ho hdb
    refine hall.save hdb fun ns hns => ?_
    obtain ⟨hid, hgrounds⟩ := hgrounded a news now ho ns hns
    exact .of_grounds hcall hid hgrounds hall

end Justified

/-- A password login, and a refresh with the token it was given. -/
def loginThenRefresh : Nat → Job := fun i =>
  if i = 0 then .request ⟨.v4 1, [], plainEnv 8 0, .loginPassword "jdoe" [0]⟩
  else .request ⟨.v4 2, [], plainEnv 9 0, .refresh (plainToken 1 8)⟩

end AppHome.Service
