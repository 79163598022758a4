import AppHome.Auth.Failures
import AppHome.Auth.Jwt
import AppHome.Auth.Tokens

/-!
# Which refresh token rotates a session

A session row keeps the bcrypt hash of the refresh token it was issued with. bcrypt reads 72 bytes
of it, which end inside the user's id, so the hash matches every refresh token of the user.

* `presentedTokenMatches_of_issued` : the comparison never tells two tokens of a user apart;
* `refresh_takes_any_token` : a refresh that presents any validated token naming the session is
  never answered with `InvalidRefreshToken`, and rotates an active session.
-/

namespace AppHome

open Interleave

theorem rotateSession_ne_invalid (a : UserAggregate) (now : Instant) (sid nid : Uuid)
    (h : HashedPassword) (e : Instant) :
    a.rotateSession now sid true nid h e ≠ .error .invalidRefreshToken := by
  unfold UserAggregate.rotateSession
  split
  · simp
  · split_ifs <;> simp_all

/-! ## The comparison -/

section Issued
variable {svc : JwtServiceImpl} {st : AppState} {g : Grant} {token : Bytes}
  {claims : RefreshTokenClaims}

/-- The stored hash matches every token the service accepts for the user. -/
theorem verify_of_issued (hsvc : svc.Formatted) (hst : st.jwtService = svc.service)
    (hbcrypt : st.bcrypt.Truncating) {salt : Bytes} {cost : Nat} {hash : String}
    (hminted : ∃ now jti tokens, st.jwtService.generateTokenPair now jti g.userId g.sessionId =
      .ok tokens ∧ tokens.refreshToken = g.refreshToken)
    (hhash : st.bcrypt.hash salt g.refreshToken cost = .ok hash) {now : Instant}
    (hv : st.jwtService.validateRefreshToken now token = .ok claims)
    (hsub : claims.sub = g.userId) :
    st.bcrypt.verify token hash = .ok true := by
  obtain ⟨now', jti, tokens, hgen, htok⟩ := hminted
  rw [hst] at hv hgen
  obtain ⟨signature, hform⟩ := hsvc.refresh (JwtServiceImpl.refreshClaims_of_valid hv)
  obtain ⟨signature', hissued⟩ := JwtServiceImpl.refreshToken_of_generated hgen
  refine hbcrypt.verify hhash ?_
  rw [hform, ← htok, hissued]
  exact take_refreshToken hsub ..

theorem presentedTokenMatches_of_issued {env : Env} {a : UserAggregate} {s : Session}
    (hs : a.sessions.find? (fun s => s.id = claims.sessionId) = some s)
    (hverify : st.bcrypt.verify token s.refreshTokenHash.value = .ok true) :
    presentedTokenMatches st.bcrypt env a claims.sessionId token =
      (runBounded env.verifyTask (.ok true : Except String Bool)).bind fun _ => .ok true := by
  unfold presentedTokenMatches
  rw [hs]
  simp only [hverify]
  cases env.verifyTask <;> rfl

/-! ## The refresh -/

theorem Db.saveAggregate_fresh {db : Db} {a : UserAggregate} {s : NewSession} {now : Nat → Instant}
    (hu : ∃ u ∈ db.users.rows, u.id = s.userId) (hs : ∀ r ∈ db.sessions.rows, r.id ≠ s.id) :
    ∃ db', db.saveAggregate a [s] now = .ok db' := by
  obtain ⟨u, hu, huid⟩ := hu
  have hfind : db.users.find? s.userId = some u := Table.find?_eq_some.mpr ⟨hu, huid⟩
  obtain ⟨sessions, hi, -⟩ := Table.insert?_of_fresh (r := s.row (now 0)) hs
  simp [Db.saveAggregate, Db.insertSessions, Db.insertSession, hfind, hi, bind, Except.bind,
    pure, Except.pure]

/-- Whatever a refresh decides once the stored hash matches, it is not `InvalidRefreshToken`. -/
theorem refreshPlan_ne_invalid (hst : st.jwtService = svc.service) {env : Env} {a : UserAggregate}
    {s : Session} (hs : a.sessions.find? (fun s => s.id = claims.sessionId) = some s)
    (hverify : st.bcrypt.verify token s.refreshTokenHash.value = .ok true) :
    refreshPlan st.jwtService st.bcrypt st.authSettings env claims token (some a) ≠
      .error .invalidRefreshToken := by
  refine bind_ne_error (fun hgen => ?_) fun tokens _ => ?_
  · rw [hst] at hgen
    cases JwtServiceImpl.generateTokenPair_error hgen
  refine bind_ne_error
    (hashRefreshToken_ne AuthError.specific_invalidRefreshToken (by simp) _ _ _ _) fun hash _ => ?_
  rw [presentedTokenMatches_of_issued hs hverify]
  have hbounded := runBounded_ne AuthError.specific_invalidRefreshToken env.verifyTask
    (.ok true : Except String Bool)
  refine bind_ne_error (bind_ne_error hbounded fun _ _ => by simp) fun ok hok => ?_
  obtain ⟨-, -, hok⟩ := (bind_eq_ok_iff _ _ _).mp hok
  cases hok
  split
  · simp [pure, Except.pure]
  · simp [pure, Except.pure]
  · next e _ he =>
      rintro ⟨⟩
      exact rotateSession_ne_invalid _ _ _ _ _ _ he

theorem refreshPlan_answer_ne_invalid {env : Env} {o : Option UserAggregate}
    {p : Plan RefreshResult}
    (h : refreshPlan st.jwtService st.bcrypt st.authSettings env claims token o = .ok p) :
    p.answer.map Response.refreshToken ≠ .error .invalidRefreshToken := by
  rcases o with _ | a
  · cases h
  obtain ⟨tokens, -, h⟩ := (bind_eq_ok_iff _ _ _).mp h
  obtain ⟨hash, -, h⟩ := (bind_eq_ok_iff _ _ _).mp h
  obtain ⟨ok, -, h⟩ := (bind_eq_ok_iff _ _ _).mp h
  split at h
  · cases h
    simp [Except.map]
  · cases h
    simp [Except.map]
  · cases h

theorem refreshPlan_rotates {c : Call} {a : UserAggregate} {s : Session} {tokens : TokenPair}
    {hash : HashedPassword} (hs : a.sessions.find? (fun s => s.id = claims.sessionId) = some s)
    (hverify : st.bcrypt.verify token s.refreshTokenHash.value = .ok true)
    (hactive : s.isActive = true) (hexp : c.env.checkAt 0 < s.expiresAt)
    (hm : c.Mints st claims.sub tokens hash) (htask : c.env.verifyTask = .completed) :
    ∃ answer, refreshPlan st.jwtService st.bcrypt st.authSettings c.env claims token (some a) =
      .ok ⟨a.retired claims.sessionId (.sessionRefreshed a.user.id c.env.newSessionId s.authMethod),
        [c.newSession st a.user.id hash s.authMethod], .ok answer⟩ := by
  have hok : presentedTokenMatches st.bcrypt c.env a claims.sessionId token = .ok true := by
    rw [presentedTokenMatches_of_issued hs hverify, htask]
    rfl
  have hlive : s.isExpired (c.env.checkAt 0) = false := by simpa [Session.isExpired] using hexp
  have hrot : a.rotateSession (c.env.checkAt 0) claims.sessionId true c.env.newSessionId hash
      (c.env.expiryBase + days st.authSettings.refreshTokenExpiryDays) =
      .ok (a.retired claims.sessionId (.sessionRefreshed a.user.id c.env.newSessionId s.authMethod),
        c.newSession st a.user.id hash s.authMethod) := by
    unfold UserAggregate.rotateSession
    rw [hs]
    simp [hactive, hlive, Call.newSession]
  unfold refreshPlan
  simp only [hm.generated, hm.hashed, hok, hrot, bind, Except.bind]
  exact ⟨_, rfl⟩

/-- The session a loaded user has under an issued token's session id: its hash matches every
accepted token. -/
theorem exists_session_of_issued (hsvc : svc.Formatted) (hst : st.jwtService = svc.service)
    (hbcrypt : st.bcrypt.Truncating) {db : Db} (hg : Issued st db g) {now : Instant}
    (hv : st.jwtService.validateRefreshToken now token = .ok claims) (hsub : claims.sub = g.userId)
    (hsid : claims.sessionId = g.sessionId) {a : UserAggregate}
    (ha : db.findAggregateById claims.sub = .ok (some a)) :
    ∃ r ∈ db.sessions.rows, r.id = g.sessionId ∧ ∃ s, r.intoSession = .ok s ∧
      a.sessions.find? (fun s => s.id = claims.sessionId) = some s ∧
      st.bcrypt.verify token s.refreshTokenHash.value = .ok true := by
  obtain ⟨r, hr, hid, hu, salt, hhash⟩ := hg.row
  obtain ⟨haid, hload⟩ := Db.findAggregateById_some ha
  obtain ⟨s, hs, hd⟩ := hload.find_of_row hr (hu.trans (hsub.symm.trans haid.symm))
  refine ⟨r, hr, hid, s, hd, by rwa [hsid, ← hid], ?_⟩
  rw [(SessionRow.intoSession_ok hd).2.2.1]
  exact verify_of_issued hsvc hst hbcrypt hg.minted hhash hv hsub

/-- **A refresh takes any refresh token of the user.** Let `g.refreshToken` be the token issued with
a session. A refresh that presents any text the service accepts for the same user and session is not
answered with `InvalidRefreshToken`; and while the session is active and unexpired it is rotated by
that text. -/
theorem refresh_takes_any_token (hsvc : svc.Formatted) (hst : st.jwtService = svc.service)
    (hbcrypt : st.bcrypt.Truncating) {w : World} (hg : Issued st w.db g) {c : Call}
    (hreq : c.request = .refreshToken token)
    (hv : st.jwtService.validateRefreshToken c.env.validateAt token = .ok claims)
    (hsub : claims.sub = g.userId) (hsid : claims.sessionId = g.sessionId) :
    (serve st w c).1 ≠ .error .invalidRefreshToken ∧
    ∀ r ∈ w.db.sessions.rows, r.id = g.sessionId → r.isActive = true →
      c.env.checkAt 0 < r.expiresAt →
      w.db.Decodable → (∃ tokens hash, c.Mints st claims.sub tokens hash) →
        c.env.verifyTask = .completed →
      (∀ r ∈ w.db.sessions.rows, r.id ≠ c.env.newSessionId) →
      (∃ answer, (serve st w c).1 = .ok (.refreshToken answer)) ∧
      (serve st w c).2.db.Inactive g.sessionId := by
  have hsession :=
    @exists_session_of_issued svc st g token claims hsvc hst hbcrypt w.db hg _ hv hsub hsid
  rw [serve_refreshToken hreq hv]
  constructor
  · have hplan : (w.db.findAggregateById claims.sub).bind
        (refreshPlan st.jwtService st.bcrypt st.authSettings c.env claims token) ≠
          .error .invalidRefreshToken := by
      refine bind_ne_error (w.db.findAggregateById_ne AuthError.specific_invalidRefreshToken _)
        fun o ho => ?_
      rcases o with _ | a
      · simp [refreshPlan, throw, throwThe, MonadExceptOf.throw]
      · obtain ⟨r, -, -, s, -, hs, hverify⟩ := hsession ho
        exact refreshPlan_ne_invalid hst hs hverify
    split
    · next e he =>
        rintro ⟨⟩
        exact hplan he
    · next p hp =>
        split
        · next e he =>
            rintro ⟨⟩
            exact Db.saveAggregate_ne AuthError.specific_invalidRefreshToken _ _ _ _ he
        · obtain ⟨o, -, hp⟩ := (bind_eq_ok_iff _ _ _).mp hp
          exact refreshPlan_answer_ne_invalid hp
  · intro r hr hid hactive hexp hw ⟨tokens, hash, hm⟩ htask hfresh
    obtain ⟨u, huser, huid⟩ := hw.owners r hr
    obtain ⟨a, ha, haid, -⟩ := hw.load hr
    have hru : r.userId = claims.sub := by
      obtain ⟨r', hr', hid', hu', -⟩ := hg.row
      rw [Table.eq_of_key hr hr' (hid.trans hid'.symm), hu', hsub]
    rw [hru] at ha haid huid
    obtain ⟨r', hr', hid', s, hd, hs, hverify⟩ := hsession ha
    obtain rfl : r = r' := Table.eq_of_key hr hr' (hid.trans hid'.symm)
    obtain ⟨-, -, -, hexpires, hact, -⟩ := SessionRow.intoSession_ok hd
    obtain ⟨answer, hp⟩ :=
      refreshPlan_rotates hs hverify (hact.trans hactive) (hexpires ▸ hexp) hm htask
    have hsave : ∃ db, w.db.saveAggregate
        (a.retired claims.sessionId (.sessionRefreshed a.user.id c.env.newSessionId s.authMethod))
        [c.newSession st a.user.id hash s.authMethod] c.env.insertAt = .ok db :=
      Db.saveAggregate_fresh ⟨u, huser, huid.trans haid.symm⟩ hfresh
    obtain ⟨db, hdb⟩ := hsave
    rw [ha, Except.bind, hp]
    simp only [hdb]
    refine ⟨⟨answer, rfl⟩, ?_⟩
    rw [← hid]
    refine Db.saveAggregate_inactive hdb hr ?_
    rw [hid, ← hsid]
    exact Db.mem_invalidatedIds_retired hs

end Issued

/-! ## Two tokens of one session -/

/-- The claims of a refresh token for user `1` and session `7`, issued in second `now`. -/
def boundClaims (now : Int) : RefreshTokenClaims := ⟨1, 7, [105], [97], now + 604800, now⟩

def boundToken (now : Int) : Bytes := compact (boundClaims now).json [115]

/-- A service whose signature is fixed and that knows the tokens of the seconds `0` and `1`. -/
def boundJwt : JwtServiceImpl where
  sign := fun _ => some [115]
  accessClaims := fun _ => none
  refreshClaims := fun token =>
    if token = boundToken 0 then some (boundClaims 0)
    else if token = boundToken 1 then some (boundClaims 1) else none
  issuer := [105]
  audience := [97]
  accessExpiryMinutes := 15
  refreshExpiryDays := 7

def truncatingBcrypt : Bcrypt :=
  ⟨fun _ b _ => .ok (plainHash (b.take 72)), fun b h => .ok (h = plainHash (b.take 72))⟩

def boundState :
    AppState := { plainState with jwtService := boundJwt.service, bcrypt := truncatingBcrypt }

/-- Session `7` was opened with the token of second `0`. -/
def boundDb : Db where
  users := plainDb.users
  sessions :=
    ⟨[{ plainSession 7 1000 with refreshTokenHash := plainHash ((boundToken 0).take 72) }],
      by decide⟩

/-- A refresh that presents the token of second `1`. -/
def boundCall : Call := ⟨plainEnv 10 5, .refreshToken (boundToken 1)⟩

theorem boundJwt_formatted : boundJwt.Formatted := by
  refine ⟨fun {token claims} h => ?_⟩
  simp only [boundJwt] at h
  split_ifs at h with h0 h1
  · cases h
    exact ⟨_, h0⟩
  · cases h
    exact ⟨_, h1⟩

theorem boundToken_ne : boundToken 1 ≠ boundToken 0 := by decide +kernel

theorem boundJwt_accepts :
    boundState.jwtService.validateRefreshToken boundCall.env.validateAt (boundToken 1) =
      .ok (boundClaims 1) := by
  have hdecode : boundJwt.refreshClaims (boundToken 1) = some (boundClaims 1) := by
    simp [boundJwt, boundToken_ne]
  have hexp : expAccepted (boundClaims 1).exp boundCall.env.validateAt = true := by decide
  simp only [boundState, JwtServiceImpl.service, hdecode, Option.filter_some, hexp, if_true]

theorem truncatingBcrypt_truncating : truncatingBcrypt.Truncating := by
  refine ⟨fun {salt p cost hash} h {q} hq => ?_⟩
  cases h
  simp [truncatingBcrypt, hq]

theorem boundDb_issued : Issued boundState boundDb ⟨1, 7, boundToken 0⟩ where
  minted := ⟨0, 0, _, rfl, by decide +kernel⟩
  row := ⟨_, List.mem_cons_self, rfl, rfl, [], rfl⟩

/-- The token of second `1` rotates the session, though the row holds the hash of the one of second
`0`. -/
theorem refresh_takes_any_token_later :
    (serve boundState (.init boundDb) boundCall).1 ≠ .error .invalidRefreshToken ∧
      (serve boundState (.init boundDb) boundCall).2.db.Inactive 7 := by
  have h := @refresh_takes_any_token boundJwt boundState ⟨1, 7, boundToken 0⟩ (boundToken 1)
    (boundClaims 1)
    boundJwt_formatted rfl truncatingBcrypt_truncating (.init boundDb) boundDb_issued boundCall rfl
    boundJwt_accepts rfl rfl
  refine ⟨h.1, (h.2 _ List.mem_cons_self rfl rfl (by decide) ?_ ⟨_, _, rfl, rfl⟩ rfl (by decide)).2⟩
  exact ⟨List.forall_mem_singleton.mpr ⟨_, rfl⟩, List.forall_mem_singleton.mpr ⟨_, rfl⟩, by decide⟩

/-- Another token than the issued one is accepted, and the rows change. -/
theorem other_token_rotates :
    boundToken 1 ≠ boundToken 0 ∧
      boundState.jwtService.validateRefreshToken boundCall.env.validateAt (boundToken 1) =
        .ok (boundClaims 1) ∧
      Issued boundState boundDb ⟨(boundClaims 1).sub, (boundClaims 1).sessionId, boundToken 0⟩ ∧
      (serve boundState (.init boundDb) boundCall).1.isOk = true ∧
      (serve boundState (.init boundDb) boundCall).2.db.sessions.rows.map
        (fun r => (r.id, r.isActive)) =
        [(7, false), (10, true)] := by
  exact ⟨boundToken_ne, boundJwt_accepts, boundDb_issued, by decide +kernel, by decide +kernel⟩

end AppHome
