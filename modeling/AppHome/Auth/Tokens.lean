import AppHome.Auth.Requests

/-!
# Issued refresh tokens

* `Response.grant` : the user, the session and the refresh token of a login or a refresh that
  succeeded;
* `Issued` : the token was minted for this user and session, and the session's row, which holds its
  hash, is in the table. Every granted token is (`Call.grants_issued`), and stays so;
* `Call.rejected_of_inactive` : a refresh that presents an inactive session is refused.
-/

namespace AppHome

open Interleave

/-- The session whose refresh token the request presents. -/
def Call.presents (st : AppState) (c : Call) : Option Uuid := (c.claims st).map (·.sessionId)

theorem Call.presents_eq_some {st : AppState} {c : Call} {S : Uuid} :
    c.presents st = some S ↔ ∃ claims, c.claims st = some claims ∧ claims.sessionId = S := by
  simp [Call.presents]

theorem Call.Opens.presents {st : AppState} {c : Call} {a : UserAggregate} {tokens : TokenPair}
    {m : AuthMethod} {r : Response} (h : c.Opens a tokens m r) : c.presents st = none := by
  cases h with
  | password hr => simp [Call.presents, Call.claims, hr]
  | google b hr => simp [Call.presents, Call.claims, hr]

/-- A validated refresh token carries the ids it was minted for. -/
structure JwtService.Faithful (jwt : JwtService) : Prop where
  refresh : ∀ {now jti userId sessionId tokens},
    jwt.generateTokenPair now jti userId sessionId = .ok tokens →
    ∀ {now' claims}, jwt.validateRefreshToken now' tokens.refreshToken = .ok claims →
      claims.sub = userId ∧ claims.sessionId = sessionId

theorem plainJwt_faithful : plainJwt.Faithful := by
  refine ⟨fun {now jti u s tokens} hg {now' claims} hv => ?_⟩
  cases hg
  have hzero : ∀ n, ∀ x ∈ List.replicate n (0 : UInt8), decide (x = 0) = true := by
    intro n x hx
    rw [List.eq_of_mem_replicate hx]
    rfl
  simp only [plainJwt, plainToken, List.dropWhile_append_of_pos (hzero _),
    List.takeWhile_append_of_pos (hzero _)] at hv
  cases hv
  simp

structure Grant where
  userId : Uuid
  sessionId : Uuid
  refreshToken : Bytes

def Response.grant : Response → Option Grant
  | .loginWithPassword r => some ⟨r.user.id, r.sessionId, r.refreshToken⟩
  | .loginWithGoogle r => some ⟨r.user.id, r.sessionId, r.refreshToken⟩
  | .refreshToken r => some ⟨r.userId, r.sessionId, r.refreshToken⟩
  | .logout _ => none

structure Issued (st : AppState) (db : Db) (g : Grant) : Prop where
  minted : ∃ now jti tokens, st.jwtService.generateTokenPair now jti g.userId g.sessionId =
    .ok tokens ∧ tokens.refreshToken = g.refreshToken
  row : ∃ r ∈ db.sessions.rows, r.id = g.sessionId ∧ r.userId = g.userId ∧
    ∃ salt, st.bcrypt.hash salt g.refreshToken st.authSettings.bcryptCost = .ok r.refreshTokenHash

theorem Issued.mono {st : AppState} {db db' : Db} {g : Grant} (hle : db.Le db')
    (h : Issued st db g) :
    Issued st db' g := by
  obtain ⟨r, hr, hid, hu, hash⟩ := h.row
  obtain ⟨r', hr', hrle⟩ := hle.sessions r hr
  exact ⟨h.minted, r', hr', hrle.id.trans hid, hrle.userId.trans hu, by rwa [hrle.refreshTokenHash]⟩

theorem hashRefreshToken_ok {bcrypt : Bcrypt} {settings : AuthSettings} {env : Env} {token : Bytes}
    {hash : HashedPassword} (h : hashRefreshToken bcrypt settings env token = .ok hash) :
    bcrypt.hash env.salt token settings.bcryptCost = .ok hash.value := by
  obtain ⟨answer, ha, h⟩ := (bind_eq_ok_iff _ _ _).mp h
  have hans : bcrypt.hash env.salt token settings.bcryptCost = answer := by
    cases ht : env.hashTask <;> rw [ht] at ha <;> cases ha
    rfl
  rw [hans]
  rcases answer with e | text
  · cases h
  · cases hn : HashedPassword.new text with
    | error e => simp only [hn] at h; cases h
    | ok hash' =>
        simp only [hn] at h
        cases h
        rw [HashedPassword.value_of_new hn]

section Grants
variable {st : AppState} {c : Call} {i : Nat}

theorem Issued.of_save {a a' : UserAggregate} {tokens : TokenPair} {hash : HashedPassword}
    {method : AuthMethod} {db db' : Db} {now : Nat → Instant}
    (hm : c.Mints st a.user.id tokens hash)
    (h : db.saveAggregate a' [c.newSession st a.user.id hash method] now = .ok db') :
    Issued st db' ⟨a.user.id, c.env.newSessionId, tokens.refreshToken⟩ := by
  refine ⟨⟨_, _, tokens, hm.generated, rfl⟩, ?_⟩
  obtain ⟨-, hs⟩ := Db.saveAggregate_ok h
  have hle := SessionRow.le_retire (Db.invalidatedIds a')
    ((c.newSession st a.user.id hash method).row (now 0))
  refine ⟨_, ?_, hle.id, hle.userId, c.env.salt, ?_⟩
  · rw [hs]
    exact List.mem_map_of_mem (List.mem_append_right _ List.mem_cons_self)
  · rw [hle.refreshTokenHash]
    exact hashRefreshToken_ok hm.hashed

/-- What a request answers has been issued. -/
def answersIssued (st : AppState) (r : Except AuthError Response) (w : World) : Prop :=
  ∀ resp g, r = .ok resp → resp.grant = some g → Issued st w.db g

theorem Call.grants_issued :
    c.Obligations st freeContract i (fun _ => True) (answersIssued st) where
  le := id
  rely := fun _ h => h
  load := fun _ _ => trivial
  create := fun h _ => h
  error := fun e _ resp g hr => by cases hr
  lost := fun e _ _ _ _ _ _ resp g hr => by cases hr
  save := fun _ _ _ _ _ => trivial
  commit := by
    intro w₀ w a p db _ _ _ hdec _ hdb resp g hr hg
    cases hdec with
    | opens hm hcap ho =>
        cases hr
        cases ho with
        | password => cases hg; exact .of_save hm hdb
        | google => cases hg; exact .of_save hm hdb
    | rotates _ _ hu hm =>
        have hissued := Issued.of_save hm hdb
        rw [← hu] at hissued
        cases hr
        cases hg
        exact hissued
    | reuses => cases hr
    | closes => cases hr; cases hg

theorem Call.rejected_of_inactive {S : Uuid} {token : Bytes} (hr : c.request = .refreshToken token)
    (hS : ∀ claims, c.claims st = some claims → claims.sessionId = S) :
    c.Obligations st freeContract i (fun w => w.db.Inactive S) (fun r _ => r.isOk = false) where
  le := id
  rely := fun h hi => h.db.inactive hi
  load := fun _ _ => trivial
  create := fun hi hdb => (Db.create_le hdb).inactive hi
  error := fun e _ => rfl
  lost := fun e _ _ _ _ _ _ => rfl
  save := fun _ _ _ _ _ => trivial
  commit := by
    intro w₀ w a p db hi hload _ hdec _ _
    cases hdec with
    | opens hm hcap ho => cases ho <;> simp_all
    | closes hr' => rw [hr] at hr'; cases hr'
    | reuses => rfl
    | rotates _ hv hu hm hs hactive =>
        obtain ⟨hmem, hid⟩ := UserAggregate.find_session hs
        obtain ⟨r, hr, -, hd⟩ := hload.row_of_mem hmem
        obtain ⟨r', hr', hid', hi'⟩ := hi
        have hrow := SessionRow.intoSession_ok hd
        have hkey : r'.id = r.id := by rw [hid', ← hS _ hv, ← hid, hrow.1]
        rw [Table.eq_of_key hr' hr hkey, ← hrow.2.2.2.2.1, hactive] at hi'
        cases hi'

end Grants

end AppHome
