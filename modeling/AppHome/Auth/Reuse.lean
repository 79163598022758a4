import AppHome.Auth.Sequential
import AppHome.Auth.Tokens

/-!
# Reuse detection

A refresh that names an inactive session of its user retires every session of that user, whatever
the presented token's hash and whether or not the session has expired: `rotate_session` looks at
`is_active` first. No row ever becomes active again, so no token issued to the user before that call
is accepted later (`reuse_contains_family`).
-/

namespace AppHome

open Interleave

section Reuse
variable {st : AppState} {c : Call} {token : Bytes} {claims : RefreshTokenClaims}

theorem refreshPlan_reuse {a : UserAggregate} {s : Session} {tokens : TokenPair}
    {hash : HashedPassword} (hs : a.sessions.find? (fun s => s.id = claims.sessionId) = some s)
    (hi : s.isActive = false) (hm : c.Mints st claims.sub tokens hash)
    (hverify : c.env.verifyTask = .completed) :
    refreshPlan st.jwtService st.bcrypt st.authSettings c.env claims token (some a) =
      .ok ⟨a.invalidateAllActiveSessions, [], .error .sessionInvalidated⟩ := by
  have hmatch : ∃ ok, presentedTokenMatches st.bcrypt c.env a claims.sessionId token = .ok ok := by
    unfold presentedTokenMatches
    rw [hs, hverify]
    exact ⟨_, rfl⟩
  obtain ⟨ok, hok⟩ := hmatch
  have hrot : a.rotateSession (c.env.checkAt 0) claims.sessionId ok c.env.newSessionId hash
      (c.env.expiryBase + days st.authSettings.refreshTokenExpiryDays) =
        .error .sessionInvalidated :=
    UserAggregate.rotateSession_invalidated.mpr ⟨s, hs, hi⟩
  unfold refreshPlan
  simp only [hm.generated, hm.hashed, hok, hrot, bind, Except.bind]
  rfl

/-- The ids that answer to a reused token marks inactive: all of the user's. -/
theorem Db.Loads.mem_reusedIds {db : Db} {a : UserAggregate} (h : db.Loads a) {r : SessionRow}
    (hr : r ∈ db.sessions.rows) :
    r.id ∈ Db.invalidatedIds a.invalidateAllActiveSessions ↔ r.userId = a.user.id := by
  have hsessions : a.invalidateAllActiveSessions.sessions = a.sessions.map Session.invalidate :=
    UserAggregate.invalidateAll_fst _ _
  rw [Db.mem_invalidatedIds, hsessions]
  constructor
  · rintro ⟨s, hs, hid, -⟩
    obtain ⟨t, ht, rfl⟩ := List.mem_map.mp hs
    obtain ⟨r', hr', hu, hd⟩ := h.row_of_mem ht
    have hkey : r'.id = r.id := by rw [← (SessionRow.intoSession_ok hd).1, ← hid]; rfl
    rw [← Table.eq_of_key hr' hr hkey, hu]
  · intro hu
    obtain ⟨s, hs, hd⟩ := h.mem_of_row hr hu
    exact ⟨s.invalidate, List.mem_map_of_mem hs, (SessionRow.intoSession_ok hd).1, rfl⟩

/-- **The answer to a reused token**: every session of the user is retired, and nothing else. -/
theorem serve_reuse {w : World} (hw : w.db.Decodable) {r : SessionRow}
    (hreq : c.request = .refreshToken token)
    (hv : st.jwtService.validateRefreshToken c.env.validateAt token = .ok claims)
    (hr : r ∈ w.db.sessions.rows) (hid : r.id = claims.sessionId) (hu : r.userId = claims.sub)
    (hi : r.isActive = false) (hm : ∃ tokens hash, c.Mints st claims.sub tokens hash)
    (hverify : c.env.verifyTask = .completed) :
    (serve st w c).1 = .error .sessionInvalidated ∧
      ∃ ids, (∀ r ∈ w.db.sessions.rows, r.id ∈ ids ↔ r.userId = claims.sub) ∧
        (serve st w c).2.db.sessions.rows = w.db.sessions.rows.map (SessionRow.retire ids) := by
  obtain ⟨a, ha, haid, hload, s, hs, hd⟩ := hw.load hr
  rw [hu] at ha haid
  obtain ⟨tokens, hash, hm⟩ := hm
  have hsi : s.isActive = false := by rw [(SessionRow.intoSession_ok hd).2.2.2.2.1, hi]
  have hserve : serve st w c = (.error .sessionInvalidated,
      { w with
        db := (Db.invalidatedIds a.invalidateAllActiveSessions).foldl Db.deactivate w.db
        commits := w.commits ++ [⟨0, a.invalidateAllActiveSessions, [], true⟩] }) := by
    rw [serve_refreshToken hreq hv, ha, Except.bind, refreshPlan_reuse (hid ▸ hs) hsi hm hverify]
    rfl
  rw [hserve]
  refine ⟨rfl, Db.invalidatedIds a.invalidateAllActiveSessions, fun r hr => ?_, ?_⟩
  · rw [hload.mem_reusedIds hr, haid]
  · exact (Db.foldl_deactivate _ w.db).2

/-! ## Runs -/

/-- The answers of a run, in order. -/
def answers (st : AppState) (w : World) : List Call → List (Except AuthError Response)
  | [] => []
  | c :: calls => (serve st w c).1 :: answers st (serve st w c).2 calls

theorem issued_of_answer {w : World} {calls : List Call} {resp : Response} {g : Grant}
    (hr : .ok resp ∈ answers st w calls) (hg : resp.grant = some g) :
    Issued st (serveAll st w calls).db g := by
  induction calls generalizing w with
  | nil => cases hr
  | cons c calls ih =>
      rcases List.mem_cons.mp hr with hr | hr
      · have hissued : answersIssued st (serve st w c).1 (serve st w c).2 :=
          alone_wp World.Le.refl _ (Call.grants_issued.wp_run trivial)
        exact (hissued resp g hr.symm hg).mono (serveAll_le st _ calls).db
      · exact ih hr

/-- A token is refused once the session it was issued for is inactive. -/
theorem serve_rejected (hjwt : st.jwtService.Faithful) {db : Db} {g : Grant} (hg : Issued st db g)
    {w : World} (hi : w.db.Inactive g.sessionId) {d : Call}
    (hd : d.request = .refreshToken g.refreshToken) : (serve st w d).1.isOk = false := by
  obtain ⟨now, jti, tokens, hgen, htok⟩ := hg.minted
  refine alone_wp World.Le.refl _ ((Call.rejected_of_inactive hd ?_).wp_run hi)
  intro claims hc
  unfold Call.claims at hc
  rw [hd, ← htok] at hc
  simp only at hc
  cases hv : st.jwtService.validateRefreshToken d.env.validateAt tokens.refreshToken with
  | error e => rw [hv] at hc; cases hc
  | ok claims' =>
      rw [hv] at hc
      cases hc
      exact (hjwt.refresh hgen hv).2

/-- **Reuse detection contains a stolen token family.** After any run, a refresh whose token
validates and names an inactive session of its user `U`, and that can mint and hash new tokens and
compare the presented one, answers `SessionInvalidated`, leaves every session of `U` inactive and
the rows of all other users alone. No refresh token granted to `U` before that call, in the run or
for a row already there at its start, is accepted in the rest of the run. -/
theorem reuse_contains_family (st : AppState) (hjwt : st.jwtService.Faithful) (db : Db)
    (hdb : db.Decodable) (before : List Call) (c : Call) (token : Bytes)
    (claims : RefreshTokenClaims) (r : SessionRow) (hreq : c.request = .refreshToken token)
    (hv : st.jwtService.validateRefreshToken c.env.validateAt token = .ok claims)
    (hr : r ∈ (serveAll st (.init db) before).db.sessions.rows) (hid : r.id = claims.sessionId)
    (hu : r.userId = claims.sub) (hi : r.isActive = false)
    (hm : ∃ tokens hash, c.Mints st claims.sub tokens hash)
    (hverify : c.env.verifyTask = .completed) :
    (serve st (serveAll st (.init db) before) c).1 = .error .sessionInvalidated ∧
    (∀ r ∈ (serveAll st (.init db) (before ++ [c])).db.sessions.rows, r.userId = claims.sub →
      r.isActive = false) ∧
    (∀ u, u ≠ claims.sub →
      (serveAll st (.init db) (before ++ [c])).db.sessions.rows.filter (·.userId = u) =
        (serveAll st (.init db) before).db.sessions.rows.filter (·.userId = u)) ∧
    (∀ g : Grant, g.userId = claims.sub →
      ((∃ resp, .ok resp ∈ answers st (.init db) before ∧ resp.grant = some g) ∨ Issued st db g) →
      ∀ (rest : List Call) (d : Call), d.request = .refreshToken g.refreshToken →
        (serve st (serveAll st (.init db) (before ++ [c] ++ rest)) d).1.isOk = false) := by
  obtain ⟨hans, ids, hids, hrows⟩ :=
    serve_reuse (serveAll_decodable st hdb before) hreq hv hr hid hu hi hm hverify
  have hafter : serveAll st (.init db) (before ++ [c]) =
      (serve st (serveAll st (.init db) before) c).2 :=
    serveAll_append ..
  have hall : ∀ r ∈ (serveAll st (.init db) (before ++ [c])).db.sessions.rows,
      r.userId = claims.sub → r.isActive = false := by
    intro r' hr' hu'
    rw [hafter, hrows] at hr'
    obtain ⟨r₀, hr₀, rfl⟩ := List.mem_map.mp hr'
    rw [SessionRow.retire_userId] at hu'
    rw [SessionRow.retire, if_pos ((hids r₀ hr₀).mpr hu')]
  refine ⟨hans, hall, fun u hne => ?_, fun g hgu hg rest d hd => ?_⟩
  · have hp : ((fun r => decide (r.userId = u)) ∘ SessionRow.retire ids) =
        fun r => decide (r.userId = u) := by
      funext r
      simp
    rw [hafter, hrows, List.filter_map, hp]
    refine (List.map_congr_left fun r hr => ?_).trans (List.map_id _)
    obtain ⟨hmem, hru⟩ := List.mem_filter.mp hr
    refine SessionRow.retire_eq_self fun hin => hne ?_
    rw [← (hids r hmem).mp hin]
    exact (of_decide_eq_true hru).symm
  · have hissued : Issued st (serveAll st (.init db) before).db g := by
      rcases hg with ⟨resp, hresp, hgrant⟩ | hg
      · exact issued_of_answer hresp hgrant
      · exact hg.mono (serveAll_le st (.init db) before).db
    have hle := (serveAll_le st (serveAll st (.init db) before) ([c])).db
    rw [← serveAll_append] at hle
    obtain ⟨s, hs, hsid, hsu, -⟩ := (hissued.mono hle).row
    have hinactive : (serveAll st (.init db) (before ++ [c])).db.Inactive g.sessionId :=
      ⟨s, hs, hsid, hall s hs (hsu.trans hgu)⟩
    rw [serveAll_append]
    exact serve_rejected hjwt hissued ((serveAll_le st _ rest).db.inactive hinactive) hd

/-- Session `7` is refreshed, and its token then presented again. -/
theorem reuse_contains_family_seven :
    (serve plainState (serveAll plainState (.init plainDb)
      [⟨plainEnv 10 5, .refreshToken (plainToken 1 7)⟩])
      ⟨plainEnv 11 6, .refreshToken (plainToken 1 7)⟩).1 =
        .error .sessionInvalidated ∧
    (∀ r ∈ (serveAll plainState (.init plainDb) [⟨plainEnv 10 5, .refreshToken (plainToken 1 7)⟩,
      ⟨plainEnv 11 6, .refreshToken (plainToken 1 7)⟩]).db.sessions.rows, r.userId = 1 →
        r.isActive = false) := by
  have h := reuse_contains_family plainState plainJwt_faithful plainDb plainDb_decodable
    [⟨plainEnv 10 5, .refreshToken (plainToken 1 7)⟩]
    ⟨plainEnv 11 6, .refreshToken (plainToken 1 7)⟩ (plainToken 1 7) ⟨1, 7, [], [], 0, 0⟩
    { plainSession 7 1000 with isActive := false } rfl rfl (by decide) rfl rfl rfl
        ⟨_, _, rfl, rfl⟩ rfl
  exact ⟨h.1, h.2.1⟩

/-- The reused token is presented again and the task that compares its hash fails: the answer is
another error, and the session that replaced the reused one stays active. -/
theorem failed_task_keeps_family :
    (serveAll plainState
      (.init plainDb) [⟨plainEnv 10 5, .refreshToken (plainToken 1 7)⟩]).db.Inactive 7 ∧
    (serve plainState
      (serveAll plainState (.init plainDb) [⟨plainEnv 10 5, .refreshToken (plainToken 1 7)⟩])
      ⟨{ plainEnv 11 6 with verifyTask := .failed "task 5 panicked" },
        .refreshToken (plainToken 1 7)⟩).1 =
        .error (.internalError "bcrypt task failed to complete: task 5 panicked") ∧
    ∃ r ∈ (serveAll plainState (.init plainDb) [⟨plainEnv 10 5, .refreshToken (plainToken 1 7)⟩,
      ⟨{ plainEnv 11 6 with verifyTask := .failed "task 5 panicked" },
        .refreshToken (plainToken 1 7)⟩]).db.sessions.rows, r.userId = 1 ∧ r.isActive = true :=
  ⟨by decide, rfl, by decide⟩

end Reuse

end AppHome
