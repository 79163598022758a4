import AppHome.Auth.Cap
import AppHome.Auth.Failures
import AppHome.Auth.Jwt
import AppHome.Auth.Reuse
import AppHome.Auth.SingleUse

/-!
# Exactly the intended effect, or none

A request that nobody interferes with, and any of whose steps may fail.

* `Db.Loads.rows_of_save` : saving a changed aggregate writes back every session it holds inactive;
  over the tables it was loaded from, only those the request itself retired change;
* `Call.Effect` : what each answer of each request says about the session table;
* `request_effect` : every request has the effect its answer says.
-/

namespace AppHome

open Interleave

/-! ## Saving over the tables that were loaded -/

/-- The sessions inactive in `a'` are those inactive in `a`, and the ones of `ids`. -/
structure UserAggregate.Retires (a a' : UserAggregate) (ids : List Uuid) : Prop where
  known : ∀ i ∈ ids, ∃ s ∈ a.sessions, s.id = i
  inactive : ∀ i ∈ ids, i ∈ Db.invalidatedIds a'
  only : ∀ i ∈ Db.invalidatedIds a', i ∈ ids ∨ i ∈ Db.invalidatedIds a

theorem UserAggregate.retires_push (a : UserAggregate) (e : Event) : a.Retires (a.push e) [] :=
  ⟨by simp, by simp, fun _ h => Or.inr h⟩

theorem UserAggregate.retires_retired {a : UserAggregate} {sid : Uuid} {s : Session} (e : Event)
    (hs : a.sessions.find? (fun s => s.id = sid) = some s) : a.Retires (a.retired sid e) [sid] := by
  obtain ⟨hmem, hid⟩ := find_session hs
  refine ⟨?_, ?_, ?_⟩
  · simpa using ⟨s, hmem, hid⟩
  · simpa using Db.mem_invalidatedIds_retired hs
  · intro i hi
    obtain ⟨t, ht, rfl, hinactive⟩ := Db.mem_invalidatedIds.mp hi
    rcases mem_invalidateFirst ht with ht | ⟨hsid, -, -⟩
    · exact Or.inr (Db.mem_invalidatedIds.mpr ⟨t, ht, rfl, hinactive⟩)
    · exact Or.inl (List.mem_singleton.mpr hsid)

theorem UserAggregate.retires_all (a : UserAggregate) :
    a.Retires a.invalidateAllActiveSessions (Db.invalidatedIds a.invalidateAllActiveSessions) := by
  refine ⟨fun i hi => ?_, fun _ h => h, fun _ h => Or.inl h⟩
  obtain ⟨t, ht, rfl, -⟩ := Db.mem_invalidatedIds.mp hi
  have ht' : t ∈ (invalidateAll a.user.id a.sessions).1 := ht
  rw [invalidateAll_fst] at ht'
  obtain ⟨s, hs, rfl⟩ := List.mem_map.mp ht'
  exact ⟨s, hs, rfl⟩

section Save
variable {db db' : Db} {a a' : UserAggregate} {ids : List Uuid} {news : List NewSession}
  {now : Nat → Instant}

/-- A row the aggregate was loaded with inactive is written back as it was. -/
theorem Db.Loads.retire_loaded (hload : db.Loads a) {r : SessionRow} (hr : r ∈ db.sessions.rows)
    (hid : r.id ∈ Db.invalidatedIds a) : r.isActive = false := by
  obtain ⟨s, hs, hsid, hinactive⟩ := Db.mem_invalidatedIds.mp hid
  obtain ⟨r', hr', -, hd⟩ := hload.row_of_mem hs
  obtain ⟨hid', -, -, -, hact, -⟩ := SessionRow.intoSession_ok hd
  have hkey : r'.id = r.id := by rw [← hid', hsid]
  rw [← Table.eq_of_key hr' hr hkey, ← hact, hinactive]

theorem Db.Loads.retire_eq (hload : db.Loads a) (h : a.Retires a' ids) {r : SessionRow}
    (hr : r ∈ db.sessions.rows) : r.retire (Db.invalidatedIds a') = r.retire ids := by
  unfold SessionRow.retire
  by_cases hids : r.id ∈ ids
  · rw [if_pos hids, if_pos (h.inactive _ hids)]
  · rw [if_neg hids]
    split
    · next hid =>
        have hinactive := hload.retire_loaded hr ((h.only _ hid).resolve_left hids)
        rw [← hinactive]
    · rfl

theorem Db.saveAggregate_new (h : db.saveAggregate a' news now = .ok db') {r n : SessionRow}
    (hr : r ∈ db.sessions.rows) (hn : n ∈ newRows news.zipIdx now) : r.id ≠ n.id := by
  have hnodup := db'.sessions.nodup
  rw [(Db.saveAggregate_ok h).2, List.map_map, List.map_append, List.nodup_append] at hnodup
  have hids := hnodup.2.2 _ (List.mem_map_of_mem hr) _ (List.mem_map_of_mem hn)
  simpa using hids

/-- **What a save writes over the tables its aggregate was loaded from**: the sessions the request
retired become inactive, the new sessions are added, and everything else stays as it was. -/
theorem Db.Loads.rows_of_save (hload : db.Loads a) (h : a.Retires a' ids)
    (hsave : db.saveAggregate a' news now = .ok db') :
    db'.sessions.rows = db.sessions.rows.map (SessionRow.retire ids) ++
      newRows news.zipIdx now := by
  rw [(Db.saveAggregate_ok hsave).2, List.map_append]
  congr 1
  · exact List.map_congr_left fun r hr => hload.retire_eq h hr
  · have hkeep : ∀ n ∈ newRows news.zipIdx now, n.retire (Db.invalidatedIds a') = n := by
      intro n hn
      refine SessionRow.retire_eq_self fun hid => ?_
      have hknown : ∃ s ∈ a.sessions, s.id = n.id := by
        rcases h.only _ hid with hid | hid
        · exact h.known _ hid
        · obtain ⟨s, hs, hsid, -⟩ := Db.mem_invalidatedIds.mp hid
          exact ⟨s, hs, hsid⟩
      obtain ⟨s, hs, hsid⟩ := hknown
      obtain ⟨r, hr, -, hd⟩ := hload.row_of_mem hs
      exact Db.saveAggregate_new hsave hr hn ((SessionRow.intoSession_ok hd).1.symm.trans hsid)
    exact (List.map_congr_left hkeep).trans (List.map_id _)

end Save

/-! ## The effect of an answer -/

/-- A row after all sessions of `userId` were made inactive. -/
def SessionRow.retireUser (userId : Uuid) (r : SessionRow) : SessionRow :=
  if r.userId = userId then { r with isActive := false } else r

/-- What an answer says about the session table. A login has added one active row of the user it
logged in; a logout and a refresh found the row they name active and unexpired and made it inactive,
and the refresh added one active row of the same user. `SessionInvalidated` from a refresh has made
the user's rows inactive. Every other error has left the table as it was. -/
def Call.Effect (st : AppState) (c : Call) (db db' : Db) (answer : Except AuthError Response) :
    Prop :=
  match c.request, answer with
  | .loginWithPassword username _, .ok _ =>
    ∃ row : SessionRow, db'.sessions.rows = db.sessions.rows ++ [row] ∧ row.isActive = true ∧
      ∃ u ∈ db'.users.rows, u.username = some username ∧ u.id = row.userId
  | .loginWithGoogle idToken, .ok _ =>
    ∃ row : SessionRow, db'.sessions.rows = db.sessions.rows ++ [row] ∧ row.isActive = true ∧
      ∃ info, st.authProvider.verifyIdToken idToken = .ok info ∧
        ∃ u ∈ db'.users.rows, u.email = info.email ∧ u.id = row.userId
  | .logout userId sessionId, .ok _ =>
    db'.sessions.rows = db.sessions.rows.map (SessionRow.retire [sessionId]) ∧
      ∃ r ∈ db.sessions.rows, r.id = sessionId ∧ r.userId = userId ∧ r.isActive = true ∧
        c.env.checkAt 0 < r.expiresAt
  | .refreshToken _, .ok _ =>
    ∃ claims, c.claims st = some claims ∧ ∃ row : SessionRow,
      db'.sessions.rows = db.sessions.rows.map (SessionRow.retire [claims.sessionId]) ++ [row] ∧
      row.isActive = true ∧ row.userId = claims.sub ∧
      ∃ r ∈ db.sessions.rows, r.id = claims.sessionId ∧ r.userId = claims.sub ∧ r.isActive = true ∧
        c.env.checkAt 0 < r.expiresAt
  | .refreshToken _, .error .sessionInvalidated =>
    ∃ claims, c.claims st = some claims ∧
      db'.sessions.rows = db.sessions.rows.map (SessionRow.retireUser claims.sub)
  | _, .error _ => db'.sessions = db.sessions

section Effect
variable {st : AppState} {c : Call} {db db' : Db}

theorem Db.Loads.row_of_find {a : UserAggregate} (hload : db.Loads a) {sid : Uuid} {s : Session}
    (hs : a.sessions.find? (fun s => s.id = sid) = some s) :
    ∃ r ∈ db.sessions.rows, r.id = sid ∧ r.userId = a.user.id ∧ r.isActive = s.isActive ∧
      r.expiresAt = s.expiresAt := by
  obtain ⟨hmem, hid⟩ := UserAggregate.find_session hs
  obtain ⟨r, hr, hu, hd⟩ := hload.row_of_mem hmem
  obtain ⟨hrid, -, -, hexp, hact, -⟩ := SessionRow.intoSession_ok hd
  exact ⟨r, hr, hrid.symm.trans hid, hu, hact.symm, hexp.symm⟩

theorem Call.Decides.effect {a : UserAggregate} {p : Plan Response} (hload : db.Loads a)
    (hacts : c.ActsFor st db a.user.id) (hdec : c.Decides st a p)
    (hsave : db.saveAggregate p.aggregate p.newSessions c.env.insertAt = .ok db') :
    c.Effect st db db' p.answer := by
  have husers : db'.users = db.users := (Db.saveAggregate_ok hsave).1
  unfold Call.ActsFor at hacts
  unfold Call.Effect
  cases hdec with
  | opens hm hcap ho =>
      have hrows := hload.rows_of_save (a.retires_push _) hsave
      rw [show SessionRow.retire [] = id by
        funext r; simp [SessionRow.retire], List.map_id] at hrows
      cases ho with
      | password hr =>
          rw [hr] at hacts ⊢
          obtain ⟨u, hu, huid, hname⟩ := hacts
          exact ⟨_, hrows, rfl, u, husers ▸ hu, hname, huid⟩
      | google isNewUser hr =>
          rw [hr] at hacts ⊢
          obtain ⟨info, hinfo, u, hu, huid, hmail⟩ := hacts
          exact ⟨_, hrows, rfl, info, hinfo, u, husers ▸ hu, hmail, huid⟩
  | rotates hr hv hu hm hs hactive hexp htoken =>
      have hrows := hload.rows_of_save (UserAggregate.retires_retired _ hs) hsave
      obtain ⟨r, hrow, hid, huser, hact, hexpires⟩ := hload.row_of_find hs
      rw [hr]
      exact ⟨_, hv, _, hrows, rfl, hu.symm, r, hrow, hid, huser.trans hu.symm, hact.trans hactive,
        hexpires ▸ hexp⟩
  | reuses hr hv hu hs hactive =>
      have hrows := hload.rows_of_save a.retires_all hsave
      rw [hr]
      refine ⟨_, hv, hrows.trans ?_⟩
      rw [show newRows ([] : List NewSession).zipIdx c.env.insertAt = [] from rfl, List.append_nil]
      refine List.map_congr_left fun r hrow => ?_
      unfold SessionRow.retire SessionRow.retireUser
      simp only [hload.mem_reusedIds hrow, hu]
  | closes hr hs hactive hexp =>
      have hrows := hload.rows_of_save (UserAggregate.retires_retired _ hs) hsave
      obtain ⟨r, hrow, hid, huser, hact, hexpires⟩ := hload.row_of_find hs
      rw [hr]
      exact ⟨hrows.trans (List.append_nil _), r, hrow, hid, huser, hact.trans hactive,
        hexpires ▸ hexp⟩

theorem Call.Effect.of_sessions {db₁ : Db} (hdb : db₁.sessions = db.sessions)
    {answer : Except AuthError Response} (h : c.Effect st db₁ db' answer) :
    c.Effect st db db' answer := by
  unfold Call.Effect at h ⊢
  rwa [hdb] at h

theorem Call.effect_error (hdb : db'.sessions = db.sessions) {e : AuthError}
    (he : ∀ token, c.request = .refreshToken token → e ≠ .sessionInvalidated) :
    c.Effect st db db' (.error e) := by
  unfold Call.Effect
  split
  any_goals contradiction
  · next hr h =>
      cases h
      exact absurd rfl (he _ hr)
  · exact hdb

end Effect

/-! ## Whole requests -/

/-- The errors of `JwtServiceImpl`. -/
structure JwtService.OwnErrors (jwt : JwtService) : Prop where
  generate : ∀ {now jti userId sessionId e},
    jwt.generateTokenPair now jti userId sessionId = .error e →
    e = .tokenGenerationFailed
  validate : ∀ {now token e}, jwt.validateRefreshToken now token = .error e →
    e = .tokenVerificationFailed

theorem JwtServiceImpl.service_ownErrors (svc : JwtServiceImpl) : svc.service.OwnErrors where
  generate := JwtServiceImpl.generateTokenPair_error
  validate := by
    intro now token e h
    simp only [JwtServiceImpl.service] at h
    split at h
    · cases h
    · cases h
      rfl

section Request
variable {st : AppState} (hjwt : st.jwtService.OwnErrors) {c : Call} {w : World}
  {fates : Nat → Fate}
include hjwt

/-- A refresh that finds the session inactive plans the answer to a reused token. -/
theorem refreshPlan_ne (env : Env) (claims : RefreshTokenClaims) (token : Bytes)
    (o : Option UserAggregate) :
    refreshPlan st.jwtService st.bcrypt st.authSettings env claims token o ≠
      .error .sessionInvalidated := by
  have hspec := AuthError.specific_sessionInvalidated
  cases o with
  | none => simp [refreshPlan, throw, throwThe, MonadExceptOf.throw]
  | some a =>
      refine bind_ne_error (fun h => ?_) fun tokens _ => ?_
      · cases hjwt.generate h
      refine bind_ne_error (hashRefreshToken_ne hspec (by simp) _ _ _ _) fun hash _ => ?_
      refine bind_ne_error (presentedTokenMatches_ne hspec _ _ _ _ _) fun ok _ => ?_
      split
      · simp [pure, Except.pure]
      · simp [pure, Except.pure]
      · next e hne _ =>
          rintro ⟨⟩
          exact hne rfl

theorem commits_of_sessionInvalidated {token : Bytes} (hr : c.request = .refreshToken token)
    (h : (machine.alone 0 (c.run st) w fates).1 = .error .sessionInvalidated) :
    (machine.alone 0 (c.run st) w fates).2.commits ≠ w.commits := by
  have hspec := AuthError.specific_sessionInvalidated
  unfold Call.run respond at h ⊢
  rw [hr] at h ⊢
  simp only at h ⊢
  cases hv : st.jwtService.validateRefreshToken c.env.validateAt token with
  | error e =>
      unfold refreshToken at h
      rw [Fallible.run_lift_bind, hv] at h
      cases h
      cases hjwt.validate hv
  | ok claims =>
      rw [refreshToken_run _ _ _ _ _ hv] at h ⊢
      have hload := orFail_ne hspec (w.db.findAggregateById_ne hspec claims.sub) (fates 0)
      exact commits_of_specific hspec (bind_ne_error hload fun o _ => refreshPlan_ne hjwt _ _ _ o) h

omit hjwt in
/-- When no statement fails after it took effect, every save that commits is answered. -/
theorem alone_answered {α : Type} (p : Prog Op Res α) (w : World) {fates : Nat → Fate}
    (hfates : ∀ n e, fates n ≠ .failedApplied e) :
    ∃ new, (machine.alone 0 p w fates).2.commits = w.commits ++ new ∧
      ∀ k ∈ new, k.answered = true := by
  induction p generalizing w fates with
  | ret a => exact ⟨[], (List.append_nil _).symm, fun k hk => by cases hk⟩
  | op o k ih =>
      obtain ⟨later, hlater, hl⟩ :=
        ih (machine.exec w 0 o (fates 0)).1 (machine.exec w 0 o (fates 0)).2
        fun n => hfates (n + 1)
      have hanswers : (fates 0).answers = true := by
        cases hf : fates 0 with
        | failedApplied e => exact absurd hf (hfates 0 e)
        | _ => rfl
      have hfirst : ∃ new, (w.exec 0 o (fates 0)).2.commits = w.commits ++ new ∧
          ∀ k ∈ new, k.answered = true := by
        refine World.exec_rule (P := fun w' => ∃ new, w'.commits = w.commits ++ new ∧
          ∀ k ∈ new, k.answered = true) (fates 0) ?_ ?_ ?_ ?_
        · exact ⟨[], (List.append_nil _).symm, fun k hk => by cases hk⟩
        · exact fun _ _ => ⟨[], (List.append_nil _).symm, fun k hk => by cases hk⟩
        · exact fun _ _ _ _ _ _ _ => ⟨[], (List.append_nil _).symm, fun k hk => by cases hk⟩
        · exact fun _ _ _ _ _ _ => ⟨_, rfl, List.forall_mem_singleton.mpr hanswers⟩
      obtain ⟨first, hfirst, hf⟩ := hfirst
      refine ⟨first ++ later, ?_, fun k hk => ?_⟩
      · rw [alone_op, hlater, ← List.append_assoc]
        exact congrArg (· ++ later) hfirst
      · exact (List.mem_append.mp hk).elim (hf k) (hl k)

omit hjwt in
/-- Up to its save a request leaves the session table alone, and its save has the effect of its
answer. -/
theorem effect_obligations (st : AppState) (c : Call) (w₀ : World) :
    c.Obligations st (aloneContract fun _ => True) 0
      (fun w => w.commits = w₀.commits ∧ w.db.sessions = w₀.db.sessions)
      (fun answer w => c.Effect st w₀.db w.db answer ∨
        ((∃ e, answer = .error e) ∧ w.commits = w₀.commits ∧ w.db.sessions = w₀.db.sessions) ∨
        ∃ k, w.commits = w₀.commits ++ [k] ∧ k.answered = false) := by
  refine ⟨fun h => h ▸ .refl _, fun h hw => h ▸ hw, fun _ _ => trivial, ?_,
    fun e hw => Or.inr (Or.inl ⟨⟨e, rfl⟩, hw⟩), fun _ _ _ _ _ => trivial, ?_, ?_⟩
  · intro w u id now user db hw hdb
    exact ⟨hw.1, (Db.create_ok hdb).1.trans hw.2⟩
  · rintro w₁ w a p db hw hload hacts hdec rfl hdb
    exact Or.inl ((hdec.effect hload hacts hdb).of_sessions hw.2)
  · rintro w₁ w a p db e hw hload hacts hdec rfl hdb
    exact Or.inr (Or.inr ⟨_, congrArg (· ++ [_]) hw.1, rfl⟩)

/-- **Every request has exactly its intended effect, or none.** From any stored state, and whichever
of its steps fail, a request that nobody interferes with leaves the session table as its answer
says, provided that what fails had no effect. -/
theorem request_effect (c : Call) (w : World) (fates : Nat → Fate)
    (hfates : ∀ n e, fates n ≠ .failedApplied e) :
    c.Effect st w.db (machine.alone 0 (c.run st) w fates).2.db
      (machine.alone 0 (c.run st) w fates).1 := by
  rcases alone_wp (fun _ => rfl) fates ((effect_obligations st c w).wp_run ⟨rfl, rfl⟩) with
    heffect | ⟨⟨e, he⟩, hcommits, hdb⟩ | ⟨k, hcommits, hk⟩
  · exact heffect
  · rw [he]
    refine Call.effect_error hdb fun token hr hinvalid => ?_
    rw [hinvalid] at he
    exact commits_of_sessionInvalidated hjwt hr he hcommits
  · obtain ⟨new, hnew, hall⟩ := alone_answered (c.run st) w hfates
    rw [hcommits] at hnew
    obtain rfl := List.append_cancel_left hnew
    exact absurd (hall k (List.mem_singleton_self k)) (by rw [hk]; decide)

end Request

theorem plainJwt_ownErrors : plainJwt.OwnErrors := by
  refine ⟨fun h => ?_, fun h => ?_⟩
  · cases h
  · simp only [plainJwt] at h
    split at h
    · cases h
    · cases h
      rfl

/-- A refresh of session `7` that goes through. -/
theorem request_effect_seven :
    (∃ r, (machine.alone 0 ((refreshSeven 0).run plainState) (.init plainDb) fun _ => .done).1 =
      .ok r) ∧
    (refreshSeven 0).Effect plainState plainDb
      (machine.alone 0 ((refreshSeven 0).run plainState) (.init plainDb) fun _ => .done).2.db
      (machine.alone 0 ((refreshSeven 0).run plainState) (.init plainDb) fun _ => .done).1 :=
  ⟨⟨_, rfl⟩, request_effect plainJwt_ownErrors (refreshSeven 0) (.init plainDb) (fun _ => .done)
    fun _ _ h => by cases h⟩

end AppHome
