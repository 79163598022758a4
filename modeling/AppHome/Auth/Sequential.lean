import AppHome.Auth.Requests

/-!
# Requests one at a time

* `serve`, `serveAll` : a request, or a list of them, run to the end with nobody else moving and no
  storage failure;
* `Db.Owned`, `Db.Decodable` : every session row has its user, and moreover every row decodes. All
  operations keep the second (`World.exec_decodable`), and under it a load of a user's aggregate
  always succeeds (`Db.findAggregateById_ok`);
* `Db.create_load`, `Db.saveAggregate_of_fresh` : the load of a user that was just created, and the
  save of a session whose id is new, succeed.
-/

namespace AppHome

open Interleave

section Serve
variable (st : AppState)

def serve (w : World) (c : Call) : Except AuthError Response × World :=
  machine.alone 0 (c.run st) w fun _ => .done

def serveAll (w : World) (calls : List Call) : World := calls.foldl (fun w c => (serve st w c).2) w

theorem serveAll_append (w : World) (calls calls' : List Call) :
    serveAll st w (calls ++ calls') = serveAll st (serveAll st w calls) calls' := List.foldl_append

theorem serve_le (w : World) (c : Call) : w.Le (serve st w c).2 :=
  alone_rel .refl .trans World.exec_le 0 _ w _

theorem serveAll_le (w : World) (calls : List Call) : w.Le (serveAll st w calls) := by
  induction calls generalizing w with
  | nil => exact .refl w
  | cons c calls ih => exact (serve_le st w c).trans (ih _)

end Serve

/-! ## Rows that decode -/

structure Db.Decodable (db : Db) : Prop where
  users : ∀ u ∈ db.users.rows, ∃ user, u.intoUser = .ok user
  sessions : ∀ r ∈ db.sessions.rows, ∃ s, r.intoSession = .ok s
  owners : ∀ r ∈ db.sessions.rows, ∃ u ∈ db.users.rows, u.id = r.userId

theorem plainDb_decodable : plainDb.Decodable where
  users := List.forall_mem_singleton.mpr ⟨_, rfl⟩
  sessions := List.forall_mem_singleton.mpr ⟨_, rfl⟩
  owners := by decide

theorem SessionRow.intoSession_retire {r : SessionRow} {s : Session} (h : r.intoSession = .ok s)
    (ids : List Uuid) : ∃ s', (r.retire ids).intoSession = .ok s' := by
  unfold SessionRow.retire
  split
  · unfold SessionRow.intoSession at h ⊢
    obtain ⟨hash, hh, h⟩ := (bind_eq_ok_iff _ _ _).mp h
    obtain ⟨method, hm, -⟩ := (bind_eq_ok_iff _ _ _).mp h
    rw [hh, hm]
    exact ⟨_, rfl⟩
  · exact ⟨s, h⟩

/-- Every session belongs to a user. -/
def Db.Owned (db : Db) : Prop := ∀ r ∈ db.sessions.rows, ∃ u ∈ db.users.rows, u.id = r.userId

theorem Db.insertSession_owned {db db' : Db} {s : NewSession} {now : Instant}
    (h : db.insertSession s now = .ok db') (hdb : db.Owned) : db'.Owned := by
  obtain ⟨⟨u, hu, huid⟩, hus, -, hs⟩ := Db.insertSession_ok h
  intro r hr
  rw [hs, List.mem_append, List.mem_singleton] at hr
  rw [hus]
  rcases hr with hr | rfl
  · exact hdb r hr
  · exact ⟨u, hu, huid⟩

theorem Db.insertSessions_owned {l : List (NewSession × Nat)} {now : Nat → Instant} {db db' : Db}
    (h : db.insertSessions now l = .ok db') (hdb : db.Owned) : db'.Owned := by
  induction l generalizing db with
  | nil =>
      cases h
      exact hdb
  | cons p l ih =>
      obtain ⟨db1, hi, h⟩ := (bind_eq_ok_iff _ _ _).mp h
      exact ih h (Db.insertSession_owned hi hdb)

theorem Db.saveAggregate_owned {db db' : Db} {a : UserAggregate} {news : List NewSession}
    {now : Nat → Instant} (h : db.saveAggregate a news now = .ok db') (hdb : db.Owned) :
    db'.Owned := by
  obtain ⟨db1, hi, h⟩ := (bind_eq_ok_iff _ _ _).mp h
  have hdb1 := Db.insertSessions_owned hi hdb
  obtain ⟨hu, hs⟩ := Db.foldl_deactivate (Db.invalidatedIds a) db1
  cases h
  intro r hr
  rw [hs] at hr
  obtain ⟨r₀, hr₀, rfl⟩ := List.mem_map.mp hr
  rw [hu, SessionRow.retire_userId]
  exact hdb1 r₀ hr₀

theorem Db.create_owned {db db' : Db} {u : NewUser} {id : Uuid} {now : Instant} {user : User}
    (h : db.create u id now = .ok (user, db')) (hdb : db.Owned) : db'.Owned := by
  obtain ⟨hs, -, hu, -⟩ := Db.create_ok h
  intro r hr
  rw [hs] at hr
  obtain ⟨v, hv, hid⟩ := hdb r hr
  exact ⟨v, by rw [hu]; exact List.mem_append_left _ hv, hid⟩

theorem Db.insertSessions_decodable {l : List (NewSession × Nat)} {now : Nat → Instant}
    {db db' : Db} (h : db.insertSessions now l = .ok db') (hdb : db.Decodable) : db'.Decodable := by
  refine ⟨?_, ?_, Db.insertSessions_owned h hdb.owners⟩
  · rw [(Db.insertSessions_ok h).1]
    exact hdb.users
  · intro r hr
    rw [(Db.insertSessions_ok h).2, List.mem_append] at hr
    rcases hr with hr | hr
    · exact hdb.sessions r hr
    · obtain ⟨p, -, rfl⟩ := List.mem_map.mp hr
      exact ⟨_, p.1.intoSession_row (now p.2) true⟩

theorem Db.saveAggregate_decodable {db db' : Db} {a : UserAggregate} {news : List NewSession}
    {now : Nat → Instant} (h : db.saveAggregate a news now = .ok db') (hdb : db.Decodable) :
    db'.Decodable := by
  have howned := Db.saveAggregate_owned h hdb.owners
  obtain ⟨db1, hi, h⟩ := (bind_eq_ok_iff _ _ _).mp h
  have hdb1 := Db.insertSessions_decodable hi hdb
  obtain ⟨hu, hs⟩ := Db.foldl_deactivate (Db.invalidatedIds a) db1
  cases h
  refine ⟨by rw [hu]; exact hdb1.users, fun r hr => ?_, howned⟩
  rw [hs] at hr
  obtain ⟨r₀, hr₀, rfl⟩ := List.mem_map.mp hr
  obtain ⟨s, hd⟩ := hdb1.sessions r₀ hr₀
  exact SessionRow.intoSession_retire hd _

theorem Db.create_decodable {db db' : Db} {u : NewUser} {id : Uuid} {now : Instant} {user : User}
    (h : db.create u id now = .ok (user, db')) (hdb : db.Decodable) : db'.Decodable := by
  obtain ⟨hs, -, hu, hrow⟩ := Db.create_ok h
  refine ⟨fun r hr => ?_, by rw [hs]; exact hdb.sessions, Db.create_owned h hdb.owners⟩
  rw [hu, List.mem_append, List.mem_singleton] at hr
  rcases hr with hr | rfl
  · exact hdb.users r hr
  · exact ⟨user, hrow⟩

theorem World.exec_decodable (w : World) (i : Nat) (o : Op) (f : Fate) (h : w.db.Decodable) :
    (w.exec i o f).2.db.Decodable := by
  refine World.exec_rule (P := fun w => w.db.Decodable) f h (fun _ _ => h) ?_ ?_
  · exact fun u id now user db _ hdb => Db.create_decodable hdb h
  · exact fun a news now db _ hdb => Db.saveAggregate_decodable hdb h

theorem serve_decodable (st : AppState) {w : World} (h : w.db.Decodable) (c : Call) :
    (serve st w c).2.db.Decodable :=
  alone_rel (R := fun w w' => w.db.Decodable → w'.db.Decodable) (fun _ h => h)
    (fun h h' hd => h' (h hd)) World.exec_decodable 0 _ w _ h

theorem serveAll_decodable (st : AppState) {w : World} (h : w.db.Decodable) (calls : List Call) :
    (serveAll st w calls).db.Decodable := by
  induction calls generalizing w with
  | nil => exact h
  | cons c calls ih => exact ih (serve_decodable st h c)

/-! ## Loads that succeed -/

theorem mapM_intoSession_ok {rows : List SessionRow} (h : ∀ r ∈ rows, ∃ s, r.intoSession = .ok s) :
    ∃ sessions, rows.mapM SessionRow.intoSession = .ok sessions := by
  induction rows with
  | nil => exact ⟨[], rfl⟩
  | cons r rows ih =>
      obtain ⟨s, hs⟩ := h r List.mem_cons_self
      obtain ⟨ss, hss⟩ := ih fun r hr => h r (List.mem_cons_of_mem _ hr)
      refine ⟨s :: ss, ?_⟩
      rw [List.mapM_cons, hs, hss]
      rfl

/-- A load needs no more than the rows of its user to decode. -/
theorem Db.findAggregateById_of_rows {db : Db} {u : UserRow} {user : User}
    (hu : u ∈ db.users.rows) (huser : u.intoUser = .ok user)
    (hrows : ∀ r ∈ db.sessions.rows, r.userId = u.id → ∃ s, r.intoSession = .ok s) :
    ∃ a, db.findAggregateById u.id = .ok (some a) := by
  have hfind : db.users.rows.find? (fun r => r.id = u.id) = some u :=
    Table.find?_eq_some.mpr ⟨hu, rfl⟩
  have hdecode : ∀ r ∈ (db.sessions.rows.filter fun r => r.userId = user.id).insertionSort
      fun a b => b.createdAt ≤ a.createdAt, ∃ s, r.intoSession = .ok s := by
    intro r hr
    rw [List.mem_insertionSort, List.mem_filter, (UserRow.intoUser_id huser).1] at hr
    exact hrows r hr.1 (of_decide_eq_true hr.2)
  obtain ⟨sessions, hs⟩ := mapM_intoSession_ok hdecode
  refine ⟨.new user sessions, ?_⟩
  unfold Db.findAggregateById Db.findAggregate
  rw [hfind]
  simp only [huser, bind, Except.bind, Db.loadAggregate, hs]
  rfl

theorem Db.findAggregateById_ok {db : Db} (h : db.Decodable) {u : UserRow}
    (hu : u ∈ db.users.rows) :
    ∃ a, db.findAggregateById u.id = .ok (some a) := by
  obtain ⟨user, huser⟩ := h.users u hu
  exact Db.findAggregateById_of_rows hu huser fun r hr _ => h.sessions r hr

theorem Db.create_load {db db' : Db} {u : NewUser} {id : Uuid} {now : Instant} {user : User}
    (hnone : ∀ r ∈ db.sessions.rows, r.userId ≠ id) (h : db.create u id now = .ok (user, db')) :
    ∃ a, db'.findAggregateById user.id = .ok (some a) ∧ a.user.id = id ∧ a.sessions = [] := by
  obtain ⟨hs, -, -, hinto⟩ := Db.create_ok h
  rw [← hs] at hnone
  have hid : user.id = id := (UserRow.intoUser_id hinto).1
  obtain ⟨a, ha⟩ := Db.findAggregateById_of_rows (Db.create_mem h) hinto fun r hr heq =>
    absurd heq (hnone r hr)
  obtain ⟨haid, hload⟩ := Db.findAggregateById_some ha
  refine ⟨a, by rw [hid]; exact ha, haid, List.eq_nil_iff_forall_not_mem.mpr fun s hsmem => ?_⟩
  obtain ⟨r, hr, huid, -⟩ := hload.row_of_mem hsmem
  exact hnone r hr (huid.trans haid)

theorem Db.findAggregate_none {db : Db} {p : UserRow → Bool} (h : db.findAggregate p = .ok none) :
    ∀ u ∈ db.users.rows, p u = false := by
  unfold Db.findAggregate at h
  split at h
  · rename_i hfind
    exact fun u hu => Bool.eq_false_iff.mpr (List.find?_eq_none.mp hfind u hu)
  · obtain ⟨user, -, h⟩ := (bind_eq_ok_iff _ _ _).mp h
    obtain ⟨a, -, h⟩ := (bind_eq_ok_iff _ _ _).mp h
    cases h

/-! ## Saves that succeed -/

theorem Db.saveAggregate_of_fresh {db : Db} {s : NewSession} (a : UserAggregate)
    (now : Nat → Instant) (howner : ∃ u ∈ db.users.rows, u.id = s.userId)
    (hfresh : ∀ r ∈ db.sessions.rows, r.id ≠ s.id) :
    ∃ db', db.saveAggregate a [s] now = .ok db' := by
  obtain ⟨u, hu, huid⟩ := howner
  obtain ⟨sessions, hi, -⟩ := Table.insert?_of_fresh (t := db.sessions) (r := s.row (now 0)) hfresh
  have howned : db.users.find? s.userId = some u := Table.find?_eq_some.mpr ⟨hu, huid⟩
  have hinsert : db.insertSession s (now 0) = .ok { db with sessions } := by
    unfold Db.insertSession
    rw [howned, hi]
    rfl
  refine ⟨(Db.invalidatedIds a).foldl Db.deactivate { db with sessions }, ?_⟩
  unfold Db.saveAggregate
  simp only [List.zipIdx_cons, List.zipIdx_nil, Db.insertSessions, hinsert]
  rfl

/-! ## A refresh by itself -/

theorem Db.Decodable.load {db : Db} (h : db.Decodable) {r : SessionRow}
    (hr : r ∈ db.sessions.rows) :
    ∃ a, db.findAggregateById r.userId = .ok (some a) ∧ a.user.id = r.userId ∧ db.Loads a ∧
      ∃ s, a.sessions.find? (fun s => s.id = r.id) = some s ∧ r.intoSession = .ok s := by
  obtain ⟨u, hu, huid⟩ := h.owners r hr
  obtain ⟨a, ha⟩ := Db.findAggregateById_ok h hu
  rw [huid] at ha
  obtain ⟨haid, hload⟩ := Db.findAggregateById_some ha
  exact ⟨a, ha, haid, hload, hload.find_of_row hr haid.symm⟩

/-- What a refresh whose token validates does: it loads the user and carries out its plan. -/
theorem serve_refreshToken {st : AppState} {w : World} {c : Call} {token : Bytes}
    {claims : RefreshTokenClaims} (hreq : c.request = .refreshToken token)
    (hv : st.jwtService.validateRefreshToken c.env.validateAt token = .ok claims) :
    serve st w c =
      match (w.db.findAggregateById claims.sub).bind
        (refreshPlan st.jwtService st.bcrypt st.authSettings c.env claims token) with
      | .error e => (.error e, w)
      | .ok p =>
        match w.db.saveAggregate p.aggregate p.newSessions c.env.insertAt with
        | .error e => (.error e, w)
        | .ok db => (p.answer.map .refreshToken,
            { w with db, commits := w.commits ++ [⟨0, p.aggregate, p.newSessions, true⟩] }) := by
  unfold serve Call.run respond
  rw [hreq]
  simp only
  rw [refreshToken_run _ _ _ _ _ hv]
  change machine.alone 0 (commitPlan c.env.insertAt ((w.db.findAggregateById claims.sub).bind
    (refreshPlan st.jwtService st.bcrypt st.authSettings c.env claims token)) >>= _) w _ = _
  cases (w.db.findAggregateById claims.sub).bind
      (refreshPlan st.jwtService st.bcrypt st.authSettings c.env claims token) with
  | error e => rfl
  | ok p =>
      cases hs : w.db.saveAggregate p.aggregate p.newSessions c.env.insertAt with
      | error e =>
          simp only [commitPlan, Bind.bind, Prog.bind, Machine.alone, machine,
            World.exec, orFail, hs]
          rfl
      | ok db =>
          simp only [commitPlan, Bind.bind, Prog.bind, Machine.alone, machine,
            World.exec, orFail, hs]
          rfl

end AppHome
