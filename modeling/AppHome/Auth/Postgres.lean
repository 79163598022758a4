import AppHome.Lib.Interleave
import AppHome.Lib.Table
import AppHome.Auth.Domain

/-!
# `PostgresUserRepo`: the rows, the loads and the save transaction

* `UserRow.intoUser`, `SessionRow.intoSession` : rows to entities, which fails on text the code
  never wrote;
* `Db.loadAggregate` : the user's session rows, newest first;
* `Db.saveAggregate` : the inserts, then one `UPDATE .. SET is_active = FALSE` for each session the
  aggregate holds inactive, all in one transaction;
* `Db.Le` : the tables may have grown, and a session row may have gone from active to inactive, but
  in no other way changed. `saveAggregate_le` and `create_le` keep to it.
-/

namespace AppHome

open Interleave

/-! ## Rows -/

structure UserRow where
  id : Uuid
  username : Option String
  email : String
  displayName : String
  passwordHash : Option String
  authProvider : String
  createdAt : Instant
  updatedAt : Instant

structure SessionRow where
  id : Uuid
  userId : Uuid
  refreshTokenHash : String
  expiresAt : Instant
  isActive : Bool
  createdAt : Instant
  authMethod : String
  deriving DecidableEq

def UserRow.intoUser (r : UserRow) : Except AuthError User := do
  let email ← (Email.new r.email).mapError .internalError
  let authProvider ← (AuthProviderKind.tryFrom r.authProvider).mapError .internalError
  let passwordHash ← match r.passwordHash with
    | none => pure none
    | some h => some <$> (HashedPassword.new h).mapError .internalError
  return ⟨r.id, r.username, email, r.displayName, passwordHash, authProvider,
    r.createdAt, r.updatedAt⟩

def SessionRow.intoSession (r : SessionRow) : Except AuthError Session := do
  let refreshTokenHash ← (HashedPassword.new r.refreshTokenHash).mapError .internalError
  let authMethod ← (AuthMethod.tryFrom r.authMethod).mapError .internalError
  return ⟨r.id, r.userId, refreshTokenHash, r.expiresAt, r.isActive, r.createdAt, authMethod⟩

/-- What `insert_session` writes. -/
def NewSession.row (s : NewSession) (now : Instant) : SessionRow :=
  ⟨s.id, s.userId, s.refreshTokenHash.value, s.expiresAt, true, now, s.authMethod.asStr⟩

/-- What `create` writes. -/
def NewUser.row (u : NewUser) (id : Uuid) (now : Instant) : UserRow :=
  ⟨id, u.username, u.email.value, u.displayName, u.passwordHash.map (·.value), u.authProvider.asStr,
    now, now⟩

/-! ## Tables and queries -/

structure Db where
  users : Table UserRow.id
  sessions : Table SessionRow.id

namespace Db

def sqlError {α : Type} (constraint : String) : Except AuthError α :=
  .error (.internalError ("error returned from database: " ++ constraint))

/-- The sessions of a user, newest first. -/
def loadAggregate (db : Db) (user : User) : Except AuthError UserAggregate := do
  let rows := (db.sessions.rows.filter fun r => r.userId = user.id).insertionSort
    fun a b => b.createdAt ≤ a.createdAt
  let sessions ← rows.mapM SessionRow.intoSession
  return .new user sessions

/-- The user row a query selects, with its sessions. -/
def findAggregate (db : Db) (p : UserRow → Bool) : Except AuthError (Option UserAggregate) :=
  match db.users.rows.find? p with
  | none => .ok none
  | some row => do
    let user ← row.intoUser
    let aggregate ← db.loadAggregate user
    return some aggregate

def findAggregateById (db : Db) (id : Uuid) : Except AuthError (Option UserAggregate) :=
  db.findAggregate fun r => r.id = id

def findAggregateByUsername (db : Db) (username : String) :
    Except AuthError (Option UserAggregate) :=
  db.findAggregate fun r => r.username = some username

def findAggregateByEmail (db : Db) (email : String) : Except AuthError (Option UserAggregate) :=
  db.findAggregate fun r => r.email = email

/-- `create`, under the primary key and the two unique columns of `users`. -/
def create (db : Db) (user : NewUser) (id : Uuid) (now : Instant) : Except AuthError (User × Db) :=
  let row := user.row id now
  if db.users.rows.any fun r => r.email = row.email then sqlError "users_email_key"
  else if db.users.rows.any fun r => r.username.isSome && r.username = row.username then
    sqlError "users_username_key"
  else
    match db.users.insert? row with
    | none => sqlError "users_pkey"
    | some users => do
      let user ← row.intoUser
      return (user, { db with users })

/-- `insert_session`, under the primary key and the foreign key of `sessions`. -/
def insertSession (db : Db) (s : NewSession) (now : Instant) : Except AuthError Db :=
  if (db.users.find? s.userId).isNone then sqlError "sessions_user_id_fkey"
  else
    match db.sessions.insert? (s.row now) with
    | none => sqlError "sessions_pkey"
    | some sessions => .ok { db with sessions }

/-- `UPDATE sessions SET is_active = FALSE WHERE id = $1`. -/
def deactivate (db : Db) (id : Uuid) : Db :=
  { db with
    sessions := db.sessions.modify (fun r => if r.id = id then { r with isActive := false } else r)
      fun r => by split <;> rfl }

def insertSessions (db : Db) (now : Nat → Instant) : List (NewSession × Nat) → Except AuthError Db
  | [] => .ok db
  | (s, i) :: rest => do
    let db ← db.insertSession s (now i)
    db.insertSessions now rest

/-- The ids the save marks inactive. -/
def invalidatedIds (a : UserAggregate) : List Uuid :=
  (a.sessions.filter fun s => !s.isActive).map (·.id)

def saveAggregate (db : Db) (a : UserAggregate) (newSessions : List NewSession)
    (now : Nat → Instant) : Except AuthError Db := do
  let db ← db.insertSessions now newSessions.zipIdx
  return (invalidatedIds a).foldl deactivate db

end Db

/-! ## What a load finds -/

theorem SessionRow.intoSession_ok {r : SessionRow} {s : Session} (h : r.intoSession = .ok s) :
    s.id = r.id ∧ s.userId = r.userId ∧ s.refreshTokenHash.value = r.refreshTokenHash ∧
      s.expiresAt = r.expiresAt ∧ s.isActive = r.isActive ∧ s.authMethod.asStr = r.authMethod := by
  obtain ⟨hash, hh, h⟩ := (bind_eq_ok_iff _ _ _).mp h
  obtain ⟨method, hm, h⟩ := (bind_eq_ok_iff _ _ _).mp h
  cases h
  exact ⟨rfl, rfl, HashedPassword.value_of_new (ok_of_mapError hh), rfl, rfl,
    AuthMethod.asStr_of_tryFrom (ok_of_mapError hm)⟩

/-- A row written by `insert_session`, also after it was marked inactive, decodes to what was
inserted. -/
theorem NewSession.intoSession_row (s : NewSession) (now : Instant) (active : Bool) :
    ({ s.row now with isActive := active } : SessionRow).intoSession =
      .ok ⟨s.id, s.userId, s.refreshTokenHash, s.expiresAt, active, now, s.authMethod⟩ := by
  simp only [SessionRow.intoSession, NewSession.row, HashedPassword.new_value,
    AuthMethod.tryFrom_asStr]
  rfl

theorem UserRow.intoUser_id {r : UserRow} {u : User} (h : r.intoUser = .ok u) :
    u.id = r.id ∧ u.username = r.username ∧ u.email.value = r.email := by
  obtain ⟨email, he, h⟩ := (bind_eq_ok_iff _ _ _).mp h
  obtain ⟨provider, -, h⟩ := (bind_eq_ok_iff _ _ _).mp h
  have hemail := Email.value_of_new (ok_of_mapError he)
  cases hw : r.passwordHash with
  | none =>
      rw [hw] at h
      cases h
      exact ⟨rfl, rfl, hemail⟩
  | some w =>
      rw [hw] at h
      obtain ⟨hash, -, h⟩ := (bind_eq_ok_iff _ _ _).mp h
      cases h
      exact ⟨rfl, rfl, hemail⟩

theorem mapM_intoSession {rows : List SessionRow} {sessions : List Session}
    (h : rows.mapM SessionRow.intoSession = .ok sessions) :
    sessions.map Except.ok = rows.map SessionRow.intoSession := by
  induction rows generalizing sessions with
  | nil =>
      cases h
      rfl
  | cons r rows ih =>
      rw [List.mapM_cons] at h
      obtain ⟨s, hr, h⟩ := (bind_eq_ok_iff _ _ _).mp h
      obtain ⟨ss, hs, h⟩ := (bind_eq_ok_iff _ _ _).mp h
      cases h
      rw [List.map_cons, List.map_cons, hr, ih hs]

/-- The aggregate holds exactly the user's session rows, decoded, and no events. -/
structure Db.Loads (db : Db) (a : UserAggregate) : Prop where
  events : a.pendingEvents = []
  rows : (a.sessions.map Except.ok).Perm
    ((db.sessions.rows.filter fun r => r.userId = a.user.id).map SessionRow.intoSession)

theorem Db.findAggregate_some {db : Db} {p : UserRow → Bool} {a : UserAggregate}
    (h : db.findAggregate p = .ok (some a)) :
    (∃ u ∈ db.users.rows, p u = true ∧ u.intoUser = .ok a.user) ∧ db.Loads a := by
  unfold Db.findAggregate at h
  split at h
  · cases h
  · rename_i u hu
    obtain ⟨user, hi, h⟩ := (bind_eq_ok_iff _ _ _).mp h
    obtain ⟨a', hload, h⟩ := (bind_eq_ok_iff _ _ _).mp h
    obtain ⟨sessions, hm, hload⟩ := (bind_eq_ok_iff _ _ _).mp hload
    cases hload
    cases h
    refine ⟨⟨u, List.mem_of_find?_eq_some hu, List.find?_some hu, hi⟩, rfl, ?_⟩
    rw [UserAggregate.new, mapM_intoSession hm]
    exact (List.perm_insertionSort _ _).map _

theorem Db.findAggregateById_some {db : Db} {id : Uuid} {a : UserAggregate}
    (h : db.findAggregateById id = .ok (some a)) : a.user.id = id ∧ db.Loads a := by
  obtain ⟨⟨u, -, hid, hu⟩, hload⟩ := Db.findAggregate_some h
  exact ⟨(UserRow.intoUser_id hu).1.trans (of_decide_eq_true hid), hload⟩

section Loads
variable {db : Db} {a : UserAggregate} (h : db.Loads a)
include h

theorem Db.Loads.row_of_mem {s : Session} (hs : s ∈ a.sessions) :
    ∃ r ∈ db.sessions.rows, r.userId = a.user.id ∧ r.intoSession = .ok s := by
  obtain ⟨r, hr, hd⟩ := List.mem_map.mp (h.rows.mem_iff.mp (List.mem_map_of_mem hs))
  have hm := List.mem_filter.mp hr
  exact ⟨r, hm.1, by simpa using hm.2, hd⟩

theorem Db.Loads.mem_of_row {r : SessionRow} (hr : r ∈ db.sessions.rows)
    (hu : r.userId = a.user.id) : ∃ s ∈ a.sessions, r.intoSession = .ok s := by
  have hm : r ∈ db.sessions.rows.filter fun r => r.userId = a.user.id :=
    List.mem_filter.mpr ⟨hr, by simpa using hu⟩
  obtain ⟨s, hs, hd⟩ := List.mem_map.mp (h.rows.mem_iff.mpr (List.mem_map_of_mem hm))
  exact ⟨s, hs, hd.symm⟩

/-- The session an id finds is the row with that id. -/
theorem Db.Loads.find_of_row {r : SessionRow} (hr : r ∈ db.sessions.rows)
    (hu : r.userId = a.user.id) :
    ∃ s, a.sessions.find? (fun s => s.id = r.id) = some s ∧ r.intoSession = .ok s := by
  obtain ⟨s, hs, hd⟩ := h.mem_of_row hr hu
  cases hf : a.sessions.find? fun s => s.id = r.id with
  | none =>
      have hne := List.find?_eq_none.mp hf s hs
      simp [(SessionRow.intoSession_ok hd).1] at hne
  | some t =>
      obtain ⟨ht, hid⟩ := UserAggregate.find_session hf
      obtain ⟨r', hr', -, hd'⟩ := h.row_of_mem ht
      have hkey : r'.id = r.id := by rw [← (SessionRow.intoSession_ok hd').1, hid]
      exact ⟨t, rfl, Table.eq_of_key hr' hr hkey ▸ hd'⟩

end Loads

/-! ## What a save writes -/

/-- A row after the `UPDATE`s of `ids`. -/
def SessionRow.retire (ids : List Uuid) (r : SessionRow) : SessionRow :=
  if r.id ∈ ids then { r with isActive := false } else r

@[simp] theorem SessionRow.retire_id (ids : List Uuid) (r : SessionRow) :
    (r.retire ids).id = r.id := by
  unfold SessionRow.retire
  split <;> rfl

@[simp] theorem SessionRow.retire_userId (ids : List Uuid) (r : SessionRow) :
    (r.retire ids).userId = r.userId := by
  unfold SessionRow.retire
  split <;> rfl

theorem SessionRow.retire_active {ids : List Uuid} {r : SessionRow} :
    (r.retire ids).isActive = true ↔ r.isActive = true ∧ r.id ∉ ids := by
  unfold SessionRow.retire
  split <;> simp_all

theorem SessionRow.retire_eq_self {ids : List Uuid} {r : SessionRow} (h : r.id ∉ ids) :
    r.retire ids = r := if_neg h

theorem Db.foldl_deactivate (ids : List Uuid) (db : Db) :
    (ids.foldl Db.deactivate db).users = db.users ∧
      (ids.foldl Db.deactivate db).sessions.rows =
        db.sessions.rows.map (SessionRow.retire ids) := by
  induction ids generalizing db with
  | nil =>
      refine ⟨rfl, ?_⟩
      have : SessionRow.retire [] = id := by
        funext r
        simp [SessionRow.retire]
      rw [List.foldl_nil, this, List.map_id]
  | cons i ids ih =>
      obtain ⟨hu, hs⟩ := ih (db.deactivate i)
      refine ⟨hu, ?_⟩
      rw [List.foldl_cons, hs]
      simp only [Db.deactivate, Table.modify, List.map_map]
      apply List.map_congr_left
      intro r _
      by_cases h1 : r.id = i <;> by_cases h2 : r.id ∈ ids <;> simp [SessionRow.retire, h1, h2]

theorem Db.insertSession_ok {db db' : Db} {s : NewSession} {now : Instant}
    (h : db.insertSession s now = .ok db') :
    (∃ u ∈ db.users.rows, u.id = s.userId) ∧ db'.users = db.users ∧
      (∀ r ∈ db.sessions.rows, r.id ≠ s.id) ∧
      db'.sessions.rows = db.sessions.rows ++ [s.row now] := by
  unfold Db.insertSession at h
  split at h
  · cases h
  · rename_i hu
    obtain ⟨u, hu⟩ := Option.ne_none_iff_exists'.mp (by simpa using hu)
    split at h
    · cases h
    · rename_i sessions hs
      cases h
      obtain ⟨hf, hr⟩ := Table.insert?_eq_some hs
      exact ⟨⟨u, (Table.find?_eq_some.mp hu).1, (Table.find?_eq_some.mp hu).2⟩, rfl, hf, hr⟩

/-- The rows of the inserted sessions. -/
def newRows (newSessions : List (NewSession × Nat)) (now : Nat → Instant) : List SessionRow :=
  newSessions.map fun p => p.1.row (now p.2)

theorem Db.insertSessions_ok {l : List (NewSession × Nat)} {now : Nat → Instant} {db db' : Db}
    (h : db.insertSessions now l = .ok db') :
    db'.users = db.users ∧ db'.sessions.rows = db.sessions.rows ++ newRows l now := by
  induction l generalizing db with
  | nil =>
      cases h
      exact ⟨rfl, by simp [newRows]⟩
  | cons p l ih =>
      obtain ⟨s, i⟩ := p
      obtain ⟨db1, hi, h⟩ := (bind_eq_ok_iff _ _ _).mp h
      obtain ⟨-, hu, -, hs⟩ := Db.insertSession_ok hi
      obtain ⟨hu', hs'⟩ := ih h
      refine ⟨hu'.trans hu, ?_⟩
      rw [hs', hs]
      simp [newRows]

/-- **A committed save**: the new rows are added, then every row the aggregate holds inactive is. -/
theorem Db.saveAggregate_ok {db db' : Db} {a : UserAggregate} {news : List NewSession}
    {now : Nat → Instant} (h : db.saveAggregate a news now = .ok db') :
    db'.users = db.users ∧ db'.sessions.rows =
      (db.sessions.rows ++ newRows news.zipIdx now).map
        (SessionRow.retire (Db.invalidatedIds a)) := by
  obtain ⟨db1, hi, h⟩ := (bind_eq_ok_iff _ _ _).mp h
  cases h
  obtain ⟨hu, hs⟩ := Db.insertSessions_ok hi
  obtain ⟨hu', hs'⟩ := Db.foldl_deactivate (Db.invalidatedIds a) db1
  exact ⟨hu'.trans hu, by rw [hs', hs]⟩

theorem Db.mem_invalidatedIds {a : UserAggregate} {i : Uuid} :
    i ∈ Db.invalidatedIds a ↔ ∃ s ∈ a.sessions, s.id = i ∧ s.isActive = false := by
  simp only [Db.invalidatedIds, List.mem_map, List.mem_filter, Bool.not_eq_true', and_assoc]
  constructor
  · rintro ⟨s, hs, hi, he⟩
    exact ⟨s, hs, he, hi⟩
  · rintro ⟨s, hs, he, hi⟩
    exact ⟨s, hs, hi, he⟩

/-- The session found by a rotation or a logout is among those the save marks inactive. -/
theorem Db.mem_invalidatedIds_retired {a : UserAggregate} {sid : Uuid} {s : Session} {e : Event}
    (hs : a.sessions.find? (fun s => s.id = sid) = some s) :
    sid ∈ Db.invalidatedIds (a.retired sid e) := by
  obtain ⟨hmem, hid⟩ := UserAggregate.find_session hs
  obtain ⟨t, ht, htid, hti⟩ := UserAggregate.exists_invalidateFirst hmem hid
  exact Db.mem_invalidatedIds.mpr ⟨t, ht, htid, hti⟩

/-! ## How the tables may change -/

/-- The same row, except that it may have become inactive. -/
structure SessionRow.Le (r r' : SessionRow) : Prop where
  id : r'.id = r.id
  userId : r'.userId = r.userId
  refreshTokenHash : r'.refreshTokenHash = r.refreshTokenHash
  expiresAt : r'.expiresAt = r.expiresAt
  createdAt : r'.createdAt = r.createdAt
  authMethod : r'.authMethod = r.authMethod
  isActive : r.isActive = false → r'.isActive = false

theorem SessionRow.Le.refl (r : SessionRow) : r.Le r := ⟨rfl, rfl, rfl, rfl, rfl, rfl, fun h => h⟩

theorem SessionRow.Le.trans {r r' r'' : SessionRow} (h : r.Le r') (h' : r'.Le r'') : r.Le r'' :=
  ⟨h'.id.trans h.id, h'.userId.trans h.userId, h'.refreshTokenHash.trans h.refreshTokenHash,
    h'.expiresAt.trans h.expiresAt, h'.createdAt.trans h.createdAt,
      h'.authMethod.trans h.authMethod, fun hi => h'.isActive (h.isActive hi)⟩

theorem SessionRow.le_retire (ids : List Uuid) (r : SessionRow) : r.Le (r.retire ids) := by
  unfold SessionRow.retire
  split
  · exact ⟨rfl, rfl, rfl, rfl, rfl, rfl, fun _ => rfl⟩
  · exact .refl r

/-- Users are only added, session rows only added or made inactive. -/
structure Db.Le (db db' : Db) : Prop where
  users : ∀ u ∈ db.users.rows, u ∈ db'.users.rows
  sessions : ∀ r ∈ db.sessions.rows, ∃ r' ∈ db'.sessions.rows, r.Le r'

theorem Db.Le.refl (db : Db) : db.Le db := ⟨fun _ h => h, fun r h => ⟨r, h, .refl r⟩⟩

theorem Db.Le.trans {db db' db'' : Db} (h : db.Le db') (h' : db'.Le db'') : db.Le db'' := by
  refine ⟨fun u hu => h'.users u (h.users u hu), fun r hr => ?_⟩
  obtain ⟨r', hr', hle⟩ := h.sessions r hr
  obtain ⟨r'', hr'', hle'⟩ := h'.sessions r' hr'
  exact ⟨r'', hr'', hle.trans hle'⟩

theorem Db.Le.find {db db' : Db} (h : db.Le db') {r : SessionRow}
    (hr : db.sessions.find? r.id = some r) :
    ∃ r', db'.sessions.find? r.id = some r' ∧ r.Le r' := by
  obtain ⟨r', hr', hle⟩ := h.sessions r (Table.find?_eq_some.mp hr).1
  exact ⟨r', Table.find?_eq_some.mpr ⟨hr', hle.id⟩, hle⟩

theorem Db.saveAggregate_le {db db' : Db} {a : UserAggregate} {news : List NewSession}
    {now : Nat → Instant} (h : db.saveAggregate a news now = .ok db') : db.Le db' := by
  obtain ⟨hu, hs⟩ := Db.saveAggregate_ok h
  refine ⟨fun u hm => by rw [hu]; exact hm, fun r hr => ?_⟩
  refine ⟨r.retire (Db.invalidatedIds a), ?_, SessionRow.le_retire _ r⟩
  rw [hs]
  exact List.mem_map_of_mem (List.mem_append_left _ hr)

/-- The row of this session is there and inactive. -/
def Db.Inactive (db : Db) (id : Uuid) : Prop :=
  ∃ r ∈ db.sessions.rows, r.id = id ∧ r.isActive = false

instance (db : Db) (id : Uuid) : Decidable (db.Inactive id) :=
  inferInstanceAs (Decidable (∃ r ∈ db.sessions.rows, r.id = id ∧ r.isActive = false))

theorem Db.Le.inactive {db db' : Db} (h : db.Le db') {id : Uuid} (hi : db.Inactive id) :
    db'.Inactive id := by
  obtain ⟨r, hr, hid, hi⟩ := hi
  obtain ⟨r', hr', hle⟩ := h.sessions r hr
  exact ⟨r', hr', hle.id.trans hid, hle.isActive hi⟩

theorem Db.saveAggregate_inactive {db db' : Db} {a : UserAggregate} {news : List NewSession}
    {now : Nat → Instant} (h : db.saveAggregate a news now = .ok db') {r : SessionRow}
    (hr : r ∈ db.sessions.rows) (hid : r.id ∈ Db.invalidatedIds a) : db'.Inactive r.id := by
  obtain ⟨-, hs⟩ := Db.saveAggregate_ok h
  refine ⟨r.retire (Db.invalidatedIds a), ?_, SessionRow.retire_id _ r, ?_⟩
  · rw [hs]
    exact List.mem_map_of_mem (List.mem_append_left _ hr)
  · rw [SessionRow.retire, if_pos hid]

theorem Db.create_ok {db db' : Db} {u : NewUser} {id : Uuid} {now : Instant} {user : User}
    (h : db.create u id now = .ok (user, db')) :
    db'.sessions = db.sessions ∧ (∀ r ∈ db.users.rows, r.id ≠ id) ∧
      db'.users.rows = db.users.rows ++ [u.row id now] ∧ (u.row id now).intoUser = .ok user := by
  unfold Db.create at h
  simp only at h
  split at h
  · cases h
  · split at h
    · cases h
    · split at h
      · cases h
      · rename_i users hi
        obtain ⟨user', hu, h⟩ := (bind_eq_ok_iff _ _ _).mp h
        cases h
        obtain ⟨hf, hr⟩ := Table.insert?_eq_some hi
        exact ⟨rfl, hf, hr, hu⟩

theorem Db.create_mem {db db' : Db} {u : NewUser} {id : Uuid} {now : Instant} {user : User}
    (h : db.create u id now = .ok (user, db')) : u.row id now ∈ db'.users.rows := by
  rw [(Db.create_ok h).2.2.1]
  exact List.mem_append_right _ List.mem_cons_self

theorem Db.create_le {db db' : Db} {u : NewUser} {id : Uuid} {now : Instant} {user : User}
    (h : db.create u id now = .ok (user, db')) : db.Le db' := by
  obtain ⟨hs, -, hu, -⟩ := Db.create_ok h
  refine ⟨fun r hr => ?_, fun r hr => ⟨r, by rw [hs]; exact hr, .refl r⟩⟩
  rw [hu]
  exact List.mem_append_left _ hr

end AppHome
