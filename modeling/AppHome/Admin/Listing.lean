import AppHome.Admin.Roles

/-!
# Listing the users page by page

`GET /api/admin/users`: the users of a page come from one query, their roles from a second one that
is joined to the first in memory.

* `ListOp`, `listMachine` : the statements of `Admin.Op` and those of the listing;
* `normalizePerPage`, `normalizePage`, `listOffset` : the arithmetic of a page;
* `listUsers`, `listUsersHandler` : the repository method and the handler;
* `State.newestFirst`, `State.roleOf` : the order of the listing and the role each user has;
* `alone_listUsers`, `alone_getUser` : what the two methods return from tables that nobody changes;
* `users_paginated` : the pages together against the table and against `getUser`.
-/

namespace AppHome.Admin

open Interleave

/-! ## Statements -/

inductive ListOp where
  | base (o : Op)
  | listUserSummaries (limit offset : Nat)
  | countUsers
  | selectRoles (ids : List Uuid)

abbrev ListOp.Answer : ListOp → Type
  | .base o => o.Answer
  | .listUserSummaries _ _ => List UserSummary
  | .countUsers => Int64
  | .selectRoles _ => List (Uuid × String)

abbrev ListRes (o : ListOp) : Type := Except String o.Answer

/-- `created_at DESC, id DESC`. -/
def UserSummary.NewerOrSame (u u' : UserSummary) : Prop :=
  u'.createdAt < u.createdAt ∨ u.createdAt = u'.createdAt ∧ u'.id ≤ u.id

instance decidableNewerOrSame : DecidableRel UserSummary.NewerOrSame := fun _ _ =>
  inferInstanceAs (Decidable (_ ∨ _ ∧ _))

/-- `SELECT … FROM users ORDER BY created_at DESC, id DESC`. -/
def State.newestFirst (s : State) : List UserSummary :=
  s.users.rows.insertionSort UserSummary.NewerOrSame

/-- `SELECT user_id, role FROM user_roles WHERE user_id = ANY(ids)`. -/
def State.selectRoles (s : State) (ids : List Uuid) : List (Uuid × String) :=
  (s.roles.rows.filter fun r => ids.contains r.userId).map fun r => (r.userId, r.role)

def listExec (s : State) (o : ListOp) (f : Fate) : ListRes o × State :=
  match o, f with
  | .base o, f => exec s o f
  | .listUserSummaries limit offset, .done => (.ok ((s.newestFirst.drop offset).take limit), s)
  | .countUsers, .done => (.ok (.ofNat s.users.rows.length), s)
  | .selectRoles ids, .done => (.ok (s.selectRoles ids), s)
  | _, .failed e => (.error e, s)
  | _, .failedApplied e => (.error e, s)

def listMachine : Machine State ListOp ListRes Fate Nat :=
  ⟨fun s _ o f => listExec s o f, machine.ext⟩

/-! ## `PostgresUserDirectory` and `PostgresAdminRepo` -/

/-- `i64::try_from`, as the number of a row. -/
def i64TryFrom (n : UInt64) : Option Nat := if n.toNat < 2 ^ 63 then some n.toNat else none

/-- `PostgresUserDirectory::list_user_summaries`, with the message of its
`DomainError::InternalError`. -/
def listUserSummaries (limit : UInt32) (offset : UInt64) :
    Prog ListOp ListRes (Except String (List UserSummary)) :=
  match i64TryFrom offset with
  | none => .ret (.error "pagination offset exceeds PostgreSQL range")
  | some offset => .op (.listUserSummaries limit.toNat offset) .ret

/-- `PostgresUserDirectory::count_users`. -/
def countUsers : Prog ListOp ListRes (Except String UInt64) :=
  .op .countUsers fun n => .ret (n.map Int64.toUInt64)

/-- `HashMap<Uuid, Role>`. -/
abbrev AssignedRoles := Table (Prod.fst : Uuid × Role → Uuid)

/-- The rows collected into a map, or the first role that is none. -/
def collectRoles : List (Uuid × String) → AssignedRoles → Except AdminError AssignedRoles
  | [], roles => .ok roles
  | (id, t) :: rows, roles =>
    match Role.tryFrom t with
    | .ok role => collectRoles rows (roles.put (id, role))
    | .error e => .error (.internalError e)

def assignedRolesFor (ids : List Uuid) : Fallible ListOp ListRes AdminError AssignedRoles :=
  if ids.isEmpty then pure .empty
  else do
    let rows ← ExceptT.mk (.op (.selectRoles ids) fun r =>
        .ret (r.mapError AdminError.internalError))
    liftM (collectRoles rows .empty)

structure ListUsersResult where
  users : List AdminUser
  total : UInt64

/-- `u64::from(page.saturating_sub(1)) * u64::from(per_page)`. -/
def listOffset (page perPage : UInt32) : UInt64 :=
  (if page < 1 then 0 else page - 1).toUInt64 * perPage.toUInt64

def directoryError (e : String) : AdminError := .internalError ("Internal error: " ++ e)

/-- `PostgresAdminRepo::list_users`. Both queries of the `join!` run to their ends before their
results are looked at. -/
def listUsers (page perPage : UInt32) : Fallible ListOp ListRes AdminError ListUsersResult :=
  ExceptT.mk do
  let summaries ← listUserSummaries perPage (listOffset page perPage)
  let total ← countUsers
  ExceptT.run do
    let summaries ← liftM (summaries.mapError directoryError)
    let total ← liftM (total.mapError directoryError)
    let assignedRoles ← assignedRolesFor (summaries.map UserSummary.id)
    pure ⟨summaries.map fun s =>
      .new s (((assignedRoles.find? s.id).map Prod.snd).getD .user), total⟩

/-! ## The handler -/

def defaultPageSize : UInt32 := 100

def maxPageSize : UInt32 := 500

/-- `Ord::clamp`. -/
def clamp (n lo hi : UInt32) : UInt32 := if n < lo then lo else if hi < n then hi else n

def normalizePerPage (raw : Option UInt32) : UInt32 :=
  clamp (raw.getD defaultPageSize) 1 maxPageSize

def normalizePage (raw : Option UInt32) : Except Unit UInt32 :=
  if raw.getD 1 = 0 then .error () else .ok (raw.getD 1)

structure ListUsersQuery where
  page : Option UInt32
  perPage : Option UInt32

inductive ListResponse where
  | users (items : List AdminUser) (page perPage : UInt32) (total : UInt64)
  | error (status : Nat) (error : String)

/-- A call that only uses the statements of `Admin.Op`. -/
def ofBase {α : Type} (p : Prog Op Res α) : Prog ListOp ListRes α := p.widen .base fun _ r => r

def listUsersHandler (actorId : Uuid) (query : ListUsersQuery) : Prog ListOp ListRes ListResponse :=
  ofBase (isAdmin actorId).run >>= fun
    | .ok true =>
      match normalizePage query.page with
      | .error () => .ret (.error 400 "page must be >= 1")
      | .ok page =>
        let perPage := normalizePerPage query.perPage
        (listUsers page perPage).run >>= fun
          | .ok result => .ret (.users result.users page perPage result.total)
          | .error _ => .ret (.error 500 "Internal server error")
    | .ok false => .ret (.error 403 "Forbidden: admin access required")
    | .error _ => .ret (.error 500 "Internal server error")

/-! ## The arithmetic of a page -/

theorem normalizePerPage_bounds (raw : Option UInt32) :
    1 ≤ (normalizePerPage raw).toNat ∧ (normalizePerPage raw).toNat ≤ 500 := by
  unfold normalizePerPage clamp
  split_ifs with hlo hhi
  · decide
  · decide
  · have hlo : ¬ (raw.getD defaultPageSize).toNat < 1 := hlo
    have hhi : ¬ 500 < (raw.getD defaultPageSize).toNat := hhi
    omega

/-- Nothing wraps around, and nothing is out of the range of an `i64`. -/
theorem listOffset_toNat (page : UInt32) {perPage : UInt32} (hper : perPage.toNat ≤ 500) :
    (listOffset page perPage).toNat = (page.toNat - 1) * perPage.toNat ∧
    (listOffset page perPage).toNat < 2 ^ 63 := by
  have hpage : page.toNat < 2 ^ 32 := page.toNat_lt
  have hsub : (if page < 1 then 0 else page - 1).toNat = page.toNat - 1 := by
    split_ifs with h
    · have h : page.toNat < 1 := h
      show 0 = page.toNat - 1
      omega
    · exact UInt32.toNat_sub_of_le _ _ (UInt32.not_lt.mp h)
  have hbound : (page.toNat - 1) * perPage.toNat ≤ 2 ^ 32 * 500 := Nat.mul_le_mul (by omega) hper
  have hmul : (listOffset page perPage).toNat = (page.toNat - 1) * perPage.toNat := by
    rw [listOffset, UInt64.toNat_mul, UInt32.toNat_toUInt64, UInt32.toNat_toUInt64, hsub]
    exact Nat.mod_eq_of_lt (by omega)
  exact ⟨hmul, by omega⟩

theorem i64TryFrom_of_lt {n : UInt64} (h : n.toNat < 2 ^ 63) : i64TryFrom n = some n.toNat :=
  if_pos h

theorem flatMap_pages {α : Type} (l : List α) (per n : Nat) :
    (List.range n).flatMap (fun k => (l.drop (k * per)).take per) = l.take (n * per) := by
  induction n with
  | zero => simp
  | succ n ih =>
    rw [List.range_succ, List.flatMap_append, ih, List.flatMap_singleton, Nat.succ_mul,
      List.take_add]

/-! ## Roles -/

/-- `user_roles` holds valid roles. -/
def State.ValidRoles (s : State) : Prop :=
  ∀ r ∈ s.roles.rows, ∃ role, Role.tryFrom r.role = .ok role

/-- The role a user has. -/
def State.roleOf (s : State) (id : Uuid) : Role :=
  ((s.roles.find? id).bind fun r => (Role.tryFrom r.role).toOption).getD .user

theorem collectRoles_ok {rows : List (Uuid × String)}
    (hvalid : ∀ r ∈ rows, ∃ role, Role.tryFrom r.2 = .ok role)
    (hnodup : (rows.map Prod.fst).Nodup) (roles : AssignedRoles) :
    ∃ roles', collectRoles rows roles = .ok roles' ∧
      ∀ id role, (id, role) ∈ roles'.rows ↔
        (id, role) ∈ roles.rows ∧ id ∉ rows.map Prod.fst ∨ ∃ t, (id, t) ∈ rows ∧
        Role.tryFrom t = .ok role := by
  induction rows generalizing roles with
  | nil => exact ⟨roles, rfl, by simp⟩
  | cons row rows ih =>
      obtain ⟨id₀, t₀⟩ := row
      obtain ⟨role₀, hrole₀⟩ := hvalid (id₀, t₀) List.mem_cons_self
      rw [List.map_cons, List.nodup_cons] at hnodup
      obtain ⟨roles', hcollect, hmem⟩ :=
        ih (fun r hr => hvalid r (List.mem_cons_of_mem _ hr)) hnodup.2 (roles.put (id₀, role₀))
      refine ⟨roles', by rw [collectRoles, hrole₀]; exact hcollect, fun id role => ?_⟩
      rw [hmem, Table.mem_put]
      simp only [List.map_cons, List.mem_cons, Prod.mk.injEq]
      constructor
      · rintro (⟨⟨rfl, rfl⟩ | ⟨hold, hne⟩, hid⟩ | ⟨t, ht, hrole⟩)
        · exact Or.inr ⟨t₀, Or.inl ⟨rfl, rfl⟩, hrole₀⟩
        · exact Or.inl ⟨hold, fun h => h.elim hne hid⟩
        · exact Or.inr ⟨t, Or.inr ht, hrole⟩
      · rintro (⟨hold, hid⟩ | ⟨t, ⟨rfl, rfl⟩ | ht, hrole⟩)
        · exact Or.inl ⟨Or.inr ⟨hold, fun h => hid (Or.inl h)⟩, fun h => hid (Or.inr h)⟩
        · rw [hrole] at hrole₀
          cases hrole₀
          exact Or.inl ⟨Or.inl ⟨rfl, rfl⟩, hnodup.1⟩
        · exact Or.inr ⟨t, ht, hrole⟩

section Fixed
variable {s : State} (hroles : s.ValidRoles)
include hroles

theorem roleOf_of_mem {r : RoleRow} (hr : r ∈ s.roles.rows) :
    Role.tryFrom r.role = .ok (s.roleOf r.userId) := by
  obtain ⟨role, hrole⟩ := hroles r hr
  have hfind : s.roles.find? r.userId = some r := Table.find?_eq_some.mpr ⟨hr, rfl⟩
  rw [State.roleOf, hfind, Option.bind_some, hrole]
  rfl

/-- The rows that the second query of a page selects, collected, give every user of the page the
role that user has. -/
theorem collectRoles_selected (ids : List Uuid) :
    ∃ roles, collectRoles (s.selectRoles ids) .empty = .ok roles ∧
      ∀ id ∈ ids, ((roles.find? id).map Prod.snd).getD .user = s.roleOf id := by
  have hvalid : ∀ r ∈ s.selectRoles ids, ∃ role, Role.tryFrom r.2 = .ok role := by
    intro r hr
    obtain ⟨row, hrow, rfl⟩ := List.mem_map.mp hr
    exact hroles row (List.mem_filter.mp hrow).1
  have hnodup : ((s.selectRoles ids).map Prod.fst).Nodup := by
    rw [State.selectRoles, List.map_map]
    exact s.roles.nodup.sublist (List.filter_sublist.map _)
  obtain ⟨roles, hcollect, hmem⟩ := collectRoles_ok hvalid hnodup .empty
  refine ⟨roles, hcollect, fun id hid => ?_⟩
  cases hfind : s.roles.find? id with
  | none =>
      have hnone : roles.find? id = none := by
        refine Table.find?_eq_none.mpr fun r hr he => ?_
        obtain ⟨h, -⟩ | ⟨t, ht, -⟩ := (hmem r.1 r.2).mp hr
        · cases h
        · obtain ⟨row, hrow, heq⟩ := List.mem_map.mp ht
          have hkey : row.userId = id := (congrArg Prod.fst heq).trans he
          exact Table.find?_eq_none.mp hfind row (List.mem_filter.mp hrow).1 hkey
      rw [hnone, State.roleOf, hfind]
      rfl
  | some row =>
      obtain ⟨hrow, rfl⟩ := Table.find?_eq_some.mp hfind
      have hselected : (row.userId, row.role) ∈ s.selectRoles ids :=
        List.mem_map_of_mem (List.mem_filter.mpr ⟨hrow, by simpa using hid⟩)
      have hin : (row.userId, s.roleOf row.userId) ∈ roles.rows :=
        (hmem _ _).mpr (Or.inr ⟨row.role, hselected, roleOf_of_mem hroles hrow⟩)
      have hsome : roles.find? row.userId = some (row.userId, s.roleOf row.userId) :=
        Table.find?_eq_some.mpr ⟨hin, rfl⟩
      rw [hsome]
      rfl

/-! ## The methods on tables that nobody changes -/

theorem alone_roleFor (id : Uuid) :
    machine.alone 0 (roleFor id).run s (fun _ => .done) = (.ok (s.roleOf id), s) := by
  rw [roleFor, Fallible.run_bind, alone_bind]
  show machine.alone 0 (Fallible.andThen _ (.ok ((s.roles.find? id).map (·.role)))) s _ = _
  cases hfind : s.roles.find? id with
  | none =>
      rw [State.roleOf, hfind]
      rfl
  | some row =>
      obtain ⟨hrow, rfl⟩ := Table.find?_eq_some.mp hfind
      show machine.alone 0 (.ret ((Role.tryFrom row.role).mapError AdminError.internalError)) s _ =
          _
      rw [roleOf_of_mem hroles hrow]
      rfl

theorem alone_getUser {u : UserSummary} (hu : u ∈ s.users.rows) :
    machine.alone 0 (getUser u.id).run s (fun _ => .done) = (.ok (.new u (s.roleOf u.id)), s) := by
  have hfind : s.users.find? u.id = some u := Table.find?_eq_some.mpr ⟨hu, rfl⟩
  rw [getUser, Fallible.run_bind, alone_bind]
  show machine.alone 0 (Fallible.andThen _ (.ok (s.users.find? u.id))) s _ = _
  rw [hfind]
  show machine.alone 0 (roleFor u.id >>= fun role => pure (AdminUser.new u role)).run s _ = _
  rw [Fallible.run_bind, alone_bind, alone_roleFor hroles]
  rfl

theorem alone_isAdmin {u : UserSummary} (hu : u ∈ s.users.rows) :
    machine.alone 0 (isAdmin u.id).run s (fun _ => .done) = (.ok (s.roleOf u.id).isAdmin, s) := by
  have hfind : s.users.find? u.id = some u := Table.find?_eq_some.mpr ⟨hu, rfl⟩
  rw [isAdmin, Fallible.run_bind, alone_bind]
  show machine.alone 0 (Fallible.andThen _ (.ok (s.users.find? u.id))) s _ = _
  rw [hfind]
  show machine.alone 0 (roleFor u.id >>= fun role => pure role.isAdmin).run s _ = _
  rw [Fallible.run_bind, alone_bind, alone_roleFor hroles]
  rfl

theorem alone_assignedRolesFor (ids : List Uuid) :
    ∃ roles, listMachine.alone 0 (assignedRolesFor ids).run s (fun _ => .done) = (.ok roles, s) ∧
      ∀ id ∈ ids, ((roles.find? id).map Prod.snd).getD .user = s.roleOf id := by
  unfold assignedRolesFor
  split_ifs with hempty
  · rw [List.isEmpty_iff.mp hempty]
    exact ⟨.empty, rfl, by simp⟩
  · obtain ⟨roles, hcollect, hrole⟩ := collectRoles_selected hroles ids
    refine ⟨roles, ?_, hrole⟩
    rw [Fallible.run_bind, alone_bind]
    show listMachine.alone 0 (.ret (collectRoles (s.selectRoles ids) .empty)) s _ = _
    rw [hcollect]
    rfl

/-- A page is a slice of the table in its order, every user with the role that user has. -/
theorem alone_listUsers (page : UInt32) {perPage : UInt32} (hper : perPage.toNat ≤ 500) :
    listMachine.alone 0 (listUsers page perPage).run s (fun _ => .done) =
      (.ok ⟨((s.newestFirst.drop ((page.toNat - 1) * perPage.toNat)).take perPage.toNat).map
        fun u => .new u (s.roleOf u.id), (Int64.ofNat s.users.rows.length).toUInt64⟩, s) := by
  obtain ⟨hoffset, hrange⟩ := listOffset_toNat page hper
  show listMachine.alone 0 (listUserSummaries perPage (listOffset page perPage) >>= _) s _ = _
  rw [alone_bind, listUserSummaries, i64TryFrom_of_lt hrange, hoffset]
  generalize hslice :
    (s.newestFirst.drop ((page.toNat - 1) * perPage.toNat)).take perPage.toNat = slice
  show listMachine.alone 0 (countUsers >>= _) s _ = _
  rw [alone_bind]
  show listMachine.alone 0 (assignedRolesFor ((List.take _ _).map UserSummary.id) >>= _).run s _ = _
  rw [hslice, Fallible.run_bind, alone_bind]
  obtain ⟨roles, halone, hrole⟩ := alone_assignedRolesFor hroles (slice.map UserSummary.id)
  have hmap : slice.map (fun u => AdminUser.new u (((roles.find? u.id).map Prod.snd).getD .user)) =
      slice.map fun u => .new u (s.roleOf u.id) :=
    List.map_congr_left fun u hu => by rw [hrole u.id (List.mem_map_of_mem hu)]
  rw [halone, ← hmap]
  rfl

end Fixed

/-! ## The order -/

section Order

theorem newerOrSame_total (u u' : UserSummary) : u.NewerOrSame u' ∨ u'.NewerOrSame u := by
  rcases lt_trichotomy u.createdAt u'.createdAt with h | h | h
  · exact Or.inr (Or.inl h)
  · rcases Nat.le_total u.id.toNat u'.id.toNat with hid | hid
    · exact Or.inr (Or.inr ⟨h.symm, hid⟩)
    · exact Or.inl (Or.inr ⟨h, hid⟩)
  · exact Or.inl (Or.inl h)

theorem newerOrSame_trans {u u' u'' : UserSummary} (h : u.NewerOrSame u')
    (h' : u'.NewerOrSame u'') :
    u.NewerOrSame u'' := by
  rcases h with h | ⟨h, hid⟩
  · rcases h' with h' | ⟨h', -⟩
    · exact Or.inl (h'.trans h)
    · exact Or.inl (h' ▸ h)
  · rcases h' with h' | ⟨h', hid'⟩
    · exact Or.inl (h ▸ h')
    · exact Or.inr ⟨h.trans h', BitVec.le_trans hid' hid⟩

instance totalNewerOrSame : Std.Total UserSummary.NewerOrSame := ⟨newerOrSame_total⟩

instance transNewerOrSame : IsTrans UserSummary UserSummary.NewerOrSame :=
  ⟨fun _ _ _ => newerOrSame_trans⟩

/-- Descending by `created_at`, then by `id`. -/
def AdminUser.Newer (u u' : AdminUser) : Prop :=
  u'.createdAt < u.createdAt ∨ u.createdAt = u'.createdAt ∧ u'.id < u.id

theorem newestFirst_pairwise (s : State) :
    (s.newestFirst.map fun u => AdminUser.new u (s.roleOf u.id)).Pairwise AdminUser.Newer := by
  have hperm : List.Perm s.newestFirst s.users.rows := List.perm_insertionSort _ _
  have hne : s.newestFirst.Pairwise fun u u' => u.id ≠ u'.id :=
    List.pairwise_map.mp ((hperm.map UserSummary.id).nodup_iff.mpr s.users.nodup)
  have hsorted : s.newestFirst.Pairwise UserSummary.NewerOrSame := List.pairwise_insertionSort _ _
  refine List.pairwise_map.mpr (hsorted.imp₂ ?_ hne)
  rintro u u' (h | ⟨h, hid⟩) hid'
  · exact Or.inl h
  · exact Or.inr ⟨h, BitVec.lt_of_le_ne hid (Ne.symm hid')⟩

end Order

/-! ## All pages -/

/-- What `list_users` returns for a page when no statement fails. -/
def State.listed (s : State) (perPage page : UInt32) : Except AdminError ListUsersResult :=
  (listMachine.alone 0 (listUsers page perPage).run s fun _ => .done).1

/-- What `get_user` returns when no statement fails. -/
def State.got (s : State) (id : Uuid) : Except AdminError AdminUser :=
  (machine.alone 0 (getUser id).run s fun _ => .done).1

/-- The number of the last page with users. -/
def State.pageCount (s : State) (perPage : UInt32) : Nat := s.users.rows.length ⌈/⌉ perPage.toNat

theorem le_pageCount_iff (s : State) {perPage : UInt32} (hper : 0 < perPage.toNat) (n : Nat) :
    s.pageCount perPage ≤ n ↔ s.newestFirst.length ≤ n * perPage.toNat := by
  rw [State.pageCount, ceilDiv_le_iff_le_mul hper, State.newestFirst,
    List.length_insertionSort, Nat.mul_comm]

theorem listed_eq {s : State} (hroles : s.ValidRoles) {perPage : UInt32}
    (hper : perPage.toNat ≤ 500) (page : UInt32) :
    s.listed perPage page =
      .ok ⟨((s.newestFirst.drop ((page.toNat - 1) * perPage.toNat)).take perPage.toNat).map
      fun u => .new u (s.roleOf u.id), (Int64.ofNat s.users.rows.length).toUInt64⟩ :=
  congrArg Prod.fst (alone_listUsers hroles page hper)

theorem listed_all {s : State} (hroles : s.ValidRoles) {perPage : UInt32} (hpos : 0 < perPage.toNat)
    (hper : perPage.toNat ≤ 500) {pages : List UInt32}
    (hpages : pages.map UInt32.toNat = List.range' 1 (s.pageCount perPage)) :
    ∃ results, pages.mapM (s.listed perPage) = .ok results ∧
      (∀ r ∈ results, r.total = (Int64.ofNat s.users.rows.length).toUInt64) ∧
      results.flatMap ListUsersResult.users = s.newestFirst.map fun u =>
        .new u (s.roleOf u.id) := by
  have hall : s.newestFirst.length ≤ s.pageCount perPage * perPage.toNat :=
    (le_pageCount_iff s hpos _).mp le_rfl
  have hslices : (pages.flatMap fun page =>
      (s.newestFirst.drop ((page.toNat - 1) * perPage.toNat)).take perPage.toNat) =
      s.newestFirst :=
    calc _ = (pages.map UInt32.toNat).flatMap fun n =>
           (s.newestFirst.drop ((n - 1) * perPage.toNat)).take perPage.toNat :=
          (List.flatMap_map ..).symm
      _ = (List.range (s.pageCount perPage)).flatMap fun k =>
        (s.newestFirst.drop (k * perPage.toNat)).take perPage.toNat := by
          rw [hpages, List.range'_eq_map_range, List.flatMap_map]
          simp only [Nat.add_sub_cancel_left]
      _ = s.newestFirst.take (s.pageCount perPage * perPage.toNat) := flatMap_pages ..
      _ = s.newestFirst := List.take_of_length_le hall
  refine ⟨_, (congrArg (List.mapM · pages) (funext (listed_eq hroles hper))).trans
    List.mapM_pure, ?_, ?_⟩
  · intro r hr
    obtain ⟨page, -, rfl⟩ := List.mem_map.mp hr
    rfl
  · rw [List.flatMap_map, ← hslices, List.map_flatMap]
    simp only [hslices]

/-- A table whose pages can all be asked for is far from the limits of its count. -/
theorem total_toNat {s : State} {perPage : UInt32} (hpos : 0 < perPage.toNat)
    (hper : perPage.toNat ≤ 500) {pages : List UInt32}
    (hpages : pages.map UInt32.toNat = List.range' 1 (s.pageCount perPage)) :
    (Int64.ofNat s.users.rows.length).toUInt64.toNat = s.users.rows.length := by
  have hcount : s.pageCount perPage < 2 ^ 32 := by
    rcases Nat.eq_zero_or_pos (s.pageCount perPage) with h | h
    · omega
    · have hlast : s.pageCount perPage ∈ pages.map UInt32.toNat := by
        rw [hpages, List.mem_range'_1]
        omega
      obtain ⟨page, -, hpage⟩ := List.mem_map.mp hlast
      exact hpage ▸ page.toNat_lt
  have hlength : s.users.rows.length ≤ s.pageCount perPage * perPage.toNat := by
    have h := (le_pageCount_iff s hpos _).mp le_rfl
    rwa [State.newestFirst, List.length_insertionSort] at h
  have hbound : s.pageCount perPage * perPage.toNat ≤ 2 ^ 32 * 500 := Nat.mul_le_mul hcount.le hper
  show s.users.rows.length % 2 ^ 64 = _
  exact Nat.mod_eq_of_lt (by omega)

/-- **Every user is listed once, in descending order, as `get_user` shows that user.** The pages
after the last are empty, and the offset of no page is out of range. -/
theorem users_paginated (s : State) (hroles : s.ValidRoles) (raw : Option UInt32) :
    (∀ pages : List UInt32, pages.map UInt32.toNat =
      List.range' 1 (s.pageCount (normalizePerPage raw)) →
      ∃ results, pages.mapM (s.listed (normalizePerPage raw)) = .ok results ∧
      (∀ r ∈ results, r.total.toNat = s.users.rows.length) ∧
      ((results.flatMap ListUsersResult.users).map AdminUser.id).Perm
        (s.users.rows.map UserSummary.id) ∧
      (results.flatMap ListUsersResult.users).Pairwise AdminUser.Newer ∧
      ∀ item ∈ results.flatMap ListUsersResult.users, s.got item.id = .ok item) ∧
    (∀ page : UInt32, s.pageCount (normalizePerPage raw) < page.toNat →
      ∃ total, s.listed (normalizePerPage raw) page = .ok ⟨[], total⟩) ∧
    ∀ page : UInt32, (listOffset page (normalizePerPage raw)).toNat =
      (page.toNat - 1) * (normalizePerPage raw).toNat ∧
      i64TryFrom (listOffset page (normalizePerPage raw)) =
        some ((page.toNat - 1) * (normalizePerPage raw).toNat) := by
  obtain ⟨hpos, hper⟩ := normalizePerPage_bounds raw
  refine ⟨fun pages hpages => ?_, fun page hpage => ?_, fun page => ?_⟩
  · obtain ⟨results, hresults, htotal, hitems⟩ := listed_all hroles hpos hper hpages
    have hperm : List.Perm s.newestFirst s.users.rows := List.perm_insertionSort _ _
    refine ⟨results, hresults, ?_, ?_, ?_, ?_⟩
    · intro r hr
      rw [htotal r hr]
      exact total_toNat hpos hper hpages
    · rw [hitems, List.map_map]
      exact hperm.map UserSummary.id
    · rw [hitems]
      exact newestFirst_pairwise s
    · intro item hitem
      rw [hitems] at hitem
      obtain ⟨u, hu, rfl⟩ := List.mem_map.mp hitem
      exact congrArg Prod.fst (alone_getUser hroles (hperm.subset hu))
  · have hafter : s.newestFirst.length ≤ (page.toNat - 1) * (normalizePerPage raw).toNat :=
      (le_pageCount_iff s hpos _).mp (by omega)
    refine ⟨(Int64.ofNat s.users.rows.length).toUInt64, ?_⟩
    rw [listed_eq hroles hper page, List.drop_eq_nil_of_le hafter, List.take_nil]
    rfl
  · obtain ⟨hoffset, hrange⟩ := listOffset_toNat page hper
    exact ⟨hoffset, by rw [i64TryFrom_of_lt hrange, hoffset]⟩

/-- Two users of one instant, of whom the second is an administrator, and a third. -/
def threeUsers : State where
  users := ⟨[⟨1, none, "a@x", "A", "local", 10, 10⟩, ⟨2, none, "b@x", "B", "local", 10, 10⟩,
    ⟨3, some "c", "c@x", "C", "google", 20, 20⟩], by decide⟩
  roles := ⟨[⟨2, "admin", 15⟩], by decide⟩
  now := 30

theorem threeUsers_validRoles : threeUsers.ValidRoles := by
  intro r hr
  rw [List.mem_singleton.mp hr]
  exact ⟨.admin, rfl⟩

theorem users_paginated_three :
    ∃ results, [1, 2].mapM (threeUsers.listed (normalizePerPage (some 2))) = .ok results ∧
      ((results.flatMap ListUsersResult.users).map AdminUser.id).Perm [1, 2, 3] := by
  obtain ⟨results, hresults, -, hperm, -⟩ :=
    (users_paginated threeUsers threeUsers_validRoles (some 2)).1 [1, 2] (by decide)
  exact ⟨results, hresults, hperm⟩

/-- An administrator's request for a page is answered with what `list_users` returns. -/
theorem alone_listUsersHandler {s : State} (hroles : s.ValidRoles) {u : UserSummary}
    (hu : u ∈ s.users.rows) (hadmin : s.roleOf u.id = .admin) (query : ListUsersQuery)
    {page : UInt32} (hpage : normalizePage query.page = .ok page) :
    ∃ result, s.listed (normalizePerPage query.perPage) page = .ok result ∧
      (listMachine.alone 0 (listUsersHandler u.id query) s fun _ => .done).1 =
        .users result.users page (normalizePerPage query.perPage) result.total := by
  have hlist := alone_listUsers hroles page (normalizePerPage_bounds query.perPage).2
  refine ⟨_, congrArg Prod.fst hlist, ?_⟩
  rw [listUsersHandler, alone_bind, ofBase, alone_widen machine (fun s i o f => rfl),
    alone_isAdmin hroles hu, hadmin]
  simp only [Role.isAdmin, hpage]
  rw [alone_bind, hlist]
  rfl

end AppHome.Admin
