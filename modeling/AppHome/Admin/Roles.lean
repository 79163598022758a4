import AppHome.Lib.Interleave
import AppHome.Lib.Table
import AppHome.Shared.Values

/-!
# Users and their roles

* `Role`, `AdminUser`, `AdminError` : the domain of the admin context;
* `State` : the users, as `UserDirectory` shows them, and the table `user_roles`;
* `Op`, `machine` : the statements of `PostgresAdminRepo`, one step each. A statement may fail, and
  an upsert may fail after it took effect. The environment's own move is the passing of time;
* `updateUserRole`, `updateUserRoleHandler`, `getUserHandler` : the use case and the handlers,
  statement by statement.
-/

namespace AppHome.Admin

open Interleave

/-! ## The domain -/

inductive Role where
  | user
  | admin
  deriving DecidableEq

namespace Role

def asStr : Role → String
  | .user => "user"
  | .admin => "admin"

def isAdmin : Role → Bool
  | .user => false
  | .admin => true

def tryFrom : String → Except String Role
  | "user" => .ok .user
  | "admin" => .ok .admin
  | other => .error ("Invalid role: " ++ other)

theorem asStr_of_tryFrom {t : String} {r : Role} (h : tryFrom t = .ok r) : t = r.asStr := by
  unfold tryFrom at h
  split at h
  · cases h
    rfl
  · cases h
    rfl
  · cases h

theorem asStr_inj {r r' : Role} (h : r.asStr = r'.asStr) : r = r' := by
  revert h
  cases r <;> cases r' <;> decide

end Role

inductive AdminError where
  | notFound (id : Uuid)
  | unauthorized
  | cannotChangeOwnRole
  | invalidValue (message : String)
  | internalError (message : String)

structure UserSummary where
  id : Uuid
  username : Option String
  email : String
  displayName : String
  authProvider : String
  createdAt : Instant
  updatedAt : Instant

structure AdminUser where
  id : Uuid
  username : Option String
  email : String
  displayName : String
  role : Role
  authProvider : String
  createdAt : Instant
  updatedAt : Instant

def AdminUser.new (s : UserSummary) (role : Role) : AdminUser :=
  ⟨s.id, s.username, s.email, s.displayName, role, s.authProvider, s.createdAt, s.updatedAt⟩

/-! ## The tables -/

/-- A row of `user_roles`, whose user is one of `users`. -/
structure RoleRow where
  userId : Uuid
  role : String
  updatedAt : Instant

structure State where
  users : Table UserSummary.id
  roles : Table RoleRow.userId
  now : Instant

namespace State

/-- The `INSERT ... ON CONFLICT (user_id) DO UPDATE` of `update_role`, unless the user does not
exist. -/
def upsertRole (s : State) (id : Uuid) (role : Role) : Except String State :=
  match s.users.find? id with
  | some _ => .ok { s with roles := s.roles.put ⟨id, role.asStr, s.now⟩ }
  | none => .error "insert or update on table \"user_roles\" violates foreign key constraint"

/-- The user has the role `admin`. -/
def Administers (s : State) (id : Uuid) : Prop :=
  ∃ r ∈ s.roles.rows, r.userId = id ∧ r.role = Role.admin.asStr

def HasAdmin (s : State) : Prop := ∃ id, s.Administers id

end State

/-! ## Statements -/

inductive Op where
  | getUserSummary (id : Uuid)
  | selectRole (id : Uuid)
  | upsertRole (id : Uuid) (role : Role)

abbrev Op.Answer : Op → Type
  | .getUserSummary _ => Option UserSummary
  | .selectRole _ => Option String
  | .upsertRole _ _ => Unit

/-- An answer, or the message of a storage error. -/
abbrev Res (o : Op) : Type := Except String o.Answer

/-- What becomes of a statement. -/
inductive Fate where
  | done
  | failed (e : String)
  | failedApplied (e : String)

def exec (s : State) (o : Op) (f : Fate) : Res o × State :=
  match o, f with
  | .getUserSummary id, .done => (.ok (s.users.find? id), s)
  | .selectRole id, .done => (.ok ((s.roles.find? id).map (·.role)), s)
  | .upsertRole id role, .done =>
    match s.upsertRole id role with
    | .ok s' => (.ok (), s')
    | .error e => (.error e, s)
  | .upsertRole id role, .failedApplied e => (.error e, (s.upsertRole id role).toOption.getD s)
  | _, .failed e => (.error e, s)
  | _, .failedApplied e => (.error e, s)

def machine :
    Machine State Op Res Fate Nat :=
      ⟨fun s _ o f => exec s o f, fun s nanos => { s with now := s.now + nanos }⟩

/-! ## `PostgresAdminRepo` -/

abbrev Query (α : Type) := Fallible Op Res AdminError α

def statement (o : Op) (err : String → AdminError) : Query o.Answer :=
  ExceptT.mk (.op o fun r => .ret (r.mapError err))

/-- A user without a row has the role `user`. -/
def roleFor (id : Uuid) : Query Role := do
  match ← statement (.selectRole id) .internalError with
  | some s => liftM ((Role.tryFrom s).mapError AdminError.internalError)
  | none => pure .user

/-- `get_user_summary`, whose error is a `DomainError::InternalError`. -/
def getUserSummary (id : Uuid) : Query (Option UserSummary) :=
  statement (.getUserSummary id) fun e => .internalError ("Internal error: " ++ e)

def getUser (id : Uuid) : Query AdminUser := do
  match ← getUserSummary id with
  | some summary => do
    let role ← roleFor id
    pure (.new summary role)
  | none => throw (.notFound id)

def isAdmin (id : Uuid) : Query Bool := do
  match ← getUserSummary id with
  | some _ => do
    let role ← roleFor id
    pure role.isAdmin
  | none => throw (.notFound id)

def updateRole (id : Uuid) (role : Role) : Query AdminUser := do
  statement (.upsertRole id role) .internalError
  getUser id

/-! ## The use case and its handler -/

def updateUserRole (actorId userId : Uuid) (newRole : String) : Query AdminUser :=
  if actorId = userId then throw .cannotChangeOwnRole
  else do
    let role ← liftM ((Role.tryFrom newRole).mapError fun _ =>
        AdminError.invalidValue "role must be 'user' or 'admin'")
    let _ ← getUser userId
    updateRole userId role

inductive ResponseBody where
  | user (user : AdminUser)
  | error (error : String)

structure HttpResponse where
  status : Nat
  body : ResponseBody

def errorResponse (status : Nat) (error : String) : HttpResponse := ⟨status, .error error⟩

/-- `PUT /api/admin/users/{id}/role` by an authenticated user. -/
structure RoleRequest where
  actorId : Uuid
  userId : Uuid
  role : String

def roleResponse : Except AdminError AdminUser → HttpResponse
  | .ok user => ⟨200, .user user⟩
  | .error (.notFound _) => errorResponse 404 "User not found"
  | .error .cannotChangeOwnRole => errorResponse 403 "Cannot change your own role"
  | .error (.invalidValue message) => errorResponse 400 message
  | .error _ => errorResponse 500 "Internal server error"

def updateUserRoleHandler (r : RoleRequest) : Prog Op Res HttpResponse :=
  (isAdmin r.actorId).run >>= fun
    | .ok true => (updateUserRole r.actorId r.userId r.role).run >>= fun result =>
      .ret (roleResponse result)
    | .ok false => .ret (errorResponse 403 "Forbidden: admin access required")
    | .error _ => .ret (errorResponse 500 "Internal server error")

/-- `GET /api/admin/users/{id}` by an authenticated user. -/
def getUserHandler (actorId userId : Uuid) : Prog Op Res HttpResponse :=
  (isAdmin actorId).run >>= fun
    | .ok true => (getUser userId).run >>= fun
      | .ok user => .ret ⟨200, .user user⟩
      | .error (.notFound _) => .ret (errorResponse 404 "User not found")
      | .error _ => .ret (errorResponse 500 "Internal server error")
    | .ok false => .ret (errorResponse 403 "Forbidden: admin access required")
    | .error _ => .ret (errorResponse 500 "Internal server error")

/-- Any number of requests, none of them begun. -/
def serve (requests : Nat → RoleRequest) (s : State) : Cfg State Op Res HttpResponse :=
  ⟨s, fun i => updateUserRoleHandler (requests i)⟩

end AppHome.Admin
