import AppHome.Admin.LastAdmin
import AppHome.Admin.Listing
import AppHome.Service.Access

/-!
# What admins may do

* `role_changes_authorized` : a role that is not the initial one was assigned by somebody else,
  whose token was accepted and who was an admin when the request looked;
* `admins_descend` : so every admin goes back to one of the beginning, and nobody becomes the first
  one;
* `users_shown_to_admins` : the endpoints for admins show nothing to others.
-/

namespace AppHome.Admin

open Interleave

/-! ## What the handlers ask -/

section Listing
variable {P : ListOp → Prop} (hbase : ∀ o, (∀ id role, o ≠ .upsertRole id role) → P (.base o))
  (hlist : ∀ o, (∀ o', o ≠ .base o') → P o)

include hlist in
theorem ops_listUsers (page perPage : UInt32) : (listUsers page perPage).run.Ops P := by
  refine Prog.Ops.bind ?_ fun summaries => Prog.Ops.bind ?_ fun total => ?_
  · unfold listUserSummaries
    split
    · trivial
    · exact ⟨hlist _ fun _ h => (by cases h), fun _ => trivial⟩
  · exact ⟨hlist _ fun _ h => (by cases h), fun _ => trivial⟩
  · rcases summaries with e | summaries
    · trivial
    · rcases total with e | total
      · trivial
      · refine Fallible.ops_bind trivial fun _ => Fallible.ops_bind trivial fun _ => ?_
        refine Fallible.ops_bind ?_ fun _ => trivial
        unfold assignedRolesFor
        split_ifs
        · trivial
        · refine Fallible.ops_bind ⟨hlist _ fun _ h => (by cases h), fun _ => trivial⟩
            fun rows => ?_
          cases collectRoles rows .empty <;> trivial

include hbase hlist in
theorem ops_listUsersHandler (actorId : Uuid) (query : ListUsersQuery) :
    (listUsersHandler actorId query).Ops P := by
  have hadmin : (ofBase (isAdmin actorId).run).Ops P := by
    refine Prog.ops_widen (ops_isAdmin (P := fun o => P (.base o)) ?_ ?_ actorId)
    · exact fun id => hbase _ fun _ _ h => by cases h
    · exact fun id => hbase _ fun _ _ h => by cases h
  refine hadmin.bind fun b => ?_
  rcases b with e | b
  · trivial
  · cases b with
    | false => trivial
    | true =>
        cases normalizePage query.page with
        | error e => trivial
        | ok page =>
            refine (ops_listUsers hlist page _).bind fun r => ?_
            cases r <;> trivial

end Listing

/-- The row of `actorId` was read and says `admin`. -/
def ToldAdmin (actorId : Uuid) : (o : Op) → Res o → Prop
  | .selectRole id, .ok (some text) => id = actorId ∧ text = Role.admin.asStr
  | _, _ => False

/-- The questions of `is_admin`. -/
def Op.Asks (id : Uuid) (o : Op) : Prop := o = .getUserSummary id ∨ o = .selectRole id

section Told
variable (id : Uuid)

theorem until_roleFor :
    (roleFor id).run.Until (fun o => ¬ o.Asks id) (ToldAdmin id) fun r => r ≠ .ok .admin := by
  have hask : ¬ ¬ (Op.selectRole id).Asks id := fun h => h (Or.inr rfl)
  refine Fallible.until_bind ⟨hask, fun r htold =>
    ⟨fun e _ h => (by cases h), fun text htext => ?_⟩⟩
  cases text with
  | none =>
      intro h
      cases h
  | some text =>
      have hr : r = .ok (some text) := ok_of_mapError htext
      subst hr
      show Prog.Until _ (ToldAdmin id) (fun r => r ≠ .ok .admin)
        (liftM ((Role.tryFrom text).mapError AdminError.internalError) : Query Role).run
      cases hrole : Role.tryFrom text with
      | error e =>
          intro h
          cases h
      | ok role =>
          intro h
          cases h
          exact htold ⟨rfl, Role.asStr_of_tryFrom hrole⟩

theorem until_isAdmin :
    (isAdmin id).run.Until (fun o => ¬ o.Asks id) (ToldAdmin id) fun r => r ≠ .ok true := by
  have hask : ¬ ¬ (Op.getUserSummary id).Asks id := fun h => h (Or.inl rfl)
  refine Fallible.until_bind ⟨hask, fun r _ => ⟨fun e _ h => (by cases h), fun summary _ => ?_⟩⟩
  cases summary with
  | none =>
      intro h
      cases h
  | some summary =>
      refine Fallible.until_bind ((until_roleFor id).mono fun r hr =>
        ⟨fun e _ h => (by cases h), fun role hrole => ?_⟩)
      subst hrole
      cases role with
      | admin => exact absurd rfl hr
      | user =>
          intro h
          cases h

end Told

/-- The answer says that the sender is no admin, or that this could not be found out. -/
def HttpResponse.Refuses (r : HttpResponse) : Prop := r.status = 403 ∨ r.status = 500

def ListResponse.Refuses : ListResponse → Prop
  | .users _ _ _ _ => False
  | .error status _ => status = 403 ∨ status = 500

theorem until_updateUserRoleHandler (r : RoleRequest) :
    (updateUserRoleHandler r).Until (fun o => ¬ o.Asks r.actorId)
    (ToldAdmin r.actorId) HttpResponse.Refuses := by
  refine ((until_isAdmin r.actorId).mono fun b hb => ?_).bind
  rcases b with e | b
  · exact Or.inr rfl
  · cases b with
    | false => exact Or.inl rfl
    | true => exact absurd rfl hb

theorem until_getUserHandler (actorId userId : Uuid) : (getUserHandler actorId userId).Until
    (fun o => ¬ o.Asks actorId) (ToldAdmin actorId) HttpResponse.Refuses := by
  refine ((until_isAdmin actorId).mono fun b hb => ?_).bind
  rcases b with e | b
  · exact Or.inr rfl
  · cases b with
    | false => exact Or.inl rfl
    | true => exact absurd rfl hb

/-- `ToldAdmin` among the statements of the listing. -/
def ListToldAdmin (actorId : Uuid) : (o : ListOp) → ListRes o → Prop
  | .base o, r => ToldAdmin actorId o r
  | _, _ => False

def ListOp.Asks (id : Uuid) (o : ListOp) : Prop := ∃ o', o = .base o' ∧ o'.Asks id

theorem until_ofBase {actorId : Uuid} {α : Type} {p : Prog Op Res α} {Q : α → Prop}
    (h : p.Until (fun o => ¬ o.Asks actorId) (ToldAdmin actorId) Q) :
    (ofBase p).Until (fun o => ¬ o.Asks actorId) (ListToldAdmin actorId) Q := by
  refine Prog.Until.widen ?_ ?_ h
  · exact fun o ho hask => ho ⟨o, rfl, hask⟩
  · exact fun o r hr => hr

theorem until_listUsersHandler (actorId : Uuid) (query : ListUsersQuery) :
    (listUsersHandler actorId query).Until
    (fun o => ¬ o.Asks actorId) (ListToldAdmin actorId) ListResponse.Refuses := by
  refine ((until_ofBase (until_isAdmin actorId)).mono fun b hb => ?_).bind
  rcases b with e | b
  · exact Or.inr rfl
  · cases b with
    | false => exact Or.inl rfl
    | true => exact absurd rfl hb

end AppHome.Admin

namespace AppHome.Service

open Interleave

/-! ## The endpoints for admins -/

/-- `is_admin` comes first in the handler. -/
def Endpoint.ForAdmins : Endpoint → Prop
  | .listUsers _ => True
  | .getUser _ => True
  | .updateUserRole _ _ => True
  | _ => False

/-- The answer shows nothing of the users. -/
def Outcome.Refuses : Outcome → Prop
  | .unauthorized => True
  | .users r => r.Refuses
  | .user r => r.Refuses
  | _ => False

def Told (id : Uuid) : (o : Op) → Res o → Prop
  | .admin o, r => Admin.ListToldAdmin id o r
  | _, _ => False

/-- What a request does before it is found that the sender `id` is an admin. -/
def Op.Checks (id : Uuid) (o : Op) : Prop := o.Extracts ∨ ∃ o', o = .admin o' ∧ o'.Asks id

theorem until_ofAdmin {α : Type} {id : Uuid} {p : Prog Admin.ListOp Admin.ListRes α}
    {Q : α → Prop} (h : p.Until (fun o => ¬ o.Asks id) (Admin.ListToldAdmin id) Q)
    {f : α → Outcome} (hf : ∀ a, Q a → (f a).Refuses) :
    (ofAdmin p >>= fun a => Prog.ret (f a)).Until (fun o => ¬ o.Checks id)
    (Told id) Outcome.Refuses := by
  have hwide : (ofAdmin p).Until (fun o => ¬ o.Checks id) (Told id) Q := by
    refine Prog.Until.widen ?_ ?_ h
    · exact fun o ho hask => ho (Or.inr ⟨o, rfl, hask⟩)
    · exact fun o r hr => hr
  exact (hwide.mono hf).bind

theorem until_forAdmins (app : App) (inst : Nat) {r : HttpRequest} (hadmin : r.endpoint.ForAdmins)
    {claims : AccessClaims} (hclaims : subject app.verification r.headers = some claims) :
    (r.serve app inst).Until (fun o => ¬ o.Checks claims.sub)
    (Told claims.sub) Outcome.Refuses := by
  have hbehind : ∀ {handler : AuthenticatedUser → Program Outcome},
      (handler claims.user).Until (fun o => ¬ o.Checks claims.sub)
      (Told claims.sub) Outcome.Refuses →
      (authenticated app.verification inst r.headers handler).Until (fun o => ¬ o.Checks claims.sub)
      (Told claims.sub)
        Outcome.Refuses := by
    refine fun h => until_behind (fun o ho hnot => hnot (Or.inl ho)) trivial
      fun claims' hclaims' => ?_
    cases hclaims.symm.trans hclaims'
    exact h
  unfold HttpRequest.serve
  cases hr : r.endpoint with
  | listUsers query =>
    exact hbehind (until_ofAdmin (Admin.until_listUsersHandler _ query) fun _ h => h)
  | getUser userId =>
      exact hbehind
        (until_ofAdmin (Admin.until_ofBase (Admin.until_getUserHandler _ userId)) fun _ h => h)
  | updateUserRole userId role =>
      exact hbehind
        (until_ofAdmin (Admin.until_ofBase (Admin.until_updateUserRoleHandler _)) fun _ h => h)
  | _ =>
      rw [hr] at hadmin
      exact hadmin.elim

section Runs
variable {d : Deployment} {app : App} {jobs : Nat → Job} {s : State} {i : Nat} {r : HttpRequest}
  {l : List (Label Fate Move)}

/-- The role that was read is the one that is stored. -/
theorem administers_of_told {t : State} {id : Uuid} {o : Op} {f : Fate}
    (h : Told id o (exec d t i o f).1) :
    t.admin.Administers id := by
  cases o with
  | admin o =>
      cases o with
      | base o =>
          cases o with
          | selectRole id' =>
              cases hf : f.admin with
              | done =>
                  simp only [exec, Admin.listExec, Admin.exec, hf] at h
                  cases hrow : t.admin.roles.find? id' with
                  | none =>
                      rw [hrow] at h
                      exact h.elim
                  | some row =>
                      rw [hrow] at h
                      obtain ⟨rfl, hrole⟩ := h
                      obtain ⟨hmem, hid⟩ := Table.find?_eq_some.mp hrow
                      exact ⟨row, hmem, hid, hrole⟩
              | failed e =>
                  simp only [exec, Admin.listExec, Admin.exec, hf] at h
                  exact h.elim
              | failedApplied e =>
                  simp only [exec, Admin.listExec, Admin.exec, hf] at h
                  exact h.elim
          | _ => exact h.elim
      | _ => exact h.elim
  | _ => exact h.elim

/-- A request that has got further than the check has seen its sender be an admin. -/
theorem administered_before (hjob : jobs i = .request r) (hadmin : r.endpoint.ForAdmins)
    {claims : AccessClaims} (hclaims : subject app.verification r.headers = some claims)
    (hi : (((machine d).run (service d app jobs s) l).thread i).Reaches
      (fun o => ¬ o.Checks claims.sub) Outcome.Refuses) :
    ∃ l₁ f l₂, l = l₁ ++ .run i f :: l₂ ∧ (after d app jobs s l₁).admin.Administers claims.sub := by
  have huntil : ((service d app jobs s).thread i).Until (fun o => ¬ o.Checks claims.sub)
      (Told claims.sub)
      Outcome.Refuses := by
    simp only [service, hjob, Job.prog]
    exact until_forAdmins app (d.inst i) hadmin hclaims
  obtain ⟨l₁, f, l₂, o, k, hl, -, htold⟩ := run_until (machine d) huntil hi
  exact ⟨l₁, f, l₂, hl, administers_of_told htold⟩

end Runs

/-! ## Roles -/

/-- Job `i` is a request to give `id` the role `role`, from the user `claims.sub`. -/
def Requests (app : App) (job : Job) (id : Uuid) (role : Admin.Role) (r : HttpRequest)
    (claims : AccessClaims) : Prop :=
  job = .request r ∧
    (∃ text, r.endpoint = .updateUserRole id text ∧ Admin.Role.tryFrom text = .ok role) ∧
    subject app.verification r.headers = some claims ∧ claims.sub ≠ id

/-- The operation writes no role, or that of a request. -/
def Op.Requested (app : App) (job : Job) (o : Op) : Prop :=
  ∀ id role, o = .admin (.base (.upsertRole id role)) →
    ∃ r claims, Requests app job id role r claims

theorem requested_of_ne {app : App} {job : Job} {o : Op}
    (h : ∀ id role, o ≠ .admin (.base (.upsertRole id role))) :
    o.Requested app job := fun id role ho => absurd ho (h id role)

theorem requested_job (app : App) (inst : Nat) (job : Job) :
    (job.prog app inst).Ops (Op.Requested app job) := by
  have hauth : ∀ o, (Op.auth o).Requested app job :=
    fun o => requested_of_ne fun _ _ h => by cases h
  have hlimiter : ∀ which o, (Op.limiter which o).Requested app job :=
    fun _ o => requested_of_ne fun _ _ h => by cases h
  have hrevocation : ∀ o, (Op.revocation o).Requested app job :=
    fun o => requested_of_ne fun _ _ h => by cases h
  have hprofile : ∀ o, (Op.profile o).Requested app job :=
    fun o => requested_of_ne fun _ _ h => by cases h
  have hnow : Op.utcNow.Requested app job := requested_of_ne fun _ _ h => by cases h
  have hread : ∀ o, (∀ id role, o ≠ .upsertRole id role) →
      (Op.admin (.base o)).Requested app job := fun o ho =>
    requested_of_ne fun id role h => by
      cases h
      exact ho id role rfl
  have hlist : ∀ o, (∀ o', o ≠ .base o') → (Op.admin o).Requested app job := fun o ho =>
    requested_of_ne fun id role h => by
      cases h
      exact ho _ rfl
  cases job with
  | sweep => exact (ops_ofRevocation hrevocation _).bind fun _ => trivial
  | request r =>
      show (r.serve app inst).Ops _
      by_cases hprotected : r.endpoint.limiter? = none
      · unfold HttpRequest.serve
        cases hr : r.endpoint with
        | logout sessionId =>
            exact ops_authenticated hnow hrevocation fun _ _ =>
              ops_logoutUser _ _ hauth hnow hrevocation _ _
        | getProfile =>
            exact ops_authenticated hnow hrevocation fun _ _ =>
              (ops_ofProfile hprofile _).bind fun _ => trivial
        | updateProfile avatarUrl bio =>
            exact ops_authenticated hnow hrevocation fun _ _ =>
              (ops_ofProfile hprofile _).bind fun _ => trivial
        | listUsers query =>
            refine ops_authenticated hnow hrevocation fun _ _ =>
              Prog.Ops.bind (Prog.ops_widen ?_) fun _ => trivial
            exact Admin.ops_listUsersHandler hread hlist _ _
        | getUser userId =>
            refine ops_authenticated hnow hrevocation fun _ _ =>
              Prog.Ops.bind (Prog.ops_widen (Prog.ops_widen ?_)) fun _ => trivial
            exact Admin.ops_getUserHandler (fun id => hread _ fun _ _ h => by cases h)
              (fun id => hread _ fun _ _ h => by cases h) _ _
        | updateUserRole userId text =>
            refine ops_authenticated hnow hrevocation fun claims hclaims =>
              Prog.Ops.bind (Prog.ops_widen (Prog.ops_widen ?_)) fun _ => trivial
            refine (Admin.ops_updateUserRoleHandler _).mono fun o ho id role hid => ?_
            cases hid
            obtain ⟨rfl, hother, hrole⟩ := ho id role rfl
            exact ⟨r, claims, rfl, ⟨text, hr, hrole⟩, hclaims, hother⟩
        | _ =>
            rw [hr] at hprotected
            cases hprotected
      · exact ops_serve_limited hauth hlimiter app inst hprotected

theorem exec_roles (d : Deployment) (t : State) (i : Nat) (o : Op) (f : Fate) :
    (exec d t i o f).2.roles = t.roles ∨ ∃ id role, o = .admin (.base (.upsertRole id role)) ∧
      (exec d t i o f).2.roles = t.roles.put ⟨id, role.asStr, t.revocations.now⟩ := by
  cases o with
  | admin o =>
      cases o with
      | base o =>
          rcases Admin.exec_cases t.admin o f.admin with h | ⟨id, role, rfl, h⟩
          · exact Or.inl (congrArg Admin.State.roles h)
          · exact Or.inr ⟨id, role, rfl, congrArg Admin.State.roles h⟩
      | listUserSummaries limit offset =>
        cases hf : f.admin <;> simp [exec, Admin.listExec, hf, State.setAdmin, State.admin]
      | countUsers =>
        cases hf : f.admin <;> simp [exec, Admin.listExec, hf, State.setAdmin, State.admin]
      | selectRoles ids =>
        cases hf : f.admin <;> simp [exec, Admin.listExec, hf, State.setAdmin, State.admin]
  | _ => exact Or.inl rfl

theorem exec_role (d : Deployment) (t : State) (i : Nat) (o : Op) (f : Fate) (id : Uuid) :
    (exec d t i o f).2.roles.find? id = t.roles.find? id ∨
    ∃ role, o = .admin (.base (.upsertRole id role)) ∧
      (exec d t i o f).2.roles.find? id = some ⟨id, role.asStr, t.revocations.now⟩ := by
  rcases exec_roles d t i o f with h | ⟨id', role, ho, h⟩
  · exact Or.inl (by rw [h])
  · rw [h, Table.find?_put]
    split_ifs with hid
    · have hid : id' = id := hid
      subst hid
      exact Or.inr ⟨role, ho, rfl⟩
    · exact Or.inl rfl

theorem move_roles (d : Deployment) (t : State) (e : Move) : (move d t e).roles = t.roles := by
  cases e <;> rfl

section Roles
variable (d : Deployment) (app : App) (jobs : Nat → Job) (s : State)

/-- The operation that job `i` performs after `l` gives `id` the role `role`. Before that its token
was accepted as one of `actor`, who is somebody else and was an admin when the job looked. -/
structure Assigns (l : List (Label Fate Move)) (i : Nat) (f : Fate) (actor id : Uuid)
    (role : Admin.Role) : Prop where
  request : ∃ r claims, Requests app (jobs i) id role r claims ∧ claims.sub = actor ∧
    Cleared d app jobs s i r.headers claims l
  admin : ∃ l₁ f' l₂, l = l₁ ++ .run i f' :: l₂ ∧ (after d app jobs s l₁).admin.Administers actor
  writes : ∃ k, ((machine d).run (service d app jobs s) l).thread i =
    .op (.admin (.base (.upsertRole id role))) k
  stored : (after d app jobs s (l ++ [.run i f])).roles.find? id =
    some ⟨id, role.asStr, (after d app jobs s l).revocations.now⟩

variable {d app jobs s}

/-- A job that changes the role of a user may do so. -/
theorem assigns_of_change {l : List (Label Fate Move)} {i : Nat} {f : Fate} {o : Op}
    {k : Res o → Program Outcome} {id : Uuid}
    (hi : ((machine d).run (service d app jobs s) l).thread i = .op o k)
    (hchange : (exec d (after d app jobs s l) i o f).2.roles.find? id ≠
      (after d app jobs s l).roles.find? id) :
    ∃ actor role, Assigns d app jobs s l i f actor id role := by
  rcases exec_role d (after d app jobs s l) i o f id with hsame | ⟨role, rfl, hstored⟩
  · exact absurd hsame hchange
  obtain ⟨r, claims, hrequest⟩ :=
    run_ops (machine d) (requested_job app (d.inst i) (jobs i)) hi id role rfl
  have ⟨hjob, ⟨text, hendpoint, _⟩, hclaims, _⟩ := hrequest
  have hpast : Past d app jobs s i l := by
    rw [Past, hi]
    exact fun h => h
  have hreaches : (((machine d).run (service d app jobs s) l).thread i).Reaches
      (fun o => ¬ o.Checks claims.sub)
      Outcome.Refuses := by
    rw [hi]
    rintro (h | ⟨o, ho, o', hbase, hask⟩)
    · exact h
    · cases ho
      cases hbase
      rcases hask with h | h <;> cases h
  obtain ⟨claims', hclaims', hcleared⟩ := cleared_of_past hjob (by rw [hendpoint]; rfl) hpast
  cases hclaims.symm.trans hclaims'
  refine ⟨claims.sub, role, ⟨r, claims, hrequest, rfl, hcleared⟩,
    administered_before hjob (by rw [hendpoint]; trivial) hclaims hreaches, ⟨k, hi⟩, ?_⟩
  rw [after, run_append, run_cons, run_nil, step_op (machine d) f hi]
  exact hstored

end Roles

/-- **Roles change by authority only.** In every run, the role of a user is the initial one or the
one that the last request to change it gave: a request of somebody else whose token was accepted and
who was an admin when it looked. -/
theorem role_changes_authorized (d : Deployment) (app : App) (jobs : Nat → Job) (s : State)
    (l : List (Label Fate Move)) (id : Uuid) :
    (after d app jobs s l).roles.find? id = s.roles.find? id ∨
      ∃ l₁ i f l₂ actor role, l = l₁ ++ .run i f :: l₂ ∧ Assigns d app jobs s l₁ i f actor id role ∧
        (∀ l₃, l₃ <+: l₂ → (after d app jobs s (l₁ ++ .run i f :: l₃)).roles.find? id =
          (after d app jobs s l).roles.find? id) ∧
        ((after d app jobs s l).roles.find? id).map (·.role) = some role.asStr := by
  by_cases hsame : (after d app jobs s l).roles.find? id = s.roles.find? id
  · exact Or.inl hsame
  · obtain ⟨l₁, i, f, l₂, o, k, hl, hi, hchange, hlater⟩ :=
      run_last_change (machine d) (v := fun t : State => t.roles.find? id)
        (c := service d app jobs s) (l := l)
        (fun t e => congrArg (·.find? id) (move_roles d t e)) hsame
    obtain ⟨actor, role, hassigns⟩ := assigns_of_change hi hchange
    refine Or.inr ⟨l₁, i, f, l₂, actor, role, hl, hassigns, hlater, ?_⟩
    have hlast := hlater [] List.nil_prefix
    rw [← hlast]
    exact congrArg (Option.map (·.role)) hassigns.stored

theorem administers_iff {t : State} {id : Uuid} :
    t.admin.Administers id ↔ (t.roles.find? id).map (·.role) = some Admin.Role.admin.asStr := by
  constructor
  · rintro ⟨row, hmem, hid, hrole⟩
    have hrow : t.roles.find? id = some row := Table.find?_eq_some.mpr ⟨hmem, hid⟩
    rw [hrow]
    exact congrArg some hrole
  · intro h
    obtain ⟨row, hrow, hrole⟩ := Option.map_eq_some_iff.mp h
    obtain ⟨hmem, hid⟩ := Table.find?_eq_some.mp hrow
    exact ⟨row, hmem, hid, hrole⟩

section Descent
variable (d : Deployment) (app : App) (jobs : Nat → Job) (s : State)

/-- In the run `l`, one user has made another one an admin. -/
def Grants (l : List (Label Fate Move)) (actor id : Uuid) : Prop :=
  ∃ l₁ i f l₂, l = l₁ ++ .run i f :: l₂ ∧ Assigns d app jobs s l₁ i f actor id .admin

variable {d app jobs s}

/-- An admin who was none at first was made one by a request. -/
theorem admin_made {l : List (Label Fate Move)} {id : Uuid} (hno : ¬ s.admin.Administers id)
    (h : (after d app jobs s l).admin.Administers id) :
    ∃ l₁ i f l₂ actor, l = l₁ ++ .run i f :: l₂ ∧ Assigns d app jobs s l₁ i f actor id .admin := by
  have hchanged : (after d app jobs s l).roles.find? id ≠ s.roles.find? id := by
    intro hsame
    rw [administers_iff] at hno h
    rw [hsame] at h
    exact hno h
  obtain ⟨l₁, i, f, l₂, o, k, hl, hi, hchange, hlater⟩ :=
    run_last_change (machine d) (v := fun t : State => t.roles.find? id)
      (c := service d app jobs s) (l := l)
      (fun t e => congrArg (·.find? id) (move_roles d t e)) hchanged
  obtain ⟨actor, role, hassigns⟩ := assigns_of_change hi hchange
  have hrole : role = .admin := by
    have hlast := hassigns.stored.symm.trans (hlater [] List.nil_prefix)
    rw [administers_iff] at h
    rw [show (after d app jobs s l).roles.find? id = _ from hlast.symm] at h
    exact Admin.Role.asStr_inj (Option.some.inj h)
  subst hrole
  exact ⟨l₁, i, f, l₂, actor, hl, hassigns⟩

end Descent

/-- **Admins descend from admins.** In every run, whoever is an admin was one from the beginning or
was made one by requests that go back to such an admin. So the service alone never gets its first
admin. -/
theorem admins_descend (d : Deployment) (app : App) (jobs : Nat → Job) (s : State)
    (l : List (Label Fate Move)) (id : Uuid) (h : (after d app jobs s l).admin.Administers id) :
    ∃ root, s.admin.Administers root ∧ Relation.ReflTransGen (Grants d app jobs s l) root id := by
  -- for every moment of the run, by the number of moves before it
  suffices hall : ∀ n (l₁ l₂ : List (Label Fate Move)) (id : Uuid), l₁.length ≤ n → l = l₁ ++ l₂ →
      (after d app jobs s l₁).admin.Administers id →
      ∃ root, s.admin.Administers root ∧ Relation.ReflTransGen (Grants d app jobs s l) root id from
    hall l.length l [] id le_rfl (List.append_nil l).symm h
  intro n
  induction n with
  | zero =>
      intro l₁ l₂ id hlen hl h
      rw [List.length_eq_zero_iff.mp (Nat.le_zero.mp hlen)] at h
      exact ⟨id, h, .refl⟩
  | succ n ih =>
      intro l₁ l₂ id hlen hl h
      by_cases hfirst : s.admin.Administers id
      · exact ⟨id, hfirst, .refl⟩
      · obtain ⟨l₃, i, f, l₄, actor, rfl, hassigns⟩ := admin_made hfirst h
        obtain ⟨l₅, f', l₆, rfl, hactor⟩ := hassigns.admin
        have hshort : l₅.length ≤ n := by
          simp only [List.length_append, List.length_cons] at hlen
          omega
        obtain ⟨root, hroot, hdescends⟩ :=
          ih l₅ (.run i f' :: l₆ ++ .run i f :: l₄ ++ l₂) actor hshort
          (by simp [hl]) hactor
        exact ⟨root, hroot, hdescends.tail ⟨_, i, f, l₄ ++ l₂, by simp [hl], hassigns⟩⟩

/-- A second user, who has no role. -/
def twoUsers : State :=
  { plainService with
    db := { plainDb with
      users := plainDb.users.put ⟨2, none, "b@example.org", "B", none, "google", 0, 0⟩ } }

/-- The admin makes the second user one. -/
def grantSecond : Nat → Job := fun i =>
  if i = 0 then .request ⟨.v4 1, plainBearer 1, plainEnv 8 0, .updateUserRole 2 "admin"⟩ else .sweep

/-- Job `0` goes on for `n` steps. -/
def steps (n : Nat) : List (Label Fate Move) := turns allDone [(0, n)]

theorem admins_descend_second : ¬ twoUsers.admin.Administers 2 ∧
    (after plainDeployment plainApp grantSecond twoUsers (steps 9)).admin.Administers 2 ∧
    ∃ root, twoUsers.admin.Administers root ∧
      Relation.ReflTransGen
        (Grants plainDeployment plainApp grantSecond twoUsers (steps 9)) root 2 := by
  have hgranted :
      (after plainDeployment plainApp grantSecond twoUsers (steps 9)).admin.Administers 2 :=
    administers_iff.mpr rfl
  refine ⟨fun h => ?_, hgranted, admins_descend _ _ _ _ _ _ hgranted⟩
  have hnone : ((twoUsers.roles.find? 2).map (·.role)) = none := rfl
  exact absurd (hnone.symm.trans (administers_iff.mp h)) (by simp)

/-! ## Answers -/

/-- **Users are shown to admins only.** Of the requests whose path, query and body could be parsed,
an endpoint for admins answers anything else than 401, 403 or 500 only to those whose token was
accepted and whose sender was an admin at some moment before. -/
theorem users_shown_to_admins (d : Deployment) (app : App) (jobs : Nat → Job) (s : State)
    (l : List (Label Fate Move)) (i : Nat) (r : HttpRequest) (hjob : jobs i = .request r)
    (hadmin : r.endpoint.ForAdmins) (a : Outcome)
    (hanswer : ((machine d).run (service d app jobs s) l).thread i = .ret a) (ha : ¬ a.Refuses) :
    ∃ claims, subject app.verification r.headers = some claims ∧
      Cleared d app jobs s i r.headers claims l ∧
      ∃ l₁, l₁ <+: l ∧ (after d app jobs s l₁).admin.Administers claims.sub := by
  have hprotected : r.endpoint.limiter? = none := by
    cases hendpoint : r.endpoint with
    | listUsers query => rfl
    | getUser userId => rfl
    | updateUserRole userId role => rfl
    | _ =>
        rw [hendpoint] at hadmin
        exact hadmin.elim
  have hpast : Past d app jobs s i l := by
    rw [Past, hanswer]
    rintro rfl
    exact ha trivial
  obtain ⟨claims, hclaims, hcleared⟩ := cleared_of_past hjob hprotected hpast
  have hreaches : (((machine d).run (service d app jobs s) l).thread i).Reaches
      (fun o => ¬ o.Checks claims.sub)
      Outcome.Refuses := by
    rw [hanswer]
    exact ha
  obtain ⟨l₁, f, l₂, hl, hadministers⟩ := administered_before hjob hadmin hclaims hreaches
  exact ⟨claims, hclaims, hcleared, l₁, ⟨_, hl.symm⟩, hadministers⟩

/-- The admin asks for the second user. -/
def showSecond : Nat → Job := fun i =>
  if i = 0 then .request ⟨.v4 1, plainBearer 1, plainEnv 8 0, .getUser 2⟩ else .sweep

theorem users_shown_to_admins_second :
    ∃ a, ((machine plainDeployment).run (service plainDeployment plainApp showSecond twoUsers)
      (steps 8)).thread 0 =
        .ret (.user a) ∧ a.status = 200 ∧
      ∃ claims, subject plainVerification (plainBearer 1) = some claims ∧
        Cleared plainDeployment plainApp showSecond twoUsers 0 (plainBearer 1) claims (steps 8) ∧
        ∃ l₁, l₁ <+: steps 8 ∧
          (after plainDeployment plainApp showSecond twoUsers l₁).admin.Administers claims.sub := by
  refine ⟨_, rfl, rfl, users_shown_to_admins plainDeployment plainApp showSecond twoUsers (steps 8)
    0 _ rfl trivial _ rfl ?_⟩
  rintro (h | h)
  · exact absurd h (by decide)
  · exact absurd h (by decide)

end AppHome.Service
