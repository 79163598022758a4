import AppHome.Admin.Roles
import AppHome.Lib.Component

/-!
# The last administrator

An admin cannot change the own role, but two admins can demote each other (`mutual_demotion`):
`is_admin` and the upsert are separate statements. What the ban on self-changes gives:

* `admin_remains` : no run loses its last admin in which every demotion is made by a user who is
  still an admin;
* `alone_keeps_admin` : requests that are served one at a time are such a run.
-/

namespace AppHome.Admin

open Interleave

/-! ## What a statement changes -/

section Statements
variable {s : State}

theorem administers_put (id id' : Uuid) (role : Role) :
    ({ s with roles := s.roles.put ⟨id, role.asStr, s.now⟩ } : State).Administers id' ↔
      if id' = id then role = .admin else s.Administers id' := by
  unfold State.Administers
  simp only [Table.mem_put]
  split_ifs with h
  · constructor
    · rintro ⟨r, rfl | ⟨_, hne⟩, hid, hrole⟩
      · exact Role.asStr_inj hrole
      · exact absurd (hid.trans h) hne
    · rintro rfl
      exact ⟨_, Or.inl rfl, h.symm, rfl⟩
  · constructor
    · rintro ⟨r, rfl | ⟨hr, _⟩, hid, hrole⟩
      · exact absurd hid.symm h
      · exact ⟨r, hr, hid, hrole⟩
    · rintro ⟨r, hr, hid, hrole⟩
      exact ⟨r, Or.inr ⟨hr, fun hkey => h (hid.symm.trans hkey)⟩, hid, hrole⟩

/-- The tables after a statement: as before, or with one upsert. -/
theorem exec_cases (s : State) (o : Op) (f : Fate) :
    (exec s o f).2 = s ∨ ∃ id role, o = .upsertRole id role ∧
      (exec s o f).2 = { s with roles := s.roles.put ⟨id, role.asStr, s.now⟩ } := by
  cases o with
  | getUserSummary id => cases f <;> exact Or.inl rfl
  | selectRole id => cases f <;> exact Or.inl rfl
  | upsertRole id role =>
      have hupsert : s.upsertRole id role =
          .ok { s with roles := s.roles.put ⟨id, role.asStr, s.now⟩ } ∨
          ∃ e, s.upsertRole id role = .error e := by
        unfold State.upsertRole
        split
        · exact Or.inl rfl
        · exact Or.inr ⟨_, rfl⟩
      cases f with
      | failed e => exact Or.inl rfl
      | done =>
          rcases hupsert with h | ⟨e, h⟩
          · exact Or.inr ⟨id, role, rfl, by simp only [exec, h]⟩
          · exact Or.inl (by simp only [exec, h])
      | failedApplied e =>
          rcases hupsert with h | ⟨e', h⟩
          · exact Or.inr ⟨id, role, rfl, by simp only [exec, h, Except.toOption, Option.getD_some]⟩
          · exact Or.inl (by simp only [exec, h, Except.toOption, Option.getD_none])

/-- A statement that does not touch the row of `actorId`, and demotes nobody unless `actorId` is an
admin. -/
theorem hasAdmin_exec {actorId : Uuid} {o : Op}
    (hother : ∀ id role, o = .upsertRole id role → id ≠ actorId)
    (hactor : ∀ id, o = .upsertRole id .user → s.Administers actorId) (h : s.HasAdmin) (f : Fate) :
    (exec s o f).2.HasAdmin := by
  rcases exec_cases s o f with heq | ⟨id, role, ho, heq⟩
  · rw [heq]
    exact h
  · rw [heq]
    cases role with
    | admin => exact ⟨id, (administers_put id id .admin).mpr (by rw [if_pos rfl])⟩
    | user =>
        have hne : actorId ≠ id := (hother id .user ho).symm
        exact ⟨actorId, (administers_put id actorId .user).mpr
          (by rw [if_neg hne]; exact hactor id ho)⟩

end Statements

/-! ## What a request asks and writes -/

section Reads
variable {P : Op → Prop} (hsummary : ∀ id, P (.getUserSummary id))
  (hselect : ∀ id, P (.selectRole id))

theorem ops_lift {α : Type} (x : Except AdminError α) :
    (liftM x : Query α).run.Ops P := by cases x <;> trivial

include hselect in
theorem ops_roleFor (id : Uuid) : (roleFor id).run.Ops P := by
  refine Fallible.ops_bind ⟨hselect id, fun _ => trivial⟩ fun r => ?_
  cases r with
  | some text => exact ops_lift _
  | none => trivial

include hsummary hselect

theorem ops_getUser (id : Uuid) : (getUser id).run.Ops P := by
  refine Fallible.ops_bind ⟨hsummary id, fun _ => trivial⟩ fun r => ?_
  cases r with
  | some summary => exact Fallible.ops_bind (ops_roleFor hselect id) fun _ => trivial
  | none => trivial

theorem ops_isAdmin (id : Uuid) : (isAdmin id).run.Ops P := by
  refine Fallible.ops_bind ⟨hsummary id, fun _ => trivial⟩ fun r => ?_
  cases r with
  | some summary => exact Fallible.ops_bind (ops_roleFor hselect id) fun _ => trivial
  | none => trivial

theorem ops_getUserHandler (actorId userId : Uuid) : (getUserHandler actorId userId).Ops P := by
  refine (ops_isAdmin hsummary hselect actorId).bind fun b => ?_
  rcases b with e | b
  · trivial
  · cases b with
    | false => trivial
    | true =>
        refine (ops_getUser hsummary hselect userId).bind fun r => ?_
        rcases r with e | user
        · cases e <;> trivial
        · trivial

end Reads

/-- The row that a request may write, and the role it may put there. -/
def RoleRequest.Permits (r : RoleRequest) (o : Op) : Prop :=
  ∀ id role, o = .upsertRole id role → id = r.userId ∧ r.actorId ≠ r.userId ∧
    Role.tryFrom r.role = .ok role

theorem ops_updateUserRoleHandler (r : RoleRequest) : (updateUserRoleHandler r).Ops r.Permits := by
  have hsummary : ∀ id, r.Permits (.getUserSummary id) := fun _ _ _ h => by cases h
  have hselect : ∀ id, r.Permits (.selectRole id) := fun _ _ _ h => by cases h
  refine (ops_isAdmin hsummary hselect r.actorId).bind fun b => ?_
  rcases b with e | b
  · trivial
  · cases b with
    | false => trivial
    | true =>
        refine Prog.Ops.bind ?_ fun _ => trivial
        unfold updateUserRole
        split_ifs with hself
        · trivial
        · rw [Fallible.run_lift_bind]
          cases hrole : (Role.tryFrom r.role).mapError fun _ =>
            AdminError.invalidValue "role must be 'user' or 'admin'" with
          | error e => trivial
          | ok role =>
              refine Fallible.ops_bind (ops_getUser hsummary hselect r.userId) fun _ => ?_
              refine Fallible.ops_bind ⟨?_, fun _ => trivial⟩ fun _ =>
                ops_getUser hsummary hselect r.userId
              intro id role' h
              cases h
              exact ⟨rfl, hself, ok_of_mapError hrole⟩

/-- The statement is no upsert of the row of `actorId`. -/
def Op.SparesRole (actorId : Uuid) (o : Op) : Prop :=
  ∀ id role, o = .upsertRole id role → id ≠ actorId

/-- No request changes the role of the user who makes it. -/
theorem updateUserRoleHandler_ops (r : RoleRequest) :
    (updateUserRoleHandler r).Ops (Op.SparesRole r.actorId) := by
  refine (ops_updateUserRoleHandler r).mono fun o ho id role h => ?_
  obtain ⟨rfl, hother, -⟩ := ho id role h
  exact hother.symm

/-! ## Runs -/

section Run
variable (requests : Nat → RoleRequest)

/-- A demotion is made by a user who is an admin when it is made. -/
def Supported (c : Cfg State Op Res HttpResponse) (a : Label Fate Nat) : Prop :=
  ∀ i f id k, a = .run i f → c.thread i = .op (.upsertRole id .user) k →
    c.shared.Administers (requests i).actorId

instance State.decidableAdministers (s : State) (id : Uuid) : Decidable (s.Administers id) :=
  inferInstanceAs (Decidable (∃ r ∈ s.roles.rows, r.userId = id ∧ r.role = Role.admin.asStr))

instance Supported.decidable (c : Cfg State Op Res HttpResponse) (a : Label Fate Nat) :
    Decidable (Supported requests c a) :=
  match a with
  | .ext n => isTrue fun i f id k h => by cases h
  | .run i f =>
    match hi : c.thread i with
    | .op (.upsertRole id .user) k =>
      decidable_of_iff (c.shared.Administers (requests i).actorId)
        ⟨fun h j f' id' k' hj _ => by cases hj; exact h, fun h => h i f id k rfl hi⟩
    | .ret r => isTrue fun j f' id k hj hop => by cases hj; cases hi.symm.trans hop
    | .op (.upsertRole id .admin) k => isTrue fun j f' id k hj hop => by
      cases hj; cases hi.symm.trans hop
    | .op (.selectRole id) k => isTrue fun j f' id k hj hop => by cases hj; cases hi.symm.trans hop
    | .op (.getUserSummary id) k => isTrue fun j f' id k hj hop => by
      cases hj; cases hi.symm.trans hop

def rolesContract : Contract State Op where
  rely _ _ _ := True
  guar i _ o := o.SparesRole (requests i).actorId

/-- **Some admin remains** in every run whose demotions are all made by users who
are still admins. -/
theorem admin_remains (s : State) (h : s.HasAdmin) (l : List (Label Fate Nat))
    (hl : machine.Along (Supported requests) (serve requests s) l) :
    (machine.run (serve requests s) l).shared.HasAdmin := by
  have hsound : (rolesContract requests).Sound machine :=
    ⟨fun _ _ => trivial, fun _ _ => trivial, fun _ _ _ => trivial⟩
  have hwp : ∀ i, wp machine (rolesContract requests) i ((serve requests s).thread i)
      (fun _ _ => True) s :=
    fun i => wp_of_ops (fun _ _ ho => ho) (updateUserRoleHandler_ops (requests i)) s
  refine run_shared (Q := fun _ _ _ => True) hsound (fun _ _ _ _ _ _ => trivial)
    (fun _ _ _ _ => trivial)
    (fun {c i o k f} hi hg ho hI => ?_) (fun _ hI => hI) hl hwp h
  refine hasAdmin_exec ho (fun id hid => ?_) hI f
  subst hid
  exact hg i f id k rfl hi

end Run

/-- Three users, two of them admins. -/
def twoAdmins : State where
  users :=
    ⟨[⟨1, none, "a@example.com", "A", "google", 0, 0⟩,
      ⟨2, none, "b@example.com", "B", "google", 0, 0⟩,
      ⟨3, none, "c@example.com", "C", "google", 0, 0⟩], by decide⟩
  roles := ⟨[⟨1, "admin", 0⟩, ⟨2, "admin", 0⟩], by decide⟩
  now := 0

theorem twoAdmins_administers : twoAdmins.Administers 1 :=
  ⟨⟨1, "admin", 0⟩, List.mem_cons_self, rfl, rfl⟩

/-- The two admins demote each other, and the second one makes the third user an admin. -/
def mutualRequests (i : Nat) : RoleRequest :=
  if i = 0 then ⟨1, 2, "user"⟩ else if i = 1 then ⟨2, 1, "user"⟩ else ⟨2, 3, "admin"⟩

/-- The second admin is demoted after the check of the third request, and before that
of the second. -/
def supportedSchedule : List (Label Fate Nat) :=
  turns .done [(1, 1), (2, 2), (0, 5), (1, 4), (2, 3)]

theorem admin_remains_overlapping :
    (machine.run (serve mutualRequests twoAdmins) supportedSchedule).shared.roles.rows.map
      (fun r => (r.userId, r.role)) =
      [(3, "admin"), (2, "user"), (1, "admin")] ∧
    (machine.run (serve mutualRequests twoAdmins) supportedSchedule).shared.HasAdmin :=
  ⟨by decide +kernel, admin_remains mutualRequests twoAdmins
    ⟨1, twoAdmins_administers⟩ supportedSchedule (by decide +kernel)⟩

/-- Both demotions pass their check before either of them is written, and no admin is left. -/
theorem mutual_demotion : twoAdmins.HasAdmin ∧
    ¬ (machine.run (serve mutualRequests twoAdmins)
      (turns .done [(0, 4), (1, 4), (0, 1), (1, 1)])).shared.HasAdmin := by
  refine ⟨⟨1, twoAdmins_administers⟩, ?_⟩
  rintro ⟨id, r, hr, -, hrole⟩
  have hroles : ∀ r ∈ (machine.run (serve mutualRequests twoAdmins)
      (turns .done [(0, 4), (1, 4), (0, 1), (1, 1)])).shared.roles.rows,
        r.role ≠ Role.admin.asStr := by
    decide +kernel
  exact hroles r hr hrole

/-! ## Requests one at a time -/

section Alone
variable {s : State}

/-- Nobody else moves. -/
def quiet : Contract State Op := ⟨fun _ s s' => s = s', fun _ _ _ => True⟩

theorem wp_statement {o : Op} {err : String → AdminError}
    {Q : Except AdminError o.Answer → State → Prop}
    (h : ∀ f, Q ((exec s o f).1.mapError err) (exec s o f).2) :
    wp machine quiet 0 (statement o err).run Q s := by
  rintro _ ⟨⟩
  exact ⟨trivial, fun f => h f⟩

theorem wp_andThen {α β : Type} {p : Query α} {g : α → Query β}
    {Q : Except AdminError β → State → Prop}
    (h : wp machine quiet 0 p.run (fun r s' => match r with
      | .ok a => wp machine quiet 0 (g a).run Q s'
      | .error e => Q (.error e) s') s) : wp machine quiet 0 (p >>= g).run Q s := by
  rw [Fallible.run_bind, wp_bind]
  refine wp_mono (fun r s' hr => ?_) h
  cases r <;> exact hr

theorem wp_roleFor (id : Uuid) :
    wp machine quiet 0 (roleFor id).run
      (fun r s' => s' = s ∧ (r = .ok .admin → s.Administers id)) s := by
  refine wp_andThen (wp_statement fun f => ?_)
  cases f with
  | failed e => exact ⟨rfl, nofun⟩
  | failedApplied e => exact ⟨rfl, nofun⟩
  | done =>
      have hexec : exec s (.selectRole id) .done = (.ok ((s.roles.find? id).map (·.role)), s) := rfl
      rw [hexec]
      cases hrow : s.roles.find? id with
      | none => exact ⟨rfl, nofun⟩
      | some row =>
          obtain ⟨hmem, hid⟩ := Table.find?_eq_some.mp hrow
          show wp machine quiet 0
              (liftM ((Role.tryFrom row.role).mapError AdminError.internalError) :
                Query Role).run _ s
          cases hrole : Role.tryFrom row.role with
          | error e => exact ⟨rfl, nofun⟩
          | ok role =>
              refine ⟨rfl, fun h => ⟨row, hmem, hid, ?_⟩⟩
              cases h
              exact Role.asStr_of_tryFrom hrole

theorem wp_getUserSummary {id : Uuid} {β : Type} {g : Option UserSummary → Query β}
    {Q : Except AdminError β → State → Prop} (herr : ∀ e, Q (.error e) s)
    (h : ∀ u, wp machine quiet 0 (g u).run Q s) :
    wp machine quiet 0 (getUserSummary id >>= g).run Q s := by
  refine wp_andThen (wp_statement fun f => ?_)
  cases f with
  | failed e => exact herr _
  | failedApplied e => exact herr _
  | done => exact h _

theorem wp_isAdmin (id : Uuid) :
    wp machine quiet 0 (isAdmin id).run
      (fun r s' => s' = s ∧ (r = .ok true → s.Administers id)) s := by
  refine wp_getUserSummary (fun e => ⟨rfl, nofun⟩) fun u => ?_
  cases u with
  | none => exact ⟨rfl, nofun⟩
  | some summary =>
      refine wp_andThen (wp_mono (fun r s' hr => ?_) (wp_roleFor id))
      obtain ⟨rfl, hadmin⟩ := hr
      cases r with
      | error e => exact ⟨rfl, nofun⟩
      | ok role =>
          refine ⟨rfl, fun h => hadmin ?_⟩
          cases role with
          | admin => rfl
          | user => cases h

theorem wp_getUser (id : Uuid) : wp machine quiet 0 (getUser id).run (fun _ s' => s' = s) s := by
  refine wp_getUserSummary (fun e => rfl) fun u => ?_
  cases u with
  | none => exact rfl
  | some summary =>
      refine wp_andThen (wp_mono (fun r s' hr => ?_) (wp_roleFor id))
      cases r with
      | error e => exact hr.1
      | ok role => exact hr.1

theorem wp_updateUserRole {actorId : Uuid} (h : s.Administers actorId) (userId : Uuid)
    (newRole : String) :
    wp machine quiet 0 (updateUserRole actorId userId newRole).run (fun _ s' => s'.HasAdmin) s := by
  unfold updateUserRole
  split_ifs with heq
  · exact ⟨actorId, h⟩
  · rw [Fallible.run_lift_bind]
    cases (Role.tryFrom newRole).mapError
        fun _ => AdminError.invalidValue "role must be 'user' or 'admin'" with
    | error e => exact ⟨actorId, h⟩
    | ok role =>
        refine wp_andThen (wp_mono (fun r s' hr => ?_) (wp_getUser userId))
        subst hr
        cases r with
        | error e => exact ⟨actorId, h⟩
        | ok user =>
            refine wp_andThen (wp_statement fun f => ?_)
            have hkept : (exec s' (.upsertRole userId role) f).2.HasAdmin := by
              refine hasAdmin_exec ?_ (fun _ _ => h) ⟨actorId, h⟩ f
              rintro id role ⟨⟩
              exact fun hid => heq hid.symm
            generalize (exec s' (.upsertRole userId role) f).1.mapError AdminError.internalError = r
            cases r with
            | error e => exact hkept
            | ok _ =>
                refine wp_mono (fun _ s'' hs => ?_) (wp_getUser userId)
                rw [hs]
                exact hkept

/-- A request that runs by itself leaves an admin. -/
theorem alone_keeps_admin (r : RoleRequest) (h : s.HasAdmin) (f : Nat → Fate) :
    (machine.alone 0 (updateUserRoleHandler r) s f).2.HasAdmin := by
  have hwp : wp machine quiet 0 (updateUserRoleHandler r) (fun _ s' => s'.HasAdmin) s := by
    refine wp_bind.mpr (wp_mono (fun b s' hb => ?_) (wp_isAdmin r.actorId))
    obtain ⟨rfl, hadmin⟩ := hb
    rcases b with e | b
    · exact h
    · cases b with
      | false => exact h
      | true => exact wp_bind.mpr (wp_updateUserRole (hadmin rfl) r.userId r.role)
  exact alone_wp (fun _ => rfl) f hwp

end Alone

end AppHome.Admin
