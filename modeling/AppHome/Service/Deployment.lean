import AppHome.Admin.Listing
import AppHome.Auth.World
import AppHome.Lib.Component
import AppHome.Profiles.Profile
import AppHome.RateLimit.Redis
import AppHome.Revocation.Durable

/-!
# The service as a whole

Any number of processes over one Postgres and one Redis (`REDIS_URL` is set).

* `State` : the tables, the counters and the revocation list of the parts of the service side by
  side. Each process has an event bus, two limiters and a pending set of its own;
* `State.world`, `State.admin`, `State.profile` : what the parts see of it. They share the table of
  users;
* `Op`, `exec`, `move`, `machine` : an operation is one of a part, in the process of its job;
* `exec_commits`, `exec_db_le`, `exec_limiters` : what a step leaves alone.
-/

namespace AppHome.Service

open Interleave

/-! ## The state -/

/-- The key prefixes of `build_rate_limiters`. -/
inductive Limiter where
  | login
  | refresh
  deriving DecidableEq

structure State where
  db : Db
  userActions : List UserActionRow
  commits : List Commit
  published : List (Nat × Event)
  bus : Nat → EventBus
  limiters : Limiter → RateLimit.Fleet
  revocations : Durable.Cluster
  roles : Table Admin.RoleRow.userId
  profiles : Table Profiles.ProfileRow.userId
  updated : List Nat
  seen : Nat → Option Profiles.ProfileRow

/-- `UserSummaryRow::into_summary`, of the columns it selects. -/
def summary (r : UserRow) : Admin.UserSummary :=
  ⟨r.id, r.username, r.email, r.displayName, r.authProvider, r.createdAt, r.updatedAt⟩

theorem nodup_summaries (users : Table UserRow.id) :
    ((users.rows.map summary).map Admin.UserSummary.id).Nodup := by
  rw [List.map_map]
  exact users.nodup

namespace State

/-- What process `inst` has of the state of `auth`. -/
def world (s : State) (inst : Nat) : World :=
  ⟨s.db, s.bus inst, s.userActions, s.commits, s.published⟩

def setWorld (s : State) (inst : Nat) (w : World) : State :=
  { s with
    db := w.db
    userActions := w.userActions
    commits := w.commits
    published := w.published
    bus := Function.update s.bus inst w.bus }

@[simp] theorem world_setWorld (s : State) (inst : Nat) (w : World) :
    (s.setWorld inst w).world inst = w := by
  simp only [world, setWorld, Function.update_self]

/-- The users as `PostgresUserDirectory` shows them, and their roles. -/
def admin (s : State) : Admin.State :=
  ⟨⟨s.db.users.rows.map summary, nodup_summaries _⟩, s.roles, s.revocations.now⟩

def setAdmin (s : State) (a : Admin.State) : State := { s with roles := a.roles }

def profile (s : State) : Profiles.State :=
  ⟨s.db.users.rows.map (·.id), s.profiles, s.revocations.now, s.updated, s.seen⟩

def setProfile (s : State) (p : Profiles.State) : State :=
  { s with profiles := p.profiles, updated := p.commits, seen := p.seen }

def setLimiter (s : State) (which : Limiter) (l : RateLimit.Fleet) : State :=
  { s with limiters := Function.update s.limiters which l }

end State

/-! ## Operations -/

/-- How the service runs: the Redis server, the limits, and the process of each job. -/
structure Deployment where
  server : RateLimit.RedisServer
  limits : RateLimit.RedisRateLimiter
  inst : Nat → Nat

inductive Op where
  | auth (o : AppHome.Op)
  | limiter (which : Limiter) (o : RateLimit.Op)
  | revocation (o : Durable.Op)
  | admin (o : Admin.ListOp)
  | profile (o : Profiles.Op)
  | utcNow

abbrev Res : Op → Type
  | .auth o => AppHome.Res o
  | .limiter _ o => RateLimit.Res o
  | .revocation o => Durable.Res o
  | .admin o => Admin.ListRes o
  | .profile o => Profiles.Res o
  | .utcNow => Instant

/-- What becomes of an operation, whichever part it belongs to. -/
structure Fate where
  auth : AppHome.Fate
  limiter : RateLimit.Fate
  revocation : Durable.Fate
  admin : Admin.Fate
  profile : Profiles.Fate

def exec (d : Deployment) (s : State) (i : Nat) (o : Op) (f : Fate) : Res o × State :=
  match o with
  | .auth o =>
    let r := (s.world (d.inst i)).exec i o f.auth
    (r.1, s.setWorld (d.inst i) r.2)
  | .limiter which o =>
    let r := RateLimit.exec d.server d.limits (s.limiters which) i o f.limiter
    (r.1, s.setLimiter which r.2)
  | .revocation o =>
    let r := Durable.exec s.revocations i o f.revocation
    (r.1, { s with revocations := r.2 })
  | .admin o =>
    let r := Admin.listExec s.admin o f.admin
    (r.1, s.setAdmin r.2)
  | .profile o =>
    let r := Profiles.exec s.profile i o f.profile
    (r.1, s.setProfile r.2)
  | .utcNow => (s.revocations.now, s)

/-- What happens around the jobs. -/
inductive Move where
  | tick (nanos : Nat)
  | limiterLate (which : Limiter) (n : Nat)
  | revocationLate (n : Nat)
  | consume (inst : Nat) (c : Consume)
  | restart (inst : Nat)

def move (d : Deployment) (s : State) : Move → State
  | .tick nanos =>
    { s with
      limiters := fun which => RateLimit.move d.server d.limits (s.limiters which) (.tick nanos)
      revocations := Durable.move s.revocations (.tick nanos) }
  | .limiterLate which n =>
    s.setLimiter which (RateLimit.move d.server d.limits (s.limiters which) (.takeEffect n))
  | .revocationLate n => { s with revocations := Durable.move s.revocations (.takeEffect n) }
  | .consume inst c => s.setWorld inst ((s.world inst).consume c)
  -- what a process has in memory is lost
  | .restart inst =>
    { s with
      bus := Function.update s.bus inst ⟨[], 0⟩
      limiters := fun which =>
        (s.limiters which).setShadow inst (.new d.limits.maxAttempts d.limits.windowSeconds)
      revocations := Durable.move s.revocations (.restart inst) }

def machine (d : Deployment) : Machine State Op Res Fate Move := ⟨exec d, move d⟩

abbrev Program := Prog Op Res

/-! ## Programs of the parts -/

def ofAuth {α : Type} (p : Prog AppHome.Op AppHome.Res α) : Program α := p.widen .auth fun _ r => r

def ofLimiter {α : Type} (which : Limiter) (p : RateLimit.Program α) : Program α :=
  p.widen (.limiter which) fun _ r => r

def ofRevocation {α : Type} (p : Durable.Method α) : Program α := p.widen .revocation fun _ r => r

def ofAdmin {α : Type} (p : Prog Admin.ListOp Admin.ListRes α) : Program α :=
  p.widen .admin fun _ r => r

def ofProfile {α : Type} (p : Prog Profiles.Op Profiles.Res α) : Program α :=
  p.widen .profile fun _ r => r

section Ops
variable {α : Type} {P : Op → Prop}

theorem ops_ofAuth (h : ∀ o, P (.auth o)) (p : Prog AppHome.Op AppHome.Res α) : (ofAuth p).Ops P :=
  Prog.ops_widen (p.ops_true.mono fun o _ => h o)

theorem ops_ofLimiter {which : Limiter} (h : ∀ o, P (.limiter which o)) (p : RateLimit.Program α) :
    (ofLimiter which p).Ops P :=
  Prog.ops_widen (p.ops_true.mono fun o _ => h o)

theorem ops_ofRevocation (h : ∀ o, P (.revocation o)) (p : Durable.Method α) :
    (ofRevocation p).Ops P :=
  Prog.ops_widen (p.ops_true.mono fun o _ => h o)

theorem ops_ofAdmin (h : ∀ o, P (.admin o)) (p : Prog Admin.ListOp Admin.ListRes α) :
    (ofAdmin p).Ops P :=
  Prog.ops_widen (p.ops_true.mono fun o _ => h o)

theorem ops_ofProfile (h : ∀ o, P (.profile o)) (p : Prog Profiles.Op Profiles.Res α) :
    (ofProfile p).Ops P :=
  Prog.ops_widen (p.ops_true.mono fun o _ => h o)

end Ops

/-! ## What a step leaves alone -/

section Steps
variable (d : Deployment) (s : State) (i : Nat)

theorem exec_commits (o : Op) (f : Fate) : s.commits <+: (exec d s i o f).2.commits := by
  cases o with
  | auth o => exact ((s.world (d.inst i)).exec_le i o f.auth).commits
  | limiter which o => exact List.prefix_refl _
  | revocation o => exact List.prefix_refl _
  | admin o => exact List.prefix_refl _
  | profile o => exact List.prefix_refl _
  | utcNow => exact List.prefix_refl _

theorem exec_db_le (o : Op) (f : Fate) : s.db.Le (exec d s i o f).2.db := by
  cases o with
  | auth o => exact ((s.world (d.inst i)).exec_le i o f.auth).db
  | limiter which o => exact .refl _
  | revocation o => exact .refl _
  | admin o => exact .refl _
  | profile o => exact .refl _
  | utcNow => exact .refl _

theorem exec_limiters {which : Limiter} {o : Op} (h : ∀ o', o ≠ .limiter which o') (f : Fate) :
    (exec d s i o f).2.limiters which = s.limiters which := by
  cases o with
  | auth o => rfl
  | limiter which' o =>
      have hne : which ≠ which' := fun heq => h o (by rw [heq])
      exact Function.update_of_ne hne ..
  | revocation o => rfl
  | admin o => rfl
  | profile o => rfl
  | utcNow => rfl

theorem exec_limiter (which : Limiter) (o : RateLimit.Op) (f : Fate) :
    (exec d s i (.limiter which o) f).2.limiters which =
      (RateLimit.exec d.server d.limits (s.limiters which) i o f.limiter).2 :=
        Function.update_self ..

theorem move_commits (e : Move) : (move d s e).commits = s.commits := by
  cases e with
  | consume inst c => exact (s.world inst).consume_commits c
  | _ => rfl

theorem move_db (e : Move) : (move d s e).db = s.db := by
  cases e with
  | consume inst c => exact (s.world inst).consume_db c
  | _ => rfl

end Steps

/-- Whatever the jobs promise about their operations, the tables of `auth` and the
saves only grow. -/
def growing (guar : Nat → State → Op → Prop) : Contract State Op :=
  ⟨fun _ s s' => s.db.Le s'.db ∧ s.commits <+: s'.commits, guar⟩

end AppHome.Service
