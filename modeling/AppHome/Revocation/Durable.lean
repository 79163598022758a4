import AppHome.Lib.Component
import AppHome.Revocation.Backends

/-!
# The durable revocation list

Any number of `DurableRevocationBlacklist` instances over one Redis and one outbox table.

* `Cluster` : the clock, Redis, `access_token_revocation_outbox`, the pending set of each instance,
  the statements that were reported as failed and may still take effect, and, as a history variable,
  the calls of `revoke`;
* `Write`, `Cluster.perform` : the statements that change Redis or the outbox;
* `exec`, `move` : one atomic step of a call, and what happens around the calls (time passes, a
  statement takes effect late, a process restarts);
* `revoke`, `isRevoked`, `flushPending`, `pendingCount` : the methods, step by step.
-/

namespace AppHome.Durable

open Interleave

/-! ## The state -/

structure OutboxRow where
  jti : Uuid
  ttlSecs : Nat
  createdAt : Instant
  expiresAt : Instant

abbrev Outbox := Table OutboxRow.jti

structure PendingEntry where
  addedAt : Instant
  ttl : Int
  deriving DecidableEq

def PendingEntry.live (e : PendingEntry) (now : Instant) : Bool := withinTtl now e.addedAt e.ttl

abbrev Pending := Table (Prod.fst : Uuid × PendingEntry → Uuid)

/-- A statement that changes Redis or the outbox. -/
inductive Write where
  | setEx (jti : Uuid) (ttlSecs : Nat)
  | journal (jti : Uuid) (ttlSecs : Nat)
  | deleteExpired
  | deleteFlushed (flushed : List Uuid)

/-- A call of `revoke`, with the time it was made at. -/
structure RevokeCall where
  jti : Uuid
  ttlSecs : Nat
  time : Instant
  deriving DecidableEq

structure Cluster where
  now : Instant
  redis : Redis
  outbox : Outbox
  pending : Nat → Pending
  late : List Write
  calls : List RevokeCall

/-- `FLUSH_BATCH_SIZE`. -/
def flushBatchSize : Nat := 500

namespace Cluster

/-- The effect of a statement, or `none` when the server refuses it. The TTL of a journaled row is
bound as an `i64`, which the column's `CHECK (ttl_secs >= 0)` refuses from `2 ^ 63` on. -/
def perform (s : Cluster) : Write → Option Cluster
  | .setEx jti ttlSecs => some { s with redis := s.redis.setEx jti ttlSecs s.now }
  | .journal jti ttlSecs =>
    if ttlSecs < 2 ^ 63 then
      -- `ON CONFLICT (jti) DO NOTHING`
      some { s with outbox :=
        (s.outbox.insert? ⟨jti, ttlSecs, s.now, s.now + ofSecs ttlSecs⟩).getD s.outbox }
    else none
  | .deleteExpired => some { s with outbox := s.outbox.filter fun r => s.now < r.expiresAt }
  | .deleteFlushed flushed =>
    some { s with outbox := s.outbox.filter fun r => !flushed.contains r.jti }

/-- `SELECT jti, ttl_secs … ORDER BY created_at LIMIT 500`. -/
def batch (s : Cluster) : List (Uuid × Nat) :=
  ((s.outbox.rows.insertionSort fun r r' => r.createdAt ≤ r'.createdAt).take flushBatchSize).map
    fun r => (r.jti, r.ttlSecs)

/-- `pending.retain(keep)` on one instance. -/
def retain (s : Cluster) (inst : Nat) (keep : Uuid × PendingEntry → Bool) : Cluster :=
  { s with pending := Function.update s.pending inst ((s.pending inst).filter keep) }

def insertPending (s : Cluster) (inst : Nat) (jti : Uuid) (ttlSecs : Nat) : Cluster :=
  { s with
    pending := Function.update s.pending inst
      ((s.pending inst).put (jti, ⟨s.now, ofSecs ttlSecs⟩)) }

end Cluster

/-! ## Steps -/

inductive Op where
  | call (jti : Uuid) (ttlSecs : Nat)
  | write (w : Write)
  | existsKey (jti : Uuid)
  | selectBatch
  | instantNow
  | pendingInsert (inst : Nat) (jti : Uuid) (ttlSecs : Nat)
  | pendingLookup (inst : Nat) (jti : Uuid) (now : Instant)
  | pendingRetain (inst : Nat) (flushed : List Uuid) (now : Instant)
  | pendingPrune (inst : Nat)

/-- A write answers whether it was reported as done, a query `none` when it failed. -/
abbrev Res : Op → Type
  | .call _ _ => Unit
  | .write _ => Bool
  | .existsKey _ => Option Bool
  | .selectBatch => Option (List (Uuid × Nat))
  | .instantNow => Instant
  | .pendingInsert _ _ _ => Unit
  | .pendingLookup _ _ _ => Bool
  | .pendingRetain _ _ _ => Unit
  | .pendingPrune _ => Nat

/-- What becomes of a statement sent to Redis or Postgres. -/
inductive Fate where
  | done
  | failed
  | failedApplied
  | failedLate

def exec (s : Cluster) (_ : Nat) (o : Op) (f : Fate) : Res o × Cluster :=
  match o with
  | .call jti ttlSecs => ((), { s with calls := s.calls ++ [⟨jti, ttlSecs, s.now⟩] })
  | .write w =>
    match f with
    | .done => ((s.perform w).isSome, (s.perform w).getD s)
    | .failed => (false, s)
    | .failedApplied => (false, (s.perform w).getD s)
    | .failedLate => (false, { s with late := s.late ++ [w] })
  | .existsKey jti =>
    match f with
    | .done => (some (s.redis.holds jti s.now), s)
    | _ => (none, s)
  | .selectBatch =>
    match f with
    | .done => (some s.batch, s)
    | _ => (none, s)
  | .instantNow => (s.now, s)
  | .pendingInsert inst jti ttlSecs => ((), s.insertPending inst jti ttlSecs)
  | .pendingLookup inst jti now =>
    match (s.pending inst).find? jti with
    | some e => if e.2.live now then (true, s) else (false, s.retain inst fun e => e.1 ≠ jti)
    | none => (false, s)
  | .pendingRetain inst flushed now =>
    ((), s.retain inst fun e => !flushed.contains e.1 && e.2.live now)
  | .pendingPrune inst =>
    let s' := s.retain inst fun e => e.2.live s.now
    ((s'.pending inst).rows.length, s')

/-- What happens around the calls. -/
inductive Move where
  | tick (nanos : Nat)
  | takeEffect (n : Nat)
  | restart (inst : Nat)

def move (s : Cluster) : Move → Cluster
  | .tick nanos => { s with now := s.now + nanos }
  | .takeEffect n =>
    match s.late[n]? with
    | some w => { (s.perform w).getD s with late := s.late.eraseIdx n }
    | none => s
  | .restart inst => s.retain inst fun _ => false

def machine : Machine Cluster Op Res Fate Move := ⟨exec, move⟩

/-! ## The methods -/

/-- Errors of the outbox queries. -/
structure SqlxError where
  deriving DecidableEq

abbrev Method := Prog Op Res

/-- `RedisAccessTokenBlacklist::revoke`. -/
def innerRevoke (jti : Uuid) (ttlSecs : Nat) : Method (Except BlacklistError Unit) :=
  if ttlSecs = 0 then .ret (.ok ())
  else .op (.write (.setEx jti ttlSecs)) fun done => .ret (if done then .ok () else .error ⟨⟩)

/-- `RedisAccessTokenBlacklist::is_revoked`. -/
def innerIsRevoked (jti : Uuid) : Method (Except BlacklistError Bool) :=
  .op (.existsKey jti) fun
    | some held => .ret (.ok held)
    | none => .ret (.error ⟨⟩)

def journal (jti : Uuid) (ttlSecs : Nat) : Method (Except BlacklistError Unit) :=
  .op (.write (.journal jti ttlSecs)) fun done => .ret (if done then .ok () else .error ⟨⟩)

def revoke (inst : Nat) (jti : Uuid) (ttlSecs : Nat) : Method (Except BlacklistError Unit) :=
  innerRevoke jti ttlSecs >>= fun
    | .ok () => .ret (.ok ())
    | .error _ => journal jti ttlSecs >>= fun
      | .error e => .ret (.error e)
      | .ok () => .op (.pendingInsert inst jti ttlSecs) fun _ => .ret (.ok ())

/-- `is_revoked`. The clock is read before the lock on the pending set is taken. -/
def isRevoked (inst : Nat) (jti : Uuid) : Method (Except BlacklistError Bool) :=
  .op .instantNow fun now => .op (.pendingLookup inst jti now) fun
    | true => .ret (.ok true)
    | false => innerIsRevoked jti

/-- The loop of `flush_pending`, with the rows it has flushed and the number it could not. -/
def flushRows : List (Uuid × Nat) → List Uuid → Nat → Method (List Uuid × Nat)
  | [], flushed, remaining => .ret (flushed, remaining)
  | (jti, ttlSecs) :: rows, flushed, remaining => innerRevoke jti ttlSecs >>= fun
    | .ok () => flushRows rows (flushed ++ [jti]) remaining
    | .error _ => flushRows rows flushed (remaining + 1)

/-- The end of `flush_pending`: rows that reached Redis leave the outbox, then the pending set. -/
def dropFlushed (inst : Nat) (flushed : List Uuid) (remaining : Nat) :
    Method (Except SqlxError Nat) :=
  if flushed.isEmpty then .ret (.ok remaining)
  else .op (.write (.deleteFlushed flushed)) fun
    | false => .ret (.error ⟨⟩)
    | true => .op .instantNow fun now => .op (.pendingRetain inst flushed now) fun _ =>
      .ret (.ok remaining)

def flushPending (inst : Nat) : Method (Except SqlxError Nat) :=
  .op (.write .deleteExpired) fun
    | false => .ret (.error ⟨⟩)
    | true => .op .selectBatch fun
      | none => .ret (.error ⟨⟩)
      | some rows => flushRows rows [] 0 >>= fun (flushed, remaining) =>
        dropFlushed inst flushed remaining

def pendingCount (inst : Nat) : Method Nat := .op (.pendingPrune inst) .ret

/-- A call of a method on an instance. -/
inductive Task where
  | revoke (inst : Nat) (jti : Uuid) (ttlSecs : Nat)
  | isRevoked (inst : Nat) (jti : Uuid)
  | flushPending (inst : Nat)
  | pendingCount (inst : Nat)

inductive Outcome where
  | revoked (r : Except BlacklistError Unit)
  | answered (r : Except BlacklistError Bool)
  | flushed (r : Except SqlxError Nat)
  | counted (n : Nat)

/-- A call; that of `revoke` is recorded when it is made. -/
def Task.prog : Task → Method Outcome
  | .revoke inst jti ttlSecs => .op (.call jti ttlSecs) fun _ =>
      Durable.revoke inst jti ttlSecs >>= fun r => .ret (.revoked r)
  | .isRevoked inst jti => Durable.isRevoked inst jti >>= fun r => .ret (.answered r)
  | .flushPending inst => Durable.flushPending inst >>= fun r => .ret (.flushed r)
  | .pendingCount inst => Durable.pendingCount inst >>= fun n => .ret (.counted n)

/-- Any number of calls, none of them begun. -/
def instances (tasks : Nat → Task) (s : Cluster) : Cfg Cluster Op Res Outcome :=
  ⟨s, fun i => (tasks i).prog⟩

/-! ## The operations of the methods -/

theorem ops_innerRevoke (jti : Uuid) (ttlSecs : Nat) :
    (innerRevoke jti ttlSecs).Ops fun o => o = .write (.setEx jti ttlSecs) := by
  unfold innerRevoke
  split_ifs
  · trivial
  · exact ⟨rfl, fun _ => trivial⟩

/-- Only what Redis has refused becomes pending, and it never refuses a revocation
for zero seconds. -/
theorem ops_revoke (inst : Nat) (jti : Uuid) (ttlSecs : Nat) :
    (revoke inst jti ttlSecs).Ops fun o =>
    o = .write (.setEx jti ttlSecs) ∨ o = .write (.journal jti ttlSecs) ∨
      ttlSecs ≠ 0 ∧ o = .pendingInsert inst jti ttlSecs := by
  unfold revoke innerRevoke
  split_ifs with h0
  · trivial
  · refine ⟨Or.inl rfl, fun stored => ?_⟩
    cases stored with
    | true => trivial
    | false =>
        refine ⟨Or.inr (Or.inl rfl), fun journaled => ?_⟩
        cases journaled with
        | true => exact ⟨Or.inr (Or.inr ⟨h0, rfl⟩), fun _ => trivial⟩
        | false => trivial

/-- The operations of a lookup. -/
def LookupOp : Op → Prop
  | .instantNow => True
  | .pendingLookup _ _ _ => True
  | .existsKey _ => True
  | _ => False

theorem ops_isRevoked (inst : Nat) (jti : Uuid) : (isRevoked inst jti).Ops LookupOp := by
  refine ⟨trivial, fun now => ⟨trivial, fun pending => ?_⟩⟩
  cases pending with
  | true => trivial
  | false =>
      refine ⟨trivial, fun held => ?_⟩
      cases held <;> trivial

/-- The operations of a sweep. -/
def SweepOp : Op → Prop
  | .write (.setEx _ _) => True
  | .write .deleteExpired => True
  | .write (.deleteFlushed _) => True
  | .selectBatch => True
  | .instantNow => True
  | .pendingRetain _ _ _ => True
  | _ => False

theorem ops_flushRows (rows : List (Uuid × Nat)) (flushed : List Uuid) (remaining : Nat) :
    (flushRows rows flushed remaining).Ops fun o =>
      ∃ row ∈ rows, o = .write (.setEx row.1 row.2) := by
  induction rows generalizing flushed remaining with
  | nil => trivial
  | cons row rows ih =>
      have hinner : (innerRevoke row.1 row.2).Ops fun o =>
          ∃ row' ∈ row :: rows, o = .write (.setEx row'.1 row'.2) :=
        (ops_innerRevoke row.1 row.2).mono fun o ho => ⟨row, List.mem_cons_self, ho⟩
      have hrest : ∀ flushed remaining, (flushRows rows flushed remaining).Ops fun o =>
          ∃ row' ∈ row :: rows, o = .write (.setEx row'.1 row'.2) := by
        refine fun flushed remaining => (ih flushed remaining).mono ?_
        rintro o ⟨row', hrow', rfl⟩
        exact ⟨row', List.mem_cons_of_mem _ hrow', rfl⟩
      refine Prog.Ops.bind hinner fun r => ?_
      cases r with
      | error e => exact hrest _ _
      | ok u => exact hrest _ _

theorem ops_flushPending (inst : Nat) : (flushPending inst).Ops SweepOp := by
  refine ⟨trivial, fun swept => ?_⟩
  cases swept with
  | false => trivial
  | true =>
      refine ⟨trivial, fun rows => ?_⟩
      cases rows with
      | none => trivial
      | some rows =>
          refine Prog.Ops.bind ((ops_flushRows rows [] 0).mono ?_) fun r => ?_
          · rintro o ⟨row, -, rfl⟩
            trivial
          show (dropFlushed inst r.1 r.2).Ops SweepOp
          unfold dropFlushed
          split_ifs
          · trivial
          · refine ⟨trivial, fun deleted => ?_⟩
            cases deleted with
            | false => trivial
            | true => exact ⟨trivial, fun now => ⟨trivial, fun _ => trivial⟩⟩

end AppHome.Durable
