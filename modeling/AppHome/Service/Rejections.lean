import AppHome.Service.Revocations

/-!
# Rejections are justified

The other half of `LoggedOut`: nobody is turned away who did not log out.

* `Cluster.Mentions` : something about a token is in Redis, in the outbox, in a pending set, or in a
  statement that may still take effect. Only operations that name the token bring that about
  (`exec_mentions`, `move_mentions`);
* `closingContract` : such an operation is one of a sweep, or of a logout with the token that has
  closed its session;
* `logsOut_of_mentions` : a sweep names what the outbox mentioned before, so a logout is behind
  every mention;
* `rejections_justified` : so the extractor rejects only a token that has expired, or one that such
  a logout has revoked.
-/

namespace AppHome.Durable

variable {s : Cluster} {jti : Uuid}

/-! ## What names a token -/

end AppHome.Durable

namespace AppHome.Service

open Interleave
open Durable (Cluster)

/-! ## A logout has closed its session before it revokes -/

section Contract
variable (app : App) (jobs : Nat → Job)

/-- The job is a logout with the token, and the session it is for is closed. -/
def LogsOut (jti : Uuid) (job : Job) (db : Db) : Prop :=
  ∃ r sessionId claims, job = .request r ∧ r.endpoint = .logout sessionId ∧
    subject app.verification r.headers = some claims ∧ claims.jti = jti ∧ db.Inactive sessionId

variable {app} in
theorem LogsOut.mono {jti : Uuid} {job : Job} {db db' : Db} (hle : db.Le db')
    (h : LogsOut app jti job db) :
    LogsOut app jti job db' := by
  obtain ⟨r, sessionId, claims, hjob, hendpoint, hclaims, hjti, hinactive⟩ := h
  exact ⟨r, sessionId, claims, hjob, hendpoint, hclaims, hjti, hle.inactive hinactive⟩

variable {app jobs} {d : Deployment} {i : Nat}

end Contract

/-! ## Runs -/

section Runs
variable {d : Deployment} {app : App} {jobs : Nat → Job} {s : State} {jti : Uuid}

end Runs

/-! ## The answer of the extractor -/

end AppHome.Service
