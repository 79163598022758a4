import AppHome.Revocation.DurableMethods
import AppHome.Revocation.Flush
import AppHome.Service.Access

/-!
# The revocation list inside the service

What was shown of the durable list for calls with any TTLs, for the calls that the service makes: a
logout revokes its token for the seconds that are left of it, a sweep delivers what is in the
outbox, the extractor asks.

* `timely_after` : every revocation of a token reaches the end of the leeway after its `exp`;
* `bounded_after`, `fit_next` : so every copy of it does, and no operation does any harm;
* `kept_after` : what such operations keep, a run of the service keeps.
-/

namespace AppHome.Durable

open Interleave

/-! ## The methods of the list -/

theorem exec_calls (s : Cluster) (i : Nat) (o : Op) (f : Fate) :
    (exec s i o f).2.calls = s.calls ∨
      ∃ jti ttlSecs, o = .call jti ttlSecs ∧
        (exec s i o f).2.calls = s.calls ++ [⟨jti, ttlSecs, s.now⟩] := by
  cases o with
  | call jti ttlSecs => exact Or.inr ⟨jti, ttlSecs, rfl, rfl⟩
  | write w =>
      have hcalls := (performed_frame s w).2.1
      cases f with
      | done => exact Or.inl hcalls
      | failed => exact Or.inl rfl
      | failedApplied => exact Or.inl hcalls
      | failedLate => exact Or.inl rfl
  | existsKey jti => cases f <;> exact Or.inl rfl
  | selectBatch => cases f <;> exact Or.inl rfl
  | pendingLookup inst jti now =>
      refine Or.inl ?_
      simp only [exec]
      split
      · split_ifs <;> rfl
      · rfl
  | _ => exact Or.inl rfl

end AppHome.Durable

namespace AppHome.Service

open Interleave
open Durable (Cluster Kept keeping)

/-! ## Steps -/

section Steps
variable (d : Deployment) (s : State)

theorem exec_revocations (i : Nat) {o : Op} (h : Outside Op.revocation o) (f : Fate) :
    (exec d s i o f).2.revocations = s.revocations := by
  cases o with
  | revocation o => exact absurd rfl (h o)
  | _ => rfl

theorem move_revocations (e : Move) : (move d s e).revocations = s.revocations ∨
    ∃ e', (move d s e).revocations = Durable.move s.revocations e' ∧ ∀ inst, e' = .restart inst →
      e = .restart inst := by
  cases e with
  | tick nanos => exact Or.inr ⟨.tick nanos, rfl, fun inst h => by cases h⟩
  | limiterLate which n => exact Or.inl rfl
  | revocationLate n => exact Or.inr ⟨.takeEffect n, rfl, fun inst h => by cases h⟩
  | consume inst c => exact Or.inl rfl
  | restart inst =>
      refine Or.inr ⟨.restart inst, rfl, fun inst' h => ?_⟩
      cases h
      rfl

theorem exec_now_le (i : Nat) (o : Op) (f : Fate) :
    s.revocations.now ≤ (exec d s i o f).2.revocations.now := by
  cases o with
  | revocation o => exact ge_of_eq (Durable.exec_now s.revocations i o f.revocation)
  | _ => exact le_rfl

theorem move_now_le (e : Move) : s.revocations.now ≤ (move d s e).revocations.now := by
  rcases move_revocations d s e with h | ⟨e', h, -⟩
  · rw [h]
  · rw [h]
    exact Durable.move_now_le s.revocations e'

end Steps

theorem move_calls (d : Deployment) (s : State) (e : Move) :
    (move d s e).revocations.calls = s.revocations.calls := by
  rcases move_revocations d s e with h | ⟨e', h, -⟩
  · rw [h]
  · rw [h]
    cases e' with
    | tick nanos => rfl
    | restart inst => rfl
    | takeEffect n =>
        simp only [Durable.move]
        split
        · next w _ => exact (Durable.performed_frame s.revocations w).2.1
        · rfl

/-! ## Every revocation reaches the end of its token -/

/-- The clock says that `ttlSecs` are left of the token with this identifier. -/
def LeftOpens (app : App) (jti : Uuid) (ttlSecs : Nat) : (o : Op) → Res o → Prop
  | .utcNow, now => ∃ token claims, app.verification.claims token = some claims ∧ claims.jti = jti ∧
      ttlSecs = revocationTtlSecs claims.exp (timestamp now)
  | _, _ => False

/-- A job computes the TTL of a revocation from the clock. -/
theorem until_call (app : App) (jti : Uuid) (ttlSecs inst : Nat) (job : Job) :
    (job.prog app inst).Until (fun o => o = .revocation (.call jti ttlSecs))
    (LeftOpens app jti ttlSecs) fun _ => True := by
  have hextracts : ∀ o : Op, o.Extracts → o ≠ .revocation (.call jti ttlSecs) := fun o ho h => by
    rw [h] at ho
    exact ho
  cases job with
  | sweep =>
      refine .of_ops (Prog.Ops.bind (Prog.ops_widen ?_) fun _ => trivial) (Prog.rets_true _)
      refine (Durable.ops_flushPending inst).mono fun o ho h => ?_
      cases h
      exact ho
  | request r =>
      simp only [Job.prog]
      rcases serve_cases app inst r with hlimited | ⟨sessionId, -, hserve⟩ | ⟨handler, hserve, hops⟩
      · refine .of_ops ?_ (Prog.rets_true _)
        exact ops_serve_limited (fun _ h => by cases h) (fun _ _ h => by cases h) app inst hlimited
      · rw [hserve]
        refine until_behind hextracts trivial fun claims hclaims => ?_
        have hauth : ∀ {α : Type} (p : Prog AppHome.Op AppHome.Res α),
            (ofAuth p).Ops fun o => o ≠ .revocation (.call jti ttlSecs) :=
              fun p => ops_ofAuth (fun _ h => by cases h) p
        refine ((Prog.Until.of_ops (hauth _) (Prog.rets_true _)).mono fun answer _ => ?_).bind
        rcases answer with e | events
        · cases e <;> trivial
        · refine ((Prog.Until.of_ops (hauth _) (Prog.rets_true _)).mono fun _ _ => ?_).bind
          refine ⟨fun h => (by cases h), fun now hnow => ⟨fun h => ?_, fun _ _ => ?_⟩⟩
          · injection h with h
            injection h with hjti httl
            obtain ⟨token, -, htoken⟩ := Option.bind_eq_some_iff.mp hclaims
            exact hnow ⟨token, claims, htoken, hjti, httl.symm⟩
          · refine .of_ops (Prog.Ops.bind (Prog.ops_widen ?_) fun _ => trivial) (Prog.rets_true _)
            refine (Durable.ops_revoke inst _ _).mono fun o ho h => ?_
            rw [Op.revocation.inj h] at ho
            rcases ho with h | h | ⟨-, h⟩ <;> cases h
      · rw [hserve]
        refine until_behind hextracts trivial fun claims _ =>
          .of_ops ((hops claims.user).mono fun o ho h => ?_)
          (Prog.rets_true _)
        rw [h] at ho
        exact ho

/-- The seconds that are left of a token reach the end of the leeway, from when the
clock was read. -/
theorem end_le_of_ttl {exp : Int} {now time : Instant} (h : now ≤ time) :
    ofSecs (exp + jwtExpLeewaySecs) ≤ time + ofSecs (revocationTtlSecs exp (timestamp now)) := by
  have hfloor : ofSecs (timestamp now) ≤ now := Int.ediv_mul_le now (by decide)
  have httl : exp + jwtExpLeewaySecs - timestamp now ≤
      (revocationTtlSecs exp (timestamp now) : Int) := Int.self_le_toNat _
  unfold ofSecs nanosPerSec at *
  linarith

section Runs
variable {d : Deployment} {app : App} {jobs : Nat → Job} {s : State} {jti : Uuid} {exp : Int}

theorem now_le_after (l l' : List (Label Fate Move)) :
    (after d app jobs s l).revocations.now ≤ (after d app jobs s (l ++ l')).revocations.now := by
  rw [after, after, run_append]
  exact run_rel (R := fun t t' : State => t.revocations.now ≤ t'.revocations.now)
    (fun _ => le_rfl) le_trans
    (fun t i o f => exec_now_le d t i o f) (fun t e => move_now_le d t e) _ l'

/-- **Every revocation of the token reaches the end of its leeway**, if every token with the
identifier lives until `exp`. -/
theorem timely_after
    (hexp : ∀ token claims, app.verification.claims token = some claims → claims.jti = jti →
      exp ≤ claims.exp)
    (hcalls : s.revocations.calls = []) (l : List (Label Fate Move)) :
    (after d app jobs s l).revocations.Timely (ofSecs (exp + jwtExpLeewaySecs)) jti := by
  intro c hc hjti
  obtain ⟨l₁, i, f, l₂, o, k, -, hi, hbefore, hafter⟩ :=
    run_change (machine d) (P := fun t => c ∈ t.revocations.calls)
      (c := service d app jobs s) (l := l)
      (fun t e h => move_calls d t e ▸ h) (by simp [service, hcalls]) hc
  have hcall : o = .revocation (.call c.jti c.ttlSecs) ∧
      c.time = (after d app jobs s l₁).revocations.now := by
    cases o with
    | revocation o =>
        rcases Durable.exec_calls (after d app jobs s l₁).revocations i o f.revocation with hsame |
          ⟨jti', ttlSecs, rfl, hnew⟩
        · exact absurd (hsame ▸ hafter) hbefore
        · have hmem : c ∈ (after d app jobs s l₁).revocations.calls ++
              [⟨jti', ttlSecs, (after d app jobs s l₁).revocations.now⟩] := hnew ▸ hafter
          rw [List.mem_singleton.mp ((List.mem_append.mp hmem).resolve_left hbefore)]
          exact ⟨rfl, rfl⟩
    | _ => exact absurd hafter hbefore
  obtain ⟨rfl, htime⟩ := hcall
  -- its TTL was computed from an earlier reading of the clock
  obtain ⟨l₃, f', l₄, o', k', rfl, -, hopen⟩ :=
    run_until (machine d) (until_call app c.jti c.ttlSecs (d.inst i) (jobs i))
      (c := service d app jobs s) (l := l₁)
      (by rw [hi]; rfl)
  cases o' with
  | utcNow =>
      obtain ⟨token, claims, htoken, hid, httl⟩ := hopen
      have hread : (after d app jobs s l₃).revocations.now ≤ c.time := by
        rw [htime]
        exact now_le_after l₃ _
      rw [httl]
      refine le_trans ?_ (end_le_of_ttl hread)
      have hle := hexp token claims htoken (hid.trans hjti)
      unfold ofSecs nanosPerSec
      linarith
  | _ => exact hopen.elim

end Runs

/-! ## The contract of the list -/

section Contract
variable {d : Deployment} {D : Instant} {jti : Uuid} {i : Nat} {s : State}

/-- Every operation on the list does no harm to the copies of the token. -/
def listContract (D : Instant) (jti : Uuid) : Contract State Op where
  rely _ s s' := s.revocations.Keeps D jti (fun _ => True) s'.revocations
  guar _ s o := ∀ o', o = .revocation o' → s.revocations.While D jti fun c => o'.Fit D jti c

theorem exec_keeps {o : Op} (hg : (listContract D jti).guar i s o) {P : Cluster → Prop}
    (hP : Kept D jti P) (f : Fate) :
    s.revocations.Keeps D jti P (exec d s i o f).2.revocations := by
  cases o with
  | revocation o => exact Durable.exec_keeps hP (hg o rfl) i f.revocation
  | _ => exact .refl P s.revocations

theorem move_keeps {P : Cluster → Prop} (hP : Kept D jti P) (e : Move)
    (hrestart : ∀ inst, e = .restart inst → P s.revocations →
      P (s.revocations.retain inst fun _ => false)) :
    s.revocations.Keeps D jti P (move d s e).revocations := by
  rcases move_revocations d s e with h | ⟨e', h, he'⟩
  · rw [h]
    exact .refl P s.revocations
  · rw [h]
    exact Durable.move_keeps hP e' fun inst hinst => hrestart inst (he' inst hinst)

theorem listContract_sound (d : Deployment) : (listContract D jti).Sound (machine d) where
  refl _ s := .refl _ s.revocations
  trans h h' := h.trans h'
  exec {_ j _ _} f hg _ := exec_keeps (d := d) (i := j) hg Durable.true_kept f

theorem wp_elsewhere {α : Type} {p : Program α} (hp : p.Ops (Outside Op.revocation))
    (h : s.revocations.While D jti fun _ => True) :
    wp (machine d) (listContract D jti) i p
      (fun _ s => s.revocations.While D jti fun _ => True) s := by
  refine wp_ops (J := fun s : State => s.revocations.While D jti fun _ => True) (listContract D jti)
    (fun s s' hs h => h.keep Durable.lasting_true hs) (fun s o _ ho o' heq => absurd heq (ho o'))
    (fun s o f h ho => ?_) hp h
  rw [show ((machine d).exec s i o f).2.revocations = s.revocations from
    exec_revocations d s i ho f]
  exact h

theorem wp_ofRevocation {α : Type} {p : Durable.Method α} {Q : α → Cluster → Prop}
    (h : wp Durable.machine (keeping D jti fun _ => True) i p Q s.revocations) :
    wp (machine d) (listContract D jti) i (ofRevocation p) (fun a s => Q a s.revocations) s := by
  refine wp_widen (fun s : State => s.revocations) ?_ ?_ ?_ h
  · exact fun s o f => ⟨f.revocation, rfl, rfl⟩
  · exact fun s s' hs => hs
  · intro s o ho o' heq
    cases heq
    exact ho

/-- What follows the extractor starts with the copies as they were. -/
theorem wp_behind {v : JwtVerification} {headers : HeaderMap} {inst : Nat}
    {handler : AuthenticatedUser → Program Outcome}
    (hhandler : ∀ user s, (s.revocations.While D jti fun _ => True) →
      wp (machine d) (listContract D jti) i (handler user) (fun _ _ => True) s)
    (h : s.revocations.While D jti fun _ => True) :
    wp (machine d) (listContract D jti) i (authenticated v inst headers handler)
      (fun _ _ => True) s := by
  have hlast : ∀ s s' : State, (listContract D jti).rely i s s' →
      (s.revocations.While D jti fun _ => True) →
      s'.revocations.While D jti fun _ => True := fun s s' hs h => h.keep Durable.lasting_true hs
  have hextract : wp (machine d) (listContract D jti) i (fromRequestParts v inst headers)
      (fun _ _ => True) s := by
    unfold fromRequestParts
    split
    · trivial
    · refine fun s' hs' => ⟨fun o' heq => (by cases heq), fun f => ?_⟩
      beta_reduce
      split
      · trivial
      · rw [wp_bind]
        refine wp_mono (fun _ _ _ => trivial) (wp_ofRevocation (Q := fun _ _ => True) ?_)
        exact wp_mono (fun _ _ _ => trivial)
          (Durable.wp_isRevoked Durable.true_kept False False.elim
          ((hlast s s' hs' h).imp fun _ _ hF => hF.elim))
  unfold authenticated
  rw [wp_bind]
  refine wp_mono (fun r s hr => ?_)
    (wp_frame (J := fun s : State => s.revocations.While D jti fun _ => True) hlast
    (fun _ _ f hg h => h.keep Durable.lasting_true (exec_keeps hg Durable.true_kept f)) hextract h)
  cases r with
  | error e => trivial
  | ok user => exact hhandler user s hr.2

theorem wp_logout (user : AuthenticatedUser) (sessionId : Uuid) (env : Env)
    (h : s.revocations.While D jti fun _ => True) :
    wp (machine d) (listContract D jti) i (logoutUser (d.inst i) env user sessionId)
      (fun _ _ => True) s := by
  have hauth : ∀ {α : Type} (p : Prog AppHome.Op AppHome.Res α),
      (ofAuth p).Ops (Outside Op.revocation) :=
    fun p => ops_ofAuth (fun _ _ h => by cases h) p
  unfold logoutUser
  rw [wp_bind]
  refine wp_mono (fun answer s hs => ?_) (wp_elsewhere (hauth _) h)
  rcases answer with e | events
  · cases e <;> trivial
  · rw [wp_bind]
    refine wp_mono (fun _ s hs => ?_) (wp_elsewhere (hauth _) hs)
    intro s₁ hs₁
    refine ⟨fun o' heq => (by cases heq), fun f₁ s₂ hs₂ => ?_⟩
    have hcopies := (hs.keep Durable.lasting_true hs₁).keep Durable.lasting_true hs₂
    have hguar : (listContract D jti).guar i s₂
        (.revocation
          (.call user.jti (revocationTtlSecs user.exp (timestamp s₁.revocations.now)))) := by
      intro o' heq
      cases heq
      exact hcopies
    refine ⟨hguar, fun f₂ => ?_⟩
    have hkeeps := exec_keeps (d := d) hguar Durable.true_kept f₂
    rw [wp_bind]
    refine wp_mono (fun _ _ _ => trivial) (wp_ofRevocation (Q := fun _ _ => True) ?_)
    refine wp_mono (fun _ _ _ => trivial)
      (Durable.wp_revoke Durable.true_kept False False.elim False.elim ?_)
    -- the call is recorded, so its TTL reaches the deadline while the calls are timely
    intro ht
    refine ⟨hkeeps.bounded ht (hcopies (ht.of_subset hkeeps.calls)).1, fun hj => ?_⟩
    exact ht ⟨user.jti, _, s₂.revocations.now⟩ (List.mem_append_right _ List.mem_cons_self) hj

theorem wp_list (app : App) (job : Job) (h : s.revocations.While D jti fun _ => True) :
    wp (machine d) (listContract D jti) i (job.prog app (d.inst i)) (fun _ _ => True) s := by
  cases job with
  | sweep =>
      show wp _ _ _ (ofRevocation (Durable.flushPending (d.inst i)) >>= _) _ s
      rw [wp_bind]
      refine wp_mono (fun _ _ _ => trivial)
        (wp_ofRevocation (Durable.wp_flushPending Durable.true_kept h))
  | request r =>
      simp only [Job.prog]
      rcases serve_cases app (d.inst i) r with hlimited | ⟨sessionId, -, hserve⟩ |
        ⟨handler, hserve, hops⟩
      · refine wp_mono (fun _ _ _ => trivial) (wp_elsewhere ?_ h)
        exact ops_serve_limited (fun _ _ h => by cases h) (fun _ _ _ h => by cases h) app
          (d.inst i) hlimited
      · rw [hserve]
        exact wp_behind (fun user s hs => wp_logout user sessionId r.env hs) h
      · rw [hserve]
        refine wp_behind (fun user s hs => wp_mono (fun _ _ _ => trivial) (wp_elsewhere ?_ hs)) h
        refine (hops user).mono fun o ho o' heq => ?_
        rw [heq] at ho
        exact ho

end Contract

/-! ## Runs -/

section Runs
variable {d : Deployment} {app : App} {jobs : Nat → Job} {s : State} {D : Instant} {jti : Uuid}

section Fresh
variable (hs : s.revocations.Fresh jti) {l : List (Label Fate Move)}
include hs

theorem fit_next {i : Nat} {o : Op} {k : Res o → Program Outcome}
    (hi : ((machine d).run (service d app jobs s) l).thread i = .op o k) :
    (listContract D jti).guar i (after d app jobs s l) o :=
  run_guar (Q := fun _ _ _ => True) (g := fun _ _ => True) (listContract_sound d)
    (fun _ _ _ _ _ _ => trivial)
    (fun _ c e _ => move_keeps (s := c.shared) Durable.true_kept e fun _ _ _ => trivial)
    (along_true (machine d) _ l)
    (fun i => wp_list app (jobs i) hs.while) hi

/-- What operations that do no harm keep, a run keeps unless a restart breaks it. -/
theorem keeps_after {P : Cluster → Prop} (hP : Kept D jti P) {l' : List (Label Fate Move)}
    (hrestart : ∀ inst, .ext (.restart inst) ∈ l' → ∀ c : Cluster, P c →
      P (c.retain inst fun _ => false)) :
    (after d app jobs s l).revocations.Keeps D jti P
      (after d app jobs s (l ++ l')).revocations := by
  induction l' using List.reverseRecOn with
  | nil =>
      rw [List.append_nil]
      exact .refl P _
  | append_singleton l' a ih =>
      refine (ih fun inst h => hrestart inst (List.mem_append_left _ h)).trans ?_
      rw [after, after, ← List.append_assoc, run_append (machine d) _ (l ++ l') [a],
        run_cons, run_nil]
      cases a with
      | ext e =>
          refine move_keeps hP e fun inst he => ?_
          exact hrestart inst (he ▸ List.mem_append_right _ List.mem_cons_self) _
      | run i f =>
          cases hi : ((machine d).run (service d app jobs s) (l ++ l')).thread i with
          | ret a =>
              rw [step_ret (machine d) f hi]
              exact .refl P _
          | op o k =>
              rw [step_op (machine d) f hi]
              exact exec_keeps (fit_next hs hi) hP f

variable (ht : ∀ l, (after d app jobs s l).revocations.Timely D jti)
include ht

/-- Every copy of the revocation reaches the deadline. -/
theorem bounded_after (l : List (Label Fate Move)) :
    (after d app jobs s l).revocations.Bounded D jti :=
  (keeps_after (l := []) hs Durable.true_kept fun _ _ _ _ => trivial).bounded (ht l) hs.bounded

theorem kept_after (l' : List (Label Fate Move)) {P : Cluster → Prop} (hP : Kept D jti P)
    (hrestart : ∀ inst, .ext (.restart inst) ∈ l' → ∀ c : Cluster, P c →
      P (c.retain inst fun _ => false))
    (h : P (after d app jobs s l).revocations) : P (after d app jobs s (l ++ l')).revocations :=
  (keeps_after hs hP hrestart).inv (ht _) (bounded_after hs ht l) h

end Fresh

end Runs

/-! ## A small instance -/

/-- A logout, and a request with the same token. -/
def logoutThenProfile : Nat → Job := fun i =>
  if i = 0 then .request ⟨.v4 1, plainBearer 1, plainEnv 8 0, .logout 7⟩
  else .request ⟨.v4 1, plainBearer 1, plainEnv 9 0, .getProfile⟩

end AppHome.Service
