import AppHome.Service.Authority

/-!
# Profiles belong to their users

`profile_changes_own` : a profile row that is not the initial one was written by a request of its
own user, whose token was accepted, and is the update of a row that was stored for the user before.
-/

namespace AppHome.Profiles

open Interleave

/-! ## What an update reads and writes -/

/-- `p` is the update of what was stored, under the same user. -/
structure UserProfile.Updates (p : UserProfile) (userId : Uuid) (avatarUrl bio : Option String)
    (stored : Option UserProfile) : Prop where
  userId : p.userId = userId
  avatarUrl : fieldValue AvatarUrl.new "avatar_url" avatarUrl (stored.bind (·.avatarUrl)) =
    .ok p.avatarUrl
  bio : fieldValue Bio.new "bio" bio (stored.bind (·.bio)) = .ok p.bio

/-- The row of the user was read, and `p` is the update of it. -/
def ReadFor (p : UserProfile) (userId : Uuid) (avatarUrl bio : Option String) :
    (o : Op) → Res o → Prop
  | .findByUserId id, .ok stored => id = userId ∧ p.Updates userId avatarUrl bio stored
  | _, _ => False

theorem until_updateProfile (p : UserProfile) (userId : Uuid) (avatarUrl bio : Option String) :
    (updateProfile userId avatarUrl bio).run.Until (· = .upsert p) (ReadFor p userId avatarUrl bio)
      fun _ => True := by
  unfold updateProfile
  split_ifs with hgiven
  · trivial
  · refine Fallible.until_bind ⟨fun h => (by cases h), fun r hread =>
      ⟨fun _ _ => trivial, fun stored hr => ?_⟩⟩
    subst hr
    rw [Fallible.run_lift_bind]
    cases havatar : fieldValue AvatarUrl.new "avatar_url" avatarUrl (stored.bind (·.avatarUrl)) with
    | error e => trivial
    | ok avatar =>
        show Prog.Until _ _ _ (ExceptT.run (liftM _ >>= _))
        rw [Fallible.run_lift_bind]
        cases hbio : fieldValue Bio.new "bio" bio (stored.bind (·.bio)) with
        | error e => trivial
        | ok bio =>
            refine Fallible.until_bind
              ⟨fun h => (by cases h), fun t _ => ⟨fun _ _ => trivial, fun t' _ => ?_⟩⟩
            refine Fallible.until_bind
              ⟨fun h => ?_, fun r _ => ⟨fun _ _ => trivial, fun _ _ => trivial⟩⟩
            cases h
            exact hread ⟨rfl, rfl, havatar, hbio⟩

theorem until_updateProfileHandler (p : UserProfile) (userId : Uuid)
    (avatarUrl bio : Option String) :
    (updateProfileHandler userId avatarUrl bio).Until (· = .upsert p)
    (ReadFor p userId avatarUrl bio) fun _ => True := by
  refine ((until_updateProfile p userId avatarUrl bio).mono fun r _ => ?_).bind
  rcases r with e | profile
  · cases e <;> trivial
  · trivial

theorem ops_updateProfile (userId : Uuid) (avatarUrl bio : Option String) :
    (updateProfile userId avatarUrl bio).run.Ops fun o => ∀ p, o = .upsert p →
      p.userId = userId := by
  unfold updateProfile
  split_ifs with hgiven
  · trivial
  · refine Fallible.ops_bind ⟨fun _ h => (by cases h), fun _ => trivial⟩ fun stored => ?_
    rw [Fallible.run_lift_bind]
    cases fieldValue AvatarUrl.new "avatar_url" avatarUrl (stored.bind (·.avatarUrl)) with
    | error e => trivial
    | ok avatar =>
        show Prog.Ops _ (ExceptT.run (liftM _ >>= _))
        rw [Fallible.run_lift_bind]
        cases fieldValue Bio.new "bio" bio (stored.bind (·.bio)) with
        | error e => trivial
        | ok bio =>
            refine Fallible.ops_bind ⟨fun _ h => (by cases h), fun _ => trivial⟩ fun t => ?_
            refine Fallible.ops_bind ⟨fun p h => ?_, fun _ => trivial⟩ fun _ => trivial
            cases h
            rfl

theorem ops_updateProfileHandler (userId : Uuid) (avatarUrl bio : Option String) :
    (updateProfileHandler userId avatarUrl bio).Ops fun o => ∀ p, o = .upsert p →
      p.userId = userId := by
  refine (ops_updateProfile userId avatarUrl bio).bind fun r => ?_
  rcases r with e | profile
  · cases e <;> trivial
  · trivial

theorem ops_getProfileHandler {P : Op → Prop} (hfind : ∀ id, P (.findByUserId id)) (userId : Uuid) :
    (getProfileHandler userId).Ops P := by
  refine Prog.Ops.bind (Fallible.ops_bind ⟨hfind userId, fun _ => trivial⟩ fun profile => ?_)
    fun r => ?_
  · cases profile <;> trivial
  · rcases r with e | profile
    · cases e <;> trivial
    · trivial

end AppHome.Profiles

namespace AppHome.Service

open Interleave

/-! ## Rows -/

theorem exec_profile (d : Deployment) (t : State) (i : Nat) (o : Op) (f : Fate) (id : Uuid) :
    (exec d t i o f).2.profiles.find? id = t.profiles.find? id ∨ ∃ p, o = .profile (.upsert p) ∧
    p.userId = id ∧
      (exec d t i o f).2.profiles.find? id = some p.row := by
  cases o with
  | profile o =>
      cases o with
      | findByUserId userId =>
        cases hf : f.profile <;> exact Or.inl (by simp only [exec, Profiles.exec, hf]; rfl)
      | now => exact Or.inl rfl
      | upsert p =>
          have hupsert : ∀ t' : Profiles.State, t.profile.upsert i p = .ok t' →
              t'.profiles = t.profiles.put p.row := by
            intro t' h
            unfold Profiles.State.upsert at h
            split_ifs at h
            cases h
            rfl
          have hput : (t.profiles.put p.row).find? id = t.profiles.find? id ∨ p.userId = id ∧
              (t.profiles.put p.row).find? id = some p.row := by
            rw [Table.find?_put]
            split_ifs with hid
            · exact Or.inr ⟨hid, rfl⟩
            · exact Or.inl rfl
          have hcases : (exec d t i (.profile (.upsert p)) f).2.profiles = t.profiles ∨
              (exec d t i (.profile (.upsert p)) f).2.profiles = t.profiles.put p.row := by
            cases hok : t.profile.upsert i p with
            | error e =>
              cases hf : f.profile <;>
              exact Or.inl (by simp only [exec, Profiles.exec, hf, hok]; rfl)
            | ok t' =>
                have hprofiles := hupsert t' hok
                cases hf : f.profile with
                | failed e => exact Or.inl (by simp only [exec, Profiles.exec, hf]; rfl)
                | done =>
                  exact Or.inr (by simp only [exec, Profiles.exec, hf, hok]; exact hprofiles)
                | failedApplied e =>
                  exact Or.inr (by simp only [exec, Profiles.exec, hf, hok]; exact hprofiles)
          rcases hcases with h | h
          · exact Or.inl (by rw [h])
          · rw [h]
            exact hput.imp_right fun hp => ⟨p, rfl, hp⟩
  | _ => exact Or.inl rfl

theorem move_profiles (d : Deployment) (t : State) (e : Move) :
    (move d t e).profiles = t.profiles := by
  cases e <;> rfl

/-- The operation writes no profile, or that of the user who asks for it. -/
def Op.OwnProfile (app : App) (job : Job) (o : Op) : Prop :=
  ∀ p, o = .profile (.upsert p) → ∃ r avatarUrl bio claims, job = .request r ∧
    r.endpoint = .updateProfile avatarUrl bio ∧
    subject app.verification r.headers = some claims ∧ p.userId = claims.sub

theorem ownProfile_of_ne {app : App} {job : Job} {o : Op} (h : ∀ p, o ≠ .profile (.upsert p)) :
    o.OwnProfile app job :=
  fun p ho => absurd ho (h p)

theorem ownProfile_job (app : App) (inst : Nat) (job : Job) :
    (job.prog app inst).Ops (Op.OwnProfile app job) := by
  have hauth : ∀ o, (Op.auth o).OwnProfile app job :=
    fun o => ownProfile_of_ne fun _ h => by cases h
  have hlimiter : ∀ which o, (Op.limiter which o).OwnProfile app job :=
    fun _ o => ownProfile_of_ne fun _ h => by cases h
  have hrevocation : ∀ o, (Op.revocation o).OwnProfile app job :=
    fun o => ownProfile_of_ne fun _ h => by cases h
  have hadmin : ∀ o, (Op.admin o).OwnProfile app job :=
    fun o => ownProfile_of_ne fun _ h => by cases h
  have hnow : Op.utcNow.OwnProfile app job := ownProfile_of_ne fun _ h => by cases h
  cases job with
  | sweep => exact (ops_ofRevocation hrevocation _).bind fun _ => trivial
  | request r =>
      show (r.serve app inst).Ops _
      by_cases hprotected : r.endpoint.limiter? = none
      · unfold HttpRequest.serve
        cases hr : r.endpoint with
        | logout sessionId =>
            exact ops_authenticated hnow hrevocation fun _ _ =>
              ops_logoutUser _ _ hauth hnow hrevocation _ _
        | getProfile =>
            refine ops_authenticated hnow hrevocation fun _ _ =>
              Prog.Ops.bind (Prog.ops_widen ?_) fun _ => trivial
            exact Profiles.ops_getProfileHandler (fun _ => ownProfile_of_ne fun _ h => by cases h) _
        | updateProfile avatarUrl bio =>
            refine ops_authenticated hnow hrevocation fun claims hclaims =>
              Prog.Ops.bind (Prog.ops_widen ?_) fun _ => trivial
            refine (Profiles.ops_updateProfileHandler _ avatarUrl bio).mono fun o ho p hp => ?_
            cases hp
            exact ⟨r, avatarUrl, bio, claims, rfl, hr, hclaims, ho p rfl⟩
        | listUsers query =>
            exact ops_authenticated hnow hrevocation fun _ _ =>
              (ops_ofAdmin hadmin _).bind fun _ => trivial
        | getUser userId =>
            exact ops_authenticated hnow hrevocation fun _ _ =>
              (ops_ofAdmin hadmin _).bind fun _ => trivial
        | updateUserRole userId role =>
            exact ops_authenticated hnow hrevocation fun _ _ =>
              (ops_ofAdmin hadmin _).bind fun _ => trivial
        | _ =>
            rw [hr] at hprotected
            cases hprotected
      · exact ops_serve_limited hauth hlimiter app inst hprotected

/-! ## What was read -/

/-- The row of the user was read, and `p` is the update of it. -/
def ProfileRead (p : Profiles.UserProfile) (userId : Uuid) (avatarUrl bio : Option String) :
    (o : Op) → Res o → Prop
  | .profile o, r => Profiles.ReadFor p userId avatarUrl bio o r
  | _, _ => False

section Runs
variable {d : Deployment} {app : App} {jobs : Nat → Job} {s : State} {i : Nat} {r : HttpRequest}
  {l : List (Label Fate Move)}

theorem updates_of_read {t : State} {p : Profiles.UserProfile} {userId : Uuid}
    {avatarUrl bio : Option String} {o : Op} {f : Fate}
    (h : ProfileRead p userId avatarUrl bio o (exec d t i o f).1) :
    p.Updates userId avatarUrl bio ((t.profiles.find? userId).map (·.profile)) := by
  cases o with
  | profile o =>
      cases o with
      | findByUserId id =>
          cases hf : f.profile with
          | done =>
              simp only [exec, Profiles.exec, hf] at h
              obtain ⟨rfl, hupdates⟩ := h
              exact hupdates
          | failed e =>
              simp only [exec, Profiles.exec, hf] at h
              exact h.elim
          | failedApplied e =>
              simp only [exec, Profiles.exec, hf] at h
              exact h.elim
      | _ => exact h.elim
  | _ => exact h.elim

/-- What a request is about to write is an update of what was stored at some moment before. -/
theorem updates_before (hjob : jobs i = .request r) {avatarUrl bio : Option String}
    (hendpoint : r.endpoint = .updateProfile avatarUrl bio) {claims : AccessClaims}
    (hclaims : subject app.verification r.headers = some claims) {p : Profiles.UserProfile}
    {k : Res (.profile (.upsert p)) → Program Outcome}
    (hi : ((machine d).run (service d app jobs s) l).thread i = .op (.profile (.upsert p)) k) :
    ∃ l₁, l₁ <+: l ∧
      p.Updates claims.sub avatarUrl bio
        (((after d app jobs s l₁).profiles.find? claims.sub).map (·.profile)) := by
  have huntil : ((service d app jobs s).thread i).Until (· = .profile (.upsert p))
      (ProfileRead p claims.sub avatarUrl bio) fun _ => True := by
    simp only [service, hjob, Job.prog, HttpRequest.serve, hendpoint]
    refine until_behind (fun o ho heq => ?_) trivial fun claims' hclaims' => Prog.Until.bind ?_
    · rw [heq] at ho
      exact ho
    · cases hclaims.symm.trans hclaims'
      refine (Prog.Until.widen ?_ ?_
        (Profiles.until_updateProfileHandler p claims.sub avatarUrl bio)).mono fun _ _ => trivial
      · exact fun o ho => Op.profile.inj ho
      · exact fun o r hr => hr
  obtain ⟨l₁, f, l₂, o, k', hl, -, hread⟩ := run_until (machine d) huntil (by rw [hi]; rfl)
  exact ⟨l₁, ⟨_, hl.symm⟩, updates_of_read hread⟩

end Runs

/-- **Profiles change by their users only.** In every run, the profile of a user is the initial one
or the one that the last request to change it gave: a request of the user, whose token was accepted,
and an update of what was stored before. -/
theorem profile_changes_own (d : Deployment) (app : App) (jobs : Nat → Job) (s : State)
    (l : List (Label Fate Move)) (id : Uuid) :
    (after d app jobs s l).profiles.find? id = s.profiles.find? id ∨
      ∃ (l₁ : List (Label Fate Move)) (i : Nat) (f : Fate)
        (l₂ : List (Label Fate Move)) (r : HttpRequest) (avatarUrl bio : Option String)
        (claims : AccessClaims) (p : Profiles.UserProfile),
        l = l₁ ++ .run i f :: l₂ ∧ jobs i = .request r ∧ r.endpoint = .updateProfile avatarUrl bio ∧
        subject app.verification r.headers = some claims ∧ claims.sub = id ∧
        Cleared d app jobs s i r.headers claims l₁ ∧
        (∃ k, ((machine d).run (service d app jobs s) l₁).thread i = .op (.profile (.upsert p)) k) ∧
        (∃ l₀, l₀ <+: l₁ ∧
          p.Updates id avatarUrl bio
            (((after d app jobs s l₀).profiles.find? id).map (·.profile))) ∧
        ∀ l₃, l₃ <+: l₂ → (after d app jobs s (l₁ ++ .run i f :: l₃)).profiles.find? id =
          some p.row := by
  by_cases hsame : (after d app jobs s l).profiles.find? id = s.profiles.find? id
  · exact Or.inl hsame
  · obtain ⟨l₁, i, f, l₂, o, k, hl, hi, hchange, hlater⟩ :=
      run_last_change (machine d) (v := fun t : State => t.profiles.find? id)
        (c := service d app jobs s) (l := l)
        (fun t e => congrArg (·.find? id) (move_profiles d t e)) hsame
    rcases exec_profile d (after d app jobs s l₁) i o f id with hrow | ⟨p, rfl, hid, hrow⟩
    · exact absurd hrow hchange
    · obtain ⟨r, avatarUrl, bio, claims, hjob, hendpoint, hclaims, hsub⟩ :=
        run_ops (machine d) (ownProfile_job app (d.inst i) (jobs i)) hi p rfl
      have hid : claims.sub = id := hsub.symm.trans hid
      have hpast : Past d app jobs s i l₁ := by
        rw [Past, hi]
        exact fun h => h
      obtain ⟨claims', hclaims', hcleared⟩ := cleared_of_past hjob (by rw [hendpoint]; rfl) hpast
      cases hclaims.symm.trans hclaims'
      obtain ⟨l₀, hl₀, hupdates⟩ := updates_before hjob hendpoint hclaims hi
      rw [hid] at hupdates
      have hstored : (after d app jobs s (l₁ ++ [.run i f])).profiles.find? id = some p.row := by
        rw [after, run_append, run_cons, run_nil, step_op (machine d) f hi]
        exact hrow
      refine Or.inr ⟨l₁, i, f, l₂, r, avatarUrl, bio, claims, p, hl, hjob, hendpoint, hclaims, hid,
        hcleared, ⟨k, hi⟩, ⟨l₀, hl₀, hupdates⟩, fun l₃ hl₃ => ?_⟩
      exact ((hlater l₃ hl₃).trans (hlater [] List.nil_prefix).symm).trans hstored

end AppHome.Service
