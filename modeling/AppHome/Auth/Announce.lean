import AppHome.Auth.Sequential

/-!
# Announcing new users

Calls of `login_with_google` one at a time, any storage operation of which may fail. The row of a
new user is committed before the steps that make the tokens and the session, and only the call that
created it knows that the user is new.

* `GoogleLogin.perform` : one call;
* `GoogleLogin.Outcome` : the two things a call can do to `users`, with what it then answers;
* `GoogleLogin.Carried` : no step fails once the user is written;
* `replies`, `afterLogins` : the answers of a list of calls, and the state they leave;
* `new_user_announced` : who announces a user that was created on the way.
-/

namespace AppHome

open Interleave

/-- A call of `login_with_google`, with what becomes of its storage operations. -/
structure GoogleLogin where
  env : Env
  idToken : Bytes
  fates : Nat → Fate

section Perform
variable (st : AppState)

def GoogleLogin.perform (g : GoogleLogin) (w : World) :
    Except AuthError LoginWithGoogleResult × World :=
  machine.alone 0 (loginWithGoogle st.jwtService st.bcrypt st.authSettings g.env st.authProvider
    g.idToken).run w g.fates

/-- Nothing fails once the call has written its user: a create that fails stored nothing, and after
one that goes through so do the reload and the save, the tokens are minted and hashed, and the ids
drawn are in no session yet. -/
def GoogleLogin.Carried (g : GoogleLogin) (w : World) : Prop :=
  ∀ info, st.authProvider.verifyIdToken g.idToken = .ok info →
    (∀ u ∈ w.db.users.rows, u.email ≠ info.email) →
    (∀ e, g.fates 1 ≠ .failedApplied e) ∧
    (g.fates 1 = .done → g.fates 2 = .done ∧ g.fates 3 = .done ∧
      (∃ tokens hash, (⟨g.env, .loginWithGoogle g.idToken⟩ :
        Call).Mints st g.env.newUserId tokens hash) ∧
      ∀ r ∈ w.db.sessions.rows, r.id ≠ g.env.newSessionId ∧ r.userId ≠ g.env.newUserId)

/-! ## Saving -/

theorem alone_commitPlan {α : Type} (now : Nat → Instant) (plan : Except AuthError (Plan α))
    (w : World) (f : Nat → Fate) :
    (machine.alone 0 (commitPlan now plan) w f).2.db.users = w.db.users ∧
      ∀ a, (machine.alone 0 (commitPlan now plan) w f).1 = .ok a →
        ∃ p, plan = .ok p ∧ p.answer = .ok a := by
  cases plan with
  | error e => exact ⟨rfl, fun a h => by cases h⟩
  | ok p =>
      rw [commitPlan, alone_op]
      rcases w.exec_saveAggregate 0 p.aggregate p.newSessions now (f 0) with
        ⟨e, h⟩ | ⟨db, hdb, ⟨-, h⟩ | ⟨e, -, h⟩⟩
      · rw [show machine.exec w 0 (.saveAggregate p.aggregate p.newSessions now) (f 0) =
          (.error e, w) from h]
        exact ⟨rfl, fun a h => by cases h⟩
      · rw [show machine.exec w 0 (.saveAggregate p.aggregate p.newSessions now) (f 0) = _ from h]
        exact ⟨(Db.saveAggregate_ok hdb).1, fun a ha => ⟨p, rfl, ha⟩⟩
      · rw [show machine.exec w 0 (.saveAggregate p.aggregate p.newSessions now) (f 0) = _ from h]
        exact ⟨(Db.saveAggregate_ok hdb).1, fun a ha => by cases ha⟩

theorem alone_commitPlan_ok {α : Type} {now : Nat → Instant} {p : Plan α} {w : World}
    {f : Nat → Fate} {db : Db} (hf : f 0 = .done)
    (hdb : w.db.saveAggregate p.aggregate p.newSessions now = .ok db) :
    (machine.alone 0 (commitPlan now (.ok p)) w f).1 = p.answer := by
  rw [commitPlan, alone_op, hf]
  rcases w.exec_saveAggregate 0 p.aggregate p.newSessions now .done with
    ⟨e, h⟩ | ⟨db', -, ⟨-, h⟩ | ⟨e, he, -⟩⟩
  · simp only [World.exec, orFail, hdb] at h
    cases h
  · rw [show machine.exec w 0 (.saveAggregate p.aggregate p.newSessions now) .done = _ from h]
    rfl
  · cases he

/-! ## One call -/

/-- The email of the account a call is for. -/
def GoogleLogin.email (g : GoogleLogin) : Option String :=
  (st.authProvider.verifyIdToken g.idToken).toOption.map (·.email)

theorem GoogleLogin.email_of_verify {g : GoogleLogin} {info : GoogleUserInfo}
    (h : st.authProvider.verifyIdToken g.idToken = .ok info) : g.email st = some info.email := by
  unfold GoogleLogin.email
  rw [h]
  rfl

/-- **What a call can do to `users`**: nothing, or add one row whose email and id are new. Either
way this says what the call announces when it answers. -/
inductive GoogleLogin.Outcome (g : GoogleLogin) (w : World)
    (answer : Except AuthError LoginWithGoogleResult)
    (w' : World) : Prop
  | known (husers : w'.db.users = w.db.users)
      (hanswer : ∀ r, answer = .ok r → r.isNewUser = false ∧
        ∀ id provider, .userCreated id provider ∉ r.events)
  | created (row : UserRow) (hemail : g.email st = some row.email)
      (hfresh : ∀ u ∈ w.db.users.rows, u.email ≠ row.email ∧ u.id ≠ row.id)
      (hrows : w'.db.users.rows = w.db.users.rows ++ [row])
      (hanswer : ∀ r, answer = .ok r → r.isNewUser = true ∧
        r.events = [.userCreated row.id .google,
          .userLoggedIn row.id g.env.newSessionId .googleOAuth])
      (hcarried : g.Carried st w → ∃ r, answer = .ok r)

variable {st}

theorem googlePlan_answer {g : GoogleLogin} {isNewUser : Bool} {a : UserAggregate}
    {p : Plan LoginWithGoogleResult} {r : LoginWithGoogleResult} (ha : a.pendingEvents = [])
    (h : googlePlan st.jwtService st.bcrypt st.authSettings g.env isNewUser a = .ok p)
    (hr : p.answer = .ok r) :
    r.isNewUser = isNewUser ∧ r.events =
      (if isNewUser then [.userCreated a.user.id .google] else []) ++
      [.userLoggedIn a.user.id g.env.newSessionId .googleOAuth] := by
  obtain ⟨tokens, hash, -, -, rfl⟩ := sessionPlan_inv (c := ⟨g.env, .loginWithGoogle g.idToken⟩) h
  cases hr
  refine ⟨rfl, ?_⟩
  simp only [googleAnswer, UserAggregate.push, ha, List.nil_append]
  split <;> rfl

/-- A session of a user without sessions is within the cap. -/
theorem googlePlan_of_mints {g : GoogleLogin} {a : UserAggregate} {tokens : TokenPair}
    {hash : HashedPassword} (isNewUser : Bool) (hsessions : a.sessions = [])
    (hm : (⟨g.env, .loginWithGoogle g.idToken⟩ : Call).Mints st a.user.id tokens hash) :
    ∃ p r s, googlePlan st.jwtService st.bcrypt st.authSettings g.env isNewUser a = .ok p ∧
      p.answer = .ok r ∧
      p.newSessions = [s] ∧ s.id = g.env.newSessionId ∧ s.userId = a.user.id := by
  have hcap : ¬ a.activeCount g.env.checkAt ≥ maxActiveSessions := by
    unfold UserAggregate.activeCount
    rw [hsessions]
    show ¬ 0 ≥ maxActiveSessions
    decide
  unfold googlePlan sessionPlan
  rw [hm.generated]
  simp only [bind, Except.bind, hm.hashed, UserAggregate.addSession, if_neg hcap]
  exact ⟨_, _, _, rfl, rfl, rfl, rfl, rfl⟩

variable (st) in
/-- What is left of a call once its user is created. -/
def GoogleLogin.afterCreate (g : GoogleLogin) (user : User) :
    Prog Op Res (Except AuthError LoginWithGoogleResult) :=
  .op (.findAggregateById user.id) fun r =>
    commitPlan g.env.insertAt (r >>= createdPlan st.jwtService st.bcrypt st.authSettings g.env)

theorem GoogleLogin.alone_afterCreate (g : GoogleLogin) (user : User) (w : World) (f : Nat → Fate) :
    machine.alone 0 (g.afterCreate st user) w f = machine.alone 0 (commitPlan g.env.insertAt
      (orFail (f 0) (w.db.findAggregateById user.id) >>=
        createdPlan st.jwtService st.bcrypt st.authSettings g.env)) w fun n => f (n + 1) := rfl

theorem GoogleLogin.afterCreate_answer {g : GoogleLogin} {user : User} {w : World} {f : Nat → Fate}
    {r : LoginWithGoogleResult} (h : (machine.alone 0 (g.afterCreate st user) w f).1 = .ok r) :
    r.isNewUser = true ∧
      r.events = [.userCreated user.id .google,
        .userLoggedIn user.id g.env.newSessionId .googleOAuth] := by
  rw [GoogleLogin.alone_afterCreate] at h
  obtain ⟨p, hp, hr⟩ := (alone_commitPlan _ _ _ _).2 r h
  obtain ⟨o, ho, hp⟩ := (bind_eq_ok_iff _ _ _).mp hp
  cases o with
  | none => cases hp
  | some a =>
      obtain ⟨hid, hload⟩ := Db.findAggregateById_some (orFail_ok ho)
      obtain ⟨hnew, hevents⟩ := googlePlan_answer hload.events hp hr
      rw [hid] at hevents
      exact ⟨hnew, hevents⟩

/-- The reload finds the row that was just written, without sessions, so nothing but a failure can
stop the call from here on. -/
theorem GoogleLogin.afterCreate_ok {g : GoogleLogin} {w : World} {u : NewUser} {user : User}
    {db : Db} {f : Nat → Fate}
    (hdb : w.db.create u g.env.newUserId g.env.createAt = .ok (user, db)) (hreload : f 0 = .done)
    (hsave : f 1 = .done)
    (hmints : ∃ tokens hash, (⟨g.env, .loginWithGoogle g.idToken⟩ :
      Call).Mints st g.env.newUserId tokens hash)
    (hids : ∀ r ∈ w.db.sessions.rows, r.id ≠ g.env.newSessionId ∧ r.userId ≠ g.env.newUserId) :
    ∃ r, (machine.alone 0 (g.afterCreate st user) { w with db } f).1 = .ok r := by
  obtain ⟨a, ha, haid, hsessions⟩ := Db.create_load (fun r hr => (hids r hr).2) hdb
  obtain ⟨hs, -⟩ := Db.create_ok hdb
  obtain ⟨tokens, hash, hm⟩ := hmints
  rw [← haid] at hm
  obtain ⟨p, r, s, hp, hr, hnews, hsid, huid⟩ := googlePlan_of_mints true hsessions hm
  have howner : ∃ v ∈ db.users.rows, v.id = s.userId :=
    ⟨_, Db.create_mem hdb, (huid.trans haid).symm⟩
  have hfresh : ∀ r ∈ db.sessions.rows, r.id ≠ s.id := by
    rw [hs, hsid]
    exact fun r hr => (hids r hr).1
  obtain ⟨db', hdb'⟩ := Db.saveAggregate_of_fresh p.aggregate g.env.insertAt howner hfresh
  rw [← hnews] at hdb'
  have hplan : (orFail (f 0) (db.findAggregateById user.id) >>=
      createdPlan st.jwtService st.bcrypt st.authSettings g.env) = .ok p := by
    rw [hreload, orFail, ha]
    exact hp
  rw [GoogleLogin.alone_afterCreate, hplan]
  exact ⟨r, (alone_commitPlan_ok (w := { w with db }) hsave hdb').trans hr⟩

/-- The lookup found nobody: the call creates its user, unless the email is refused or the insert
fails. -/
theorem GoogleLogin.outcome_unknown {g : GoogleLogin} {w : World} {info : GoogleUserInfo}
    (hv : st.authProvider.verifyIdToken g.idToken = .ok info)
    (hnone : ∀ u ∈ w.db.users.rows, u.email ≠ info.email) :
    g.Outcome st w
      (machine.alone 0 (googleRest st.jwtService st.bcrypt st.authSettings g.env info none) w
        fun n => g.fates (n + 1)).1
      (machine.alone 0 (googleRest st.jwtService st.bcrypt st.authSettings g.env info none) w
        fun n => g.fates (n + 1)).2 := by
  unfold googleRest
  cases hm : Email.new info.email with
  | error e => exact .known rfl fun r h => by cases h
  | ok email =>
      rw [alone_op]
      rcases w.exec_create 0 (NewUser.newGoogle email info.name) g.env.newUserId g.env.createAt
        (g.fates 1) with
        ⟨e, he⟩ | ⟨user, db, hdb, hcreate⟩
      · rw [show machine.exec w 0
          (.create (NewUser.newGoogle email info.name) g.env.newUserId g.env.createAt)
          (g.fates (0 + 1)) = _ from he]
        exact .known rfl fun r h => by cases h
      · obtain ⟨-, hfresh, hrows, hinto⟩ := Db.create_ok hdb
        have hemail : email.value = info.email := Email.value_of_new hm
        have hid : user.id = g.env.newUserId := (UserRow.intoUser_id hinto).1
        have hown : g.email st = some email.value :=
          (GoogleLogin.email_of_verify st hv).trans (congrArg some hemail.symm)
        have hnew : ∀ u ∈ w.db.users.rows, u.email ≠ email.value ∧ u.id ≠ g.env.newUserId :=
          fun u hu => ⟨fun h => hnone u hu (h.trans hemail), hfresh u hu⟩
        rcases hcreate with ⟨hdone, he⟩ | ⟨e, hlost, he⟩
        · rw [show machine.exec w 0 (.create (NewUser.newGoogle email info.name) g.env.newUserId
            g.env.createAt) (g.fates (0 + 1)) = _ from he]
          refine .created ((NewUser.newGoogle email info.name).row g.env.newUserId g.env.createAt)
            hown hnew ?_ ?_ ?_
          · exact (congrArg Table.rows (alone_commitPlan _ _ _ _).1).trans hrows
          · intro r hr
            obtain ⟨hflag, hevents⟩ := GoogleLogin.afterCreate_answer hr
            rw [hid] at hevents
            exact ⟨hflag, hevents⟩
          · intro hcarried
            obtain ⟨hreload, hsave, hmints, hids⟩ := (hcarried info hv hnone).2 hdone
            exact GoogleLogin.afterCreate_ok hdb hreload hsave hmints hids
        · rw [show machine.exec w 0 (.create (NewUser.newGoogle email info.name) g.env.newUserId
            g.env.createAt) (g.fates (0 + 1)) = _ from he]
          refine .created ((NewUser.newGoogle email info.name).row g.env.newUserId g.env.createAt)
            hown hnew hrows (fun r hr => ?_) fun hcarried => ?_
          · cases hr
          · exact absurd hlost ((hcarried info hv hnone).1 e)

variable (st) in
theorem GoogleLogin.perform_outcome (g : GoogleLogin) (w : World) :
    g.Outcome st w (g.perform st w).1 (g.perform st w).2 := by
  unfold GoogleLogin.perform
  cases hv : st.authProvider.verifyIdToken g.idToken with
  | error e =>
      unfold loginWithGoogle
      rw [Fallible.run_lift_bind, hv]
      exact .known rfl fun r h => by cases h
  | ok info =>
      rw [loginWithGoogle_run _ _ _ _ _ _ hv, alone_op]
      rw [show machine.exec w 0 (.findAggregateByEmail info.email) (g.fates 0) =
        (orFail (g.fates 0) (w.db.findAggregateByEmail info.email), w) from rfl]
      cases hfind : orFail (g.fates 0) (w.db.findAggregateByEmail info.email) with
      | error e => exact .known rfl fun r h => by cases h
      | ok o =>
          cases o with
          | none =>
              refine GoogleLogin.outcome_unknown hv fun u hu => ?_
              exact of_decide_eq_false (Db.findAggregate_none (orFail_ok hfind) u hu)
          | some a =>
              obtain ⟨-, hload⟩ := Db.findAggregate_some (orFail_ok hfind)
              refine .known (alone_commitPlan _ _ _ _).1 fun r hr => ?_
              obtain ⟨p, hp, hanswer⟩ := (alone_commitPlan _ _ _ _).2 r hr
              obtain ⟨hnew, hevents⟩ := googlePlan_answer hload.events hp hanswer
              refine ⟨hnew, fun id provider hmem => ?_⟩
              rw [hevents] at hmem
              cases List.mem_singleton.mp hmem

end Perform

/-! ## Calls one after the other -/

section Run
variable (st : AppState)

def replies : World → List GoogleLogin → List (GoogleLogin × Except AuthError LoginWithGoogleResult)
  | _, [] => []
  | w, g :: calls => (g, (g.perform st w).1) :: replies (g.perform st w).2 calls

def afterLogins : World → List GoogleLogin → World
  | w, [] => w
  | w, g :: calls => afterLogins (g.perform st w).2 calls

def AllCarried : World → List GoogleLogin → Prop
  | _, [] => True
  | w, g :: calls => g.Carried st w ∧ AllCarried (g.perform st w).2 calls

/-- The call says that this user is new, by its flag or by an event. -/
def Announces (p : GoogleLogin × Except AuthError LoginWithGoogleResult) (u : UserRow) : Prop :=
  ∃ r, p.2 = .ok r ∧ ((p.1.email st = some u.email ∧ r.isNewUser = true) ∨
    ∃ provider, .userCreated u.id provider ∈ r.events)

variable {st}

theorem GoogleLogin.Outcome.not_announces {g : GoogleLogin} {w w' : World}
    {answer : Except AuthError LoginWithGoogleResult} (h : g.Outcome st w answer w') {u : UserRow}
    (hu : ∀ v ∈ w'.db.users.rows, v ∉ w.db.users.rows → v.email ≠ u.email ∧ v.id ≠ u.id) :
    ¬ Announces st (g, answer) u := by
  rintro ⟨r, hr, hsays⟩
  cases h with
  | known husers hanswer =>
      obtain ⟨hold, hevents⟩ := hanswer r hr
      rcases hsays with ⟨-, hnew⟩ | ⟨provider, hmem⟩
      · exact absurd hnew (by rw [hold]; decide)
      · exact hevents _ _ hmem
  | created row hemail hfresh hrows hanswer hcarried =>
      have hmem : row ∈ w'.db.users.rows := by
        rw [hrows]
        exact List.mem_append_right _ List.mem_cons_self
      obtain ⟨hne, hid⟩ := hu row hmem fun hold => (hfresh row hold).2 rfl
      rcases hsays with ⟨hsame, -⟩ | ⟨provider, hcreated⟩
      · exact hne (Option.some.inj (hemail.symm.trans hsame))
      · rw [(hanswer r hr).2] at hcreated
        simp only [List.mem_cons, Event.userCreated.injEq, reduceCtorEq, List.not_mem_nil,
          or_false] at hcreated
        exact hid hcreated.1.symm

/-- Rows are only added, each with an email and an id that nobody had. -/
theorem GoogleLogin.Outcome.rows {g : GoogleLogin} {w w' : World}
    {answer : Except AuthError LoginWithGoogleResult} (h : g.Outcome st w answer w') :
    ∃ news, w'.db.users.rows = w.db.users.rows ++ news ∧
      ∀ n ∈ news, ∀ u ∈ w.db.users.rows, u.email ≠ n.email ∧ u.id ≠ n.id := by
  cases h with
  | known husers hanswer =>
      refine ⟨[], ?_, fun n hn => by cases hn⟩
      rw [husers, List.append_nil]
  | created row hemail hfresh hrows hanswer hcarried =>
      exact ⟨[row], hrows, List.forall_mem_singleton.mpr hfresh⟩

variable (st) in
theorem afterLogins_rows (w : World) (calls : List GoogleLogin) :
    ∃ news, (afterLogins st w calls).db.users.rows = w.db.users.rows ++ news ∧
      ∀ n ∈ news, ∀ u ∈ w.db.users.rows, u.email ≠ n.email ∧ u.id ≠ n.id := by
  induction calls generalizing w with
  | nil => exact ⟨[], (List.append_nil _).symm, fun n hn => by cases hn⟩
  | cons g calls ih =>
      obtain ⟨first, hfirst, hf⟩ := (g.perform_outcome st w).rows
      obtain ⟨later, hlater, hl⟩ := ih (g.perform st w).2
      refine ⟨first ++ later, by rw [afterLogins, hlater, hfirst, List.append_assoc],
        fun n hn u hu => ?_⟩
      rcases List.mem_append.mp hn with hn | hn
      · exact hf n hn u hu
      · exact hl n hn u (by rw [hfirst]; exact List.mem_append_left _ hu)

theorem replies_silent {w : World} {u : UserRow} (hu : u ∈ w.db.users.rows)
    (calls : List GoogleLogin) :
    ∀ p ∈ replies st w calls, ¬ Announces st p u := by
  induction calls generalizing w with
  | nil => exact fun p hp => by cases hp
  | cons g calls ih =>
      have hout := g.perform_outcome st w
      obtain ⟨news, hnews, hn⟩ := hout.rows
      have hkept : u ∈ (g.perform st w).2.db.users.rows := by
        rw [hnews]
        exact List.mem_append_left _ hu
      refine List.forall_mem_cons.mpr ⟨hout.not_announces fun v hv hvold => ?_, ih hkept⟩
      rw [hnews, List.mem_append] at hv
      have hvnew := hn v (hv.resolve_left hvold) u hu
      exact ⟨Ne.symm hvnew.1, Ne.symm hvnew.2⟩

/-- A row whose id is not among those of `w` was added since, so it shares nothing
unique with them. -/
theorem afterLogins_fresh {w : World} {calls : List GoogleLogin} {u : UserRow}
    (hu : u ∈ (afterLogins st w calls).db.users.rows) (hnew : ∀ v ∈ w.db.users.rows, v.id ≠ u.id) :
    ∀ v ∈ w.db.users.rows, v.email ≠ u.email ∧ v.id ≠ u.id := by
  obtain ⟨news, hnews, hn⟩ := afterLogins_rows st w calls
  rw [hnews, List.mem_append] at hu
  exact hn u (hu.resolve_left fun hold => hnew u hold rfl)

theorem mem_afterLogins {w : World} {u : UserRow} (hu : u ∈ w.db.users.rows)
    (calls : List GoogleLogin) :
    u ∈ (afterLogins st w calls).db.users.rows := by
  obtain ⟨news, hnews, -⟩ := afterLogins_rows st w calls
  rw [hnews]
  exact List.mem_append_left _ hu

variable (st) in
/-- **A new user is announced by exactly one call, when no call fails after it has created its
user**: the call that created the row returns `is_new_user` and one `UserCreated`, and no other call
says anything of it. -/
theorem new_user_announced (w : World) (calls : List GoogleLogin) (hall : AllCarried st w calls)
    (u : UserRow) (hu : u ∈ (afterLogins st w calls).db.users.rows)
    (hnew : ∀ v ∈ w.db.users.rows, v.id ≠ u.id) :
    ∃ before g r after, replies st w calls = before ++ (g, .ok r) :: after ∧
      g.email st = some u.email ∧ r.isNewUser = true ∧
      (∃ rest, r.events = .userCreated u.id .google :: rest ∧
        ∀ provider, .userCreated u.id provider ∉ rest) ∧
      ∀ p ∈ before ++ after, ¬ Announces st p u := by
  induction calls generalizing w with
  | nil => exact absurd rfl (hnew u hu)
  | cons g calls ih =>
      have hout := g.perform_outcome st w
      by_cases hthere : ∀ v ∈ (g.perform st w).2.db.users.rows, v.id ≠ u.id
      · obtain ⟨before, g', r, after, heq, hmail, hflag, hevents, hsilent⟩ := ih _ hall.2 hu hthere
        have hfirst : ¬ Announces st (g, (g.perform st w).1) u :=
          hout.not_announces fun v hv _ =>
            afterLogins_fresh (w := (g.perform st w).2) hu hthere v hv
        refine ⟨(g, (g.perform st w).1) :: before, g', r, after, ?_, hmail, hflag, hevents, ?_⟩
        · rw [replies, heq, List.cons_append]
        · exact List.forall_mem_cons.mpr ⟨hfirst, hsilent⟩
      · push Not at hthere
        obtain ⟨v, hv, hvid⟩ := hthere
        cases hout with
        | known husers hanswer => exact absurd hvid (hnew v (by rw [← husers]; exact hv))
        | created row hemail hfresh hrows hanswer hcarried =>
            have hv' := hv
            rw [hrows, List.mem_append, List.mem_singleton] at hv'
            obtain rfl := hv'.resolve_left fun hold => hnew v hold hvid
            obtain rfl := Table.eq_of_key (mem_afterLogins hv calls) hu hvid
            obtain ⟨r, hr⟩ := hcarried hall.1
            obtain ⟨hflag, hevents⟩ := hanswer r hr
            refine ⟨[], g, r, replies st (g.perform st w).2 calls, ?_, hemail, hflag, ?_,
              replies_silent hv calls⟩
            · rw [replies, hr, List.nil_append]
            · exact ⟨_, hevents, fun provider hmem => by cases List.mem_singleton.mp hmem⟩

end Run

/-! ## Creating a user, then failing -/

/-- Every ID token belongs to one account. -/
def googleState : AppState :=
  { plainState with authProvider := ⟨fun _ => .ok ⟨"new@example.org", "N"⟩⟩ }

/-- Two logins in a row, the first with these failures. -/
def twoLogins (fates : Nat → Fate) : List GoogleLogin :=
  [⟨plainEnv 8 5, [], fates⟩, ⟨plainEnv 9 6, [], fun _ => .done⟩]

def newGoogleRow : UserRow := ⟨2, none, "new@example.org", "N", none, "google", 5, 5⟩

theorem new_user_announced_twoLogins :
    ∃ before g r after, replies googleState (.init plainDb) (twoLogins fun _ => .done) =
        before ++ (g, .ok r) :: after ∧ g.email googleState = some "new@example.org" ∧
        r.isNewUser = true ∧
      (∃ rest, r.events = .userCreated 2 .google :: rest ∧
        ∀ provider, .userCreated 2 provider ∉ rest) ∧
      ∀ p ∈ before ++ after, ¬ Announces googleState p newGoogleRow := by
  have hthere : newGoogleRow ∈
      ((⟨plainEnv 8 5, [], fun _ => .done⟩ : GoogleLogin).perform googleState
        (.init plainDb)).2.db.users.rows :=
    List.mem_cons_of_mem _ List.mem_cons_self
  refine new_user_announced googleState (.init plainDb) (twoLogins fun _ => .done)
    ⟨?_, ?_, trivial⟩ newGoogleRow
    (List.mem_cons_of_mem _ List.mem_cons_self) (by decide)
  · refine fun info _ _ => ⟨fun e he => ?_, fun _ => ⟨rfl, rfl, ⟨_, _, rfl, rfl⟩, by decide⟩⟩
    cases he
  · intro info hinfo hnone
    cases hinfo
    exact absurd rfl (hnone newGoogleRow hthere)

/-- The fourth operation of a call that creates its user is the save. -/
def failedSave : Nat → Fate := fun n => if n = 3 then .failed "connection reset" else .done

theorem failedSave_replies : (replies googleState (.init plainDb) (twoLogins failedSave)).map
      (fun p => p.2.toOption.map fun r => (r.isNewUser, r.events)) =
    [none, some (false, [.userLoggedIn 2 9 .googleOAuth])] := by decide +kernel

/-- The row stays, the retry finds it, and nobody announces the user. -/
theorem failedSave_unannounced :
    newGoogleRow ∈ (afterLogins googleState (.init plainDb) (twoLogins failedSave)).db.users.rows ∧
      (∀ v ∈ plainDb.users.rows, v.id ≠ newGoogleRow.id) ∧
      (∃ p ∈ replies googleState (.init plainDb) (twoLogins failedSave),
        p.1.email googleState = some newGoogleRow.email ∧ ∃ r, p.2 = .ok r) ∧
      ∀ p ∈ replies googleState (.init plainDb) (twoLogins failedSave),
        ¬ Announces googleState p newGoogleRow := by
  refine ⟨List.mem_cons_of_mem _ List.mem_cons_self, by decide, ?_, ?_⟩
  · exact ⟨_, List.mem_cons_of_mem _ List.mem_cons_self, rfl, _, rfl⟩
  · rintro p hp ⟨r, hr, hsays⟩
    have hmem :=
      List.mem_map_of_mem (f := fun p => p.2.toOption.map fun r => (r.isNewUser, r.events)) hp
    rw [failedSave_replies, hr] at hmem
    simp only [Except.toOption, Option.map_some, List.mem_cons, reduceCtorEq, Option.some.injEq,
      Prod.mk.injEq, List.not_mem_nil, or_false, false_or] at hmem
    rcases hsays with ⟨-, hnew⟩ | ⟨provider, hcreated⟩
    · exact absurd hnew (by rw [hmem.1]; decide)
    · rw [hmem.2] at hcreated
      cases List.mem_singleton.mp hcreated

end AppHome
