import AppHome.Auth.Tokens

/-!
# The owner and the method of a session along its rotations

* `Db.Records` : the row of a session names this user and this method. It says so for at most one
  user and one method (`Records.unique`), and keeps saying so (`Records.mono`);
* `Event.Recorded`, `Response.Recorded` : what an event and an answer say about sessions is what
  their rows say. Everything a request commits or answers is recorded, whatever the schedule
  (`lineage_obligations`);
* `Descends` : the sessions reached from one by refreshes that have answered;
* `method_survives_rotation` : all of them have the user and the method of the login they come from.
-/

namespace AppHome

open Interleave

/-! ## What the rows say -/

/-- The row of the session names this user, and this method in its stored form. -/
def Db.Records (db : Db) (sessionId userId : Uuid) (method : AuthMethod) : Prop :=
  ∃ r ∈ db.sessions.rows, r.id = sessionId ∧ r.userId = userId ∧ r.authMethod = method.asStr

theorem Db.Records.mono {db db' : Db} {s u : Uuid} {m : AuthMethod} (hle : db.Le db')
    (h : db.Records s u m) :
    db'.Records s u m := by
  obtain ⟨r, hr, hid, hu, hm⟩ := h
  obtain ⟨r', hr', hrle⟩ := hle.sessions r hr
  exact ⟨r', hr', hrle.id.trans hid, hrle.userId.trans hu, hrle.authMethod.trans hm⟩

theorem Db.Records.unique {db : Db} {s u u' : Uuid} {m m' : AuthMethod} (h : db.Records s u m)
    (h' : db.Records s u' m') : u = u' ∧ m = m' := by
  obtain ⟨r, hr, hid, rfl, hm⟩ := h
  obtain ⟨r', hr', hid', rfl, hm'⟩ := h'
  obtain rfl : r = r' := Table.eq_of_key hr hr' (hid.trans hid'.symm)
  have htext : m.asStr = m'.asStr := hm.symm.trans hm'
  have hdecode : (.ok m : Except String AuthMethod) = .ok m' := by
    rw [← AuthMethod.tryFrom_asStr m, ← AuthMethod.tryFrom_asStr m', htext]
  exact ⟨rfl, Except.ok.inj hdecode⟩

theorem Db.Loads.records {db : Db} {a : UserAggregate} (hload : db.Loads a) {s : Session}
    (hs : s ∈ a.sessions) :
    db.Records s.id a.user.id s.authMethod := by
  obtain ⟨r, hr, hu, hd⟩ := hload.row_of_mem hs
  obtain ⟨hid, -, -, -, -, hm⟩ := SessionRow.intoSession_ok hd
  exact ⟨r, hr, hid.symm, hu, hm.symm⟩

theorem Db.records_of_save {db db' : Db} {a : UserAggregate} {s : NewSession} {now : Nat → Instant}
    (h : db.saveAggregate a [s] now = .ok db') : db'.Records s.id s.userId s.authMethod := by
  have hrows := (Db.saveAggregate_ok h).2
  have hle := SessionRow.le_retire (Db.invalidatedIds a) (s.row (now 0))
  refine ⟨(s.row (now 0)).retire (Db.invalidatedIds a), ?_, hle.id, hle.userId, hle.authMethod⟩
  rw [hrows]
  exact List.mem_map_of_mem (List.mem_append_right _ List.mem_cons_self)

/-! ## What events and answers say -/

/-- The session an event is about is as the event says. -/
def Event.Recorded (db : Db) : Event → Prop
  | .userLoggedIn u s m => db.Records s u m
  | .userLoggedOut u s m => db.Records s u m
  | .sessionRefreshed u s m => db.Records s u m
  | .userCreated _ _ => True

theorem Event.Recorded.mono {db db' : Db} (hle : db.Le db') {e : Event} (h : e.Recorded db) :
    e.Recorded db' := by
  cases e with
  | userLoggedIn u s m => exact Db.Records.mono hle h
  | userLoggedOut u s m => exact Db.Records.mono hle h
  | sessionRefreshed u s m => exact Db.Records.mono hle h
  | userCreated u p => trivial

/-- The user, the session and the method of a login that succeeded. -/
def Response.opened : Response → Option (Uuid × Uuid × AuthMethod)
  | .loginWithPassword r => some (r.user.id, r.sessionId, .password)
  | .loginWithGoogle r => some (r.user.id, r.sessionId, .googleOAuth)
  | _ => none

/-- What the answer of a request says about sessions is what their rows say. A refresh names the
user and the method of the session it was given, for the new one; and it found the method in its
event. -/
structure Response.Recorded (st : AppState) (c : Call) (db : Db) (resp : Response) : Prop where
  events : ∀ e ∈ resp.events, e.Recorded db
  opened : ∀ {u s m}, resp.opened = some (u, s, m) → db.Records s u m
  refreshed : ∀ {r}, resp = .refreshToken r → db.Records r.sessionId r.userId r.authMethod ∧
    r.events.head?.bind (·.authMethod) = some r.authMethod ∧
    ∀ {claims}, c.claims st = some claims → db.Records claims.sessionId r.userId r.authMethod

theorem Response.Recorded.mono {st : AppState} {c : Call} {db db' : Db} (hle : db.Le db')
    {resp : Response} (h : resp.Recorded st c db) : resp.Recorded st c db' where
  events := fun e he => (h.events e he).mono hle
  opened := fun ho => (h.opened ho).mono hle
  refreshed := by
    intro r hr
    obtain ⟨hnew, hmethod, hold⟩ := h.refreshed hr
    exact ⟨hnew.mono hle, hmethod, fun hc => (hold hc).mono hle⟩

/-! ## What a request decides -/

theorem UserAggregate.mem_invalidateAll_snd {userId : Uuid} {l : List Session} {e : Event}
    (he : e ∈ (invalidateAll userId l).2) :
    ∃ s ∈ l, e = .userLoggedOut userId s.id s.authMethod := by
  induction l with
  | nil => cases he
  | cons t l ih =>
      unfold invalidateAll at he
      split_ifs at he with h
      · rcases List.mem_cons.mp he with rfl | he
        · exact ⟨t, List.mem_cons_self, rfl⟩
        · obtain ⟨s, hs, rfl⟩ := ih he
          exact ⟨s, List.mem_cons_of_mem t hs, rfl⟩
      · obtain ⟨s, hs, rfl⟩ := ih he
        exact ⟨s, List.mem_cons_of_mem t hs, rfl⟩

section Decides
variable {st : AppState} {c : Call} {db₀ db db' : Db} {a : UserAggregate} {p : Plan Response}

theorem Db.Loads.pending_push (hload : db₀.Loads a) (e : Event) :
    (a.push e).pendingEvents = [e] := by
  rw [UserAggregate.push, hload.events]
  rfl

theorem Db.Loads.recorded_push (hload : db₀.Loads a) {e : Event} (he : e.Recorded db') :
    ∀ e' ∈ (a.push e).pendingEvents, e'.Recorded db' := by
  rw [hload.pending_push]
  exact List.forall_mem_singleton.mpr he

/-- A refresh finds its method in the one event of the rotation. -/
theorem Db.Loads.refreshAnswer_method (hload : db₀.Loads a) (claims : RefreshTokenClaims)
    (tokens : TokenPair) (u s : Uuid) (m : AuthMethod) :
    (a.retired claims.sessionId (.sessionRefreshed u s m)).pendingEvents.head?.bind
      (·.authMethod) = some m ∧
    (refreshAnswer c.env claims (a.retired claims.sessionId (.sessionRefreshed u s m))
      tokens).authMethod = m := by
  have hfirst : (a.retired claims.sessionId (.sessionRefreshed u s m)).pendingEvents.head?.bind
      (·.authMethod) =
      some m := by
    show (a.push _).pendingEvents.head?.bind _ = _
    rw [hload.pending_push]
    rfl
  refine ⟨hfirst, ?_⟩
  unfold refreshAnswer
  rw [hfirst]
  rfl

theorem Call.Opens.recorded {method : AuthMethod} {tokens : TokenPair} {answer : Response}
    (ho : c.Opens a tokens method answer) (hevents : ∀ e ∈ a.pendingEvents, e.Recorded db')
    (hnew : db'.Records c.env.newSessionId a.user.id method) : answer.Recorded st c db' := by
  cases ho with
  | password hr =>
      refine ⟨hevents, ?_, by rintro r ⟨⟩⟩
      rintro u s m ⟨⟩
      exact hnew
  | google isNewUser hr =>
      refine ⟨?_, ?_, by rintro r ⟨⟩⟩
      · intro e he
        cases isNewUser with
        | false => exact hevents e he
        | true =>
            rcases List.mem_cons.mp he with rfl | he
            · trivial
            · exact hevents e he
      · rintro u s m ⟨⟩
        exact hnew

/-- **What a committed decision says about sessions is recorded**, in its events and
in its answer. -/
theorem Call.Decides.records (hload : db₀.Loads a) (hle : db₀.Le db) (hdec : c.Decides st a p)
    (hsave : db.saveAggregate p.aggregate p.newSessions c.env.insertAt = .ok db') :
    (∀ e ∈ p.aggregate.pendingEvents, e.Recorded db') ∧ ∀ resp, p.answer = .ok resp →
      resp.Recorded st c db' := by
  have hle' : db₀.Le db' := hle.trans (Db.saveAggregate_le hsave)
  cases hdec with
  | opens hm hcap ho =>
      have hnew := Db.records_of_save hsave
      have hevents := hload.recorded_push (e := .userLoggedIn a.user.id c.env.newSessionId _) hnew
      refine ⟨hevents, ?_⟩
      rintro resp ⟨⟩
      exact ho.recorded hevents hnew
  | @rotates token claims tokens hash s hr hv hu hm hs hactive hexp htoken =>
      have hnew := Db.records_of_save hsave
      obtain ⟨hmem, hid⟩ := UserAggregate.find_session hs
      have hold : db'.Records claims.sessionId a.user.id s.authMethod :=
        hid ▸ (hload.records hmem).mono hle'
      have hevents :=
        hload.recorded_push (e := .sessionRefreshed a.user.id c.env.newSessionId s.authMethod) hnew
      refine ⟨hevents, ?_⟩
      rintro resp ⟨⟩
      refine ⟨hevents, by rintro u s m ⟨⟩, ?_⟩
      rintro r ⟨⟩
      obtain ⟨hfirst, hmethod⟩ :=
        hload.refreshAnswer_method (c := c) claims tokens a.user.id c.env.newSessionId s.authMethod
      rw [hmethod]
      refine ⟨hu ▸ hnew, hfirst, fun hv' => ?_⟩
      obtain rfl := Option.some.inj (hv.symm.trans hv')
      exact hu ▸ hold
  | reuses hr hv hu hs hactive =>
      refine ⟨?_, by rintro resp ⟨⟩⟩
      intro e he
      have he' : e ∈ a.pendingEvents ++ (UserAggregate.invalidateAll a.user.id a.sessions).2 := he
      rw [hload.events, List.nil_append] at he'
      obtain ⟨t, ht, rfl⟩ := UserAggregate.mem_invalidateAll_snd he'
      exact (hload.records ht).mono hle'
  | @closes sessionId s hr hs hactive hexp =>
      obtain ⟨hmem, hid⟩ := UserAggregate.find_session hs
      have hold : db'.Records sessionId a.user.id s.authMethod :=
        hid ▸ (hload.records hmem).mono hle'
      have hevents :=
        hload.recorded_push (e := .userLoggedOut a.user.id sessionId s.authMethod) hold
      refine ⟨hevents, ?_⟩
      rintro resp ⟨⟩
      exact ⟨hevents, by rintro u s m ⟨⟩, by rintro r ⟨⟩⟩

end Decides

/-! ## Any number of requests side by side -/

/-- A save that commits leaves the events of its aggregate recorded. -/
def savesRecorded (_ : Nat) (w : World) : Op → Prop
  | .saveAggregate a news now => ∀ db, w.db.saveAggregate a news now = .ok db →
    ∀ e ∈ a.pendingEvents, e.Recorded db
  | _ => True

theorem lineage_obligations (st : AppState) (c : Call) (i : Nat) :
    c.Obligations st (sharedContract savesRecorded) i (fun _ => True)
      (fun answer w => ∀ resp, answer = .ok resp → resp.Recorded st c w.db) where
  le := id
  rely := fun _ h => h
  load := by
    intro w o _ ho
    cases o with
    | saveAggregate a news now => cases ho
    | _ => trivial
  create := fun h _ => h
  error := by rintro w e _ resp ⟨⟩
  lost := by rintro w₀ w a p db e _ _ _ _ _ _ resp ⟨⟩
  save := fun _ hload _ hdec hle db hdb => (hdec.records hload hle.db hdb).1
  commit := fun _ hload _ hdec hle hdb => (hdec.records hload hle.db hdb).2

section System
variable {st : AppState} {calls : Nat → Call} {w : World} {l : List (Label Fate Consume)}

theorem answer_recorded {i : Nat} {resp : Response}
    (hi : (machine.run (system st calls w) l).thread i = .ret (.ok resp)) :
    resp.Recorded st (calls i) (machine.run (system st calls w) l).shared.db :=
  system_post (fun i => lineage_obligations st (calls i) i)
    (fun _ _ _ _ hle h resp hr => (h resp hr).mono hle.db) trivial
      (along_true machine _ l) hi resp rfl

/-- The events of every save that has committed are recorded. -/
def World.CommitsRecorded (w : World) : Prop :=
  ∀ k ∈ w.commits, ∀ e ∈ k.aggregate.pendingEvents, e.Recorded w.db

theorem World.exec_commitsRecorded {w : World} {i : Nat} {o : Op} {f : Fate}
    (ho : savesRecorded i w o) (h : w.CommitsRecorded) : (w.exec i o f).2.CommitsRecorded := by
  refine World.exec_rule f h (fun _ _ => h) ?_ ?_
  · exact fun u id now user db _ hdb k hk e he => (h k hk e he).mono (Db.create_le hdb)
  · rintro a news now db rfl hdb k hk
    rcases List.mem_append.mp hk with hk | hk
    · exact fun e he => (h k hk e he).mono (Db.saveAggregate_le hdb)
    · obtain rfl := List.mem_singleton.mp hk
      exact ho db hdb

theorem commits_recorded (hw : w.CommitsRecorded) :
    (machine.run (system st calls w) l).shared.CommitsRecorded := by
  refine system_shared (fun i => lineage_obligations st (calls i) i)
    (fun _ _ _ _ hle h resp hr => (h resp hr).mono hle.db) trivial
      (along_true machine _ l) World.CommitsRecorded
    (fun _ _ hguar h => World.exec_commitsRecorded hguar h) (fun {w e} h => ?_) hw
  unfold World.CommitsRecorded at h ⊢
  rwa [World.consume_db, World.consume_commits]

end System

/-! ## Chains of refreshes -/

/-- The sessions reached from `root` by refreshes that have answered: each was given one and created
the next. -/
inductive Descends (st : AppState) (calls : Nat → Call) (c : Config) (root : Uuid) : Uuid → Prop
  | root : Descends st calls c root root
  | refresh {s i r} (h : Descends st calls c root s) (hs : (calls i).presents st = some s)
      (hi : c.thread i = .ret (.ok (.refreshToken r))) : Descends st calls c root r.sessionId

/-- The events the requests have committed or answered with. -/
def Config.Emitted (c : Config) (e : Event) : Prop :=
  (∃ k ∈ c.shared.commits, e ∈ k.aggregate.pendingEvents) ∨
    ∃ i resp, c.thread i = .ret (.ok resp) ∧ e ∈ resp.events

section Chain
variable {st : AppState} {calls : Nat → Call} {w : World} {l : List (Label Fate Consume)}

theorem emitted_recorded (hw : w.CommitsRecorded) {e : Event}
    (he : Config.Emitted (machine.run (system st calls w) l) e) :
    e.Recorded (machine.run (system st calls w) l).shared.db := by
  rcases he with ⟨k, hk, he⟩ | ⟨i, resp, hi, he⟩
  · exact commits_recorded hw k hk e he
  · exact (answer_recorded hi).events e he

/-- One rotation: the new session has the user and the method of the one presented, and so has the
answer. -/
theorem records_of_refresh {i : Nat} {s u : Uuid} {m : AuthMethod} {r : RefreshResult}
    (hs : (calls i).presents st = some s)
    (hi : (machine.run (system st calls w) l).thread i = .ret (.ok (.refreshToken r)))
    (h : (machine.run (system st calls w) l).shared.db.Records s u m) :
    (machine.run (system st calls w) l).shared.db.Records r.sessionId u m ∧ r.userId = u ∧
    r.authMethod = m := by
  obtain ⟨claims, hc, rfl⟩ := Call.presents_eq_some.mp hs
  obtain ⟨hnew, -, hold⟩ := (answer_recorded hi).refreshed rfl
  obtain ⟨rfl, rfl⟩ := (hold hc).unique h
  exact ⟨hnew, rfl, rfl⟩

theorem Descends.records {root s u : Uuid} {m : AuthMethod}
    (hd : Descends st calls (machine.run (system st calls w) l) root s)
    (hroot : (machine.run (system st calls w) l).shared.db.Records root u m) :
    (machine.run (system st calls w) l).shared.db.Records s u m := by
  induction hd with
  | root => exact hroot
  | refresh _ hs hi ih => exact (records_of_refresh hs hi ih).1

end Chain

/-- **The login method and the owner of a session survive rotation.** Take any interleaving of
requests, with any storage failures. Every session that descends from the one a login created has a
row with the login's user and its method, in a stored form that decodes to it; a refresh that was
given the session answered with that user and that method; and every `SessionRefreshed` and
`UserLoggedOut` event about the session names them. No refresh that answered fell back on a default
for the method, and what `insert_session` writes decodes to the method it was given. -/
theorem method_survives_rotation (st : AppState) (calls : Nat → Call) (db : Db)
    (l : List (Label Fate Consume)) {j : Nat} {login : Response} {u root : Uuid} {m : AuthMethod}
    (hlogin : (machine.run (system st calls (.init db)) l).thread j = .ret (.ok login))
    (hopened : login.opened = some (u, root, m)) {s : Uuid}
    (hs : Descends st calls (machine.run (system st calls (.init db)) l) root s) :
    (∃ r ∈ (machine.run (system st calls (.init db)) l).shared.db.sessions.rows,
      r.id = s ∧ r.userId = u ∧ r.authMethod = m.asStr ∧ AuthMethod.tryFrom r.authMethod = .ok m) ∧
    (∀ i r, (calls i).presents st = some s →
      (machine.run (system st calls (.init db)) l).thread i = .ret (.ok (.refreshToken r)) →
      r.userId = u ∧ r.authMethod = m) ∧
    (∀ u' m', Config.Emitted (machine.run (system st calls (.init db)) l)
      (.sessionRefreshed u' s m') ∨
      Config.Emitted (machine.run (system st calls (.init db)) l) (.userLoggedOut u' s m') →
        u' = u ∧ m' = m) ∧
    (∀ i r, (machine.run (system st calls (.init db)) l).thread i = .ret (.ok (.refreshToken r)) →
      r.events.head?.bind (·.authMethod) = some r.authMethod) ∧
    (∀ (n : NewSession) (now : Instant), ∃ session, (n.row now).intoSession = .ok session ∧
      session.authMethod = n.authMethod) := by
  have hrecords := hs.records ((answer_recorded hlogin).opened hopened)
  have hinit : (World.init db).CommitsRecorded := by rintro k ⟨⟩
  refine ⟨?_, ?_, ?_, ?_, ?_⟩
  · obtain ⟨r, hr, hid, hu, hm⟩ := hrecords
    exact ⟨r, hr, hid, hu, hm, by rw [hm, AuthMethod.tryFrom_asStr]⟩
  · intro i r hi hr
    exact (records_of_refresh hi hr hrecords).2
  · intro u' m' he
    rcases he with he | he
    · exact Db.Records.unique (emitted_recorded hinit he) hrecords
    · exact Db.Records.unique (emitted_recorded hinit he) hrecords
  · intro i r hi
    exact ((answer_recorded hi).refreshed rfl).2.1
  · exact fun n now => ⟨_, n.intoSession_row now true, rfl⟩

/-- The password login of user `1` that opens session `8`, and a refresh of it that opens session
`9`. -/
def openThenRotate : Nat → Call
  | 0 => ⟨plainEnv 8 5, .loginWithPassword "jdoe" [0]⟩
  | _ => ⟨plainEnv 9 5, .refreshToken (plainToken 1 8)⟩

theorem method_survives_rotation_nine :
    ∃ r ∈ (machine.run (system plainState openThenRotate (.init plainDb))
      [.run 0 .done, .run 0 .done, .run 1 .done, .run 1 .done]).shared.db.sessions.rows,
      r.id = 9 ∧ r.userId = 1 ∧ r.authMethod = "password" := by
  obtain ⟨⟨r, hr, hid, hu, hm, -⟩, -⟩ := method_survives_rotation plainState openThenRotate plainDb
    [.run 0 .done, .run 0 .done, .run 1 .done, .run 1 .done] (j := 0) rfl rfl
    (.refresh (i := 1) .root (by decide) rfl)
  exact ⟨r, hr, hid, hu, hm⟩

end AppHome
