import AppHome.Auth.Handlers
import AppHome.Auth.Ledger

/-!
# The audit trail

* `Relayed` : as long as nothing is published into a full channel, what has been published is what
  the consumer has recorded followed by what is still in the channel;
* `auditContract` : a handler saves at most once, publishes only after that, and ends having
  published the entries of its save (`announced`);
* `audit_accounts_for_sessions` : along a run whose saves are safe and whose publishes find room,
  once the channel is empty and every handler that has saved is done, the audit table holds exactly
  one login or refresh row for each inserted session and exactly one row accounting for each retired
  one;
* `audit_misses_reuse` : the answer to a reused token retires sessions and publishes nothing.
-/

namespace AppHome

open Interleave

/-! ## From the channel to the table -/

structure Relayed (w : World) : Prop where
  entries : (w.published.map (·.2)).filterMap Event.entry =
    w.userActions.map UserActionRow.entry ++ w.bus.queue.filterMap Event.entry
  lagged : w.bus.lagged = 0

theorem Relayed.consume {w : World} (h : Relayed w) (c : Consume) : Relayed (w.consume c) := by
  unfold World.consume EventBus.recv
  rw [if_neg (not_not.mpr h.lagged)]
  cases hq : w.bus.queue with
  | nil => exact h
  | cons e queue =>
      refine ⟨?_, h.lagged⟩
      have hrow := AuditEventHandler.handle_entry c.id c.now e
      rw [h.entries, hq, List.map_append, List.append_assoc]
      refine congrArg _ ?_
      cases hh : AuditEventHandler.handle c.id c.now e with
      | none =>
          rw [hh] at hrow
          rw [List.filterMap_cons_none hrow.symm]
          rfl
      | some row =>
          rw [hh] at hrow
          rw [List.filterMap_cons_some hrow.symm]
          rfl

theorem Relayed.publish {w : World} (h : Relayed w) (i : Nat) (e : Event)
    (hroom : w.bus.queue.length < eventBusCapacity) :
    Relayed { w with bus := w.bus.publish e, published := w.published ++ [(i, e)] } := by
  unfold EventBus.publish
  rw [if_pos hroom]
  refine ⟨?_, h.lagged⟩
  simp only [List.map_append, List.filterMap_append, h.entries, List.append_assoc]
  rfl

/-! ## What a handler does -/

def World.publishedBy (w : World) (i : Nat) : List Event := (w.published.filter (·.1 = i)).map (·.2)

def World.commitsBy (w : World) (i : Nat) : List Commit := w.commits.filter (·.thread = i)

section Audit
variable (st : AppState) (calls : Nat → Call)

/-- A handler saves once at most, and publishes only then. -/
def auditGuar (i : Nat) (w : World) : Op → Prop
  | .saveAggregate a news _ => w.commitsBy i = [] ∧
      ∀ answered, Commit.Recorded st calls ⟨i, a, news, answered⟩ ∧
        Commit.Marks st calls w ⟨i, a, news, answered⟩
  | .publish _ => w.commitsBy i ≠ []
  | _ => True

/-- The others leave alone what a handler has saved and published. -/
structure AuditRely (i : Nat) (w w' : World) : Prop where
  le : w.Le w'
  published : w'.publishedBy i = w.publishedBy i
  commits : w'.commitsBy i = w.commitsBy i

def auditContract : Contract World Op := ⟨AuditRely, auditGuar st calls⟩

theorem commitsBy_append (w : World) (db : Db) (k : Commit) (i : Nat) :
    World.commitsBy { w with db, commits := w.commits ++ [k] } i =
      w.commitsBy i ++ if k.thread = i then [k] else [] := by
  by_cases h : k.thread = i
  · simp [World.commitsBy, h]
  · simp [World.commitsBy, h]

theorem publishedBy_append (w : World) (bus : EventBus) (j : Nat) (e : Event) (i : Nat) :
    World.publishedBy { w with bus, published := w.published ++ [(j, e)] } i =
      w.publishedBy i ++ if j = i then [e] else [] := by
  by_cases h : j = i
  · simp [World.publishedBy, h]
  · simp [World.publishedBy, h]

theorem auditRely_consume (i : Nat) (w : World) (c : Consume) : AuditRely i w (w.consume c) := by
  refine ⟨w.consume_le c, ?_, ?_⟩
  · unfold World.consume
    split <;> rfl
  · unfold World.consume
    split <;> rfl

theorem auditRely_exec {i j : Nat} (hij : i ≠ j) (w : World) (o : Op) (f : Fate) :
    AuditRely i w (w.exec j o f).2 := by
  refine World.exec_rule (P := AuditRely i w) f ⟨.refl w, rfl, rfl⟩ ?_ ?_ ?_
  · intro e _
    refine ⟨⟨.refl _, List.prefix_refl _⟩, ?_, rfl⟩
    refine (publishedBy_append w _ j e i).trans ?_
    rw [if_neg hij.symm, List.append_nil]
  · exact fun u id now user db _ hdb => ⟨⟨Db.create_le hdb, List.prefix_refl _⟩, rfl, rfl⟩
  · intro a news now db _ hdb
    refine ⟨⟨Db.saveAggregate_le hdb, List.prefix_append _ _⟩, rfl,
      (commitsBy_append w db _ i).trans ?_⟩
    rw [if_neg hij.symm, List.append_nil]

theorem auditContract_sound : (auditContract st calls).Sound machine where
  refl := fun _ w => ⟨.refl w, rfl, rfl⟩
  trans := fun h h' =>
    ⟨h.le.trans h'.le, h'.published.trans h.published, h'.commits.trans h.commits⟩
  exec := fun f _ hij => auditRely_exec hij _ _ f

/-- The entries of the save a handler knows of. -/
def World.owed (i : Nat) (w : World) : List Entry :=
  ((w.commitsBy i).filter (·.answered)).flatMap (Commit.entries st calls)

/-- What a request has to announce when its use case has answered. -/
def toAnnounce (i : Nat) (r : Except AuthError Response) (w : World) : Prop :=
  w.publishedBy i = [] ∧
    match r with
    | .ok resp => w.commitsBy i ≠ [] ∧ resp.events.filterMap Event.entry = w.owed st calls i
    | .error _ => w.owed st calls i = []

/-- The handler has published the entries of its save. -/
def announced (i : Nat) (w : World) : Prop :=
  (w.publishedBy i).filterMap Event.entry = w.owed st calls i

variable {st calls}

theorem wp_publishAll {i : Nat} (events done : List Event) {w : World} (hc : w.commitsBy i ≠ [])
    (hp : w.publishedBy i = done)
    (h : (done ++ events).filterMap Event.entry = w.owed st calls i) :
    wp machine (auditContract st calls) i (publishAll events)
      (fun _ => announced st calls i) w := by
  induction events generalizing done w with
  | nil =>
      rw [List.append_nil] at h
      exact (congrArg _ hp).trans h
  | cons e events ih =>
      intro w' hw'
      have hc' : w'.commitsBy i ≠ [] := by
        rw [hw'.commits]
        exact hc
      refine ⟨hc', fun f => ih (done ++ [e]) hc' ?_ ?_⟩
      · refine (publishedBy_append w' _ i e i).trans ?_
        rw [hw'.published, hp, if_pos rfl]
      · rw [List.append_assoc]
        refine h.trans ?_
        unfold World.owed
        rw [← hw'.commits]
        rfl

theorem commitsBy_first {i : Nat} {w₀ w : World} (hw : AuditRely i w₀ w)
    (hnone : w₀.commitsBy i = []) (db : Db) (k : Commit) (hk : k.thread = i) :
    World.commitsBy { w with db, commits := w.commits ++ [k] } i = [k] := by
  rw [commitsBy_append, hw.commits, hnone, if_pos hk, List.nil_append]

theorem audit_obligations (i : Nat) :
    (calls i).Obligations st (auditContract st calls) i
      (fun w => w.commitsBy i = [] ∧ w.publishedBy i = []) (toAnnounce st calls i) where
  le := fun h => h.le
  rely := fun h hJ => ⟨h.commits.trans hJ.1, h.published.trans hJ.2⟩
  load := by
    intro w o hJ ho
    cases o with
    | saveAggregate a news now => cases ho
    | publish e => cases ho
    | _ => trivial
  create := fun hJ _ => hJ
  error := fun e hJ => ⟨hJ.2, by rw [World.owed, hJ.1]; rfl⟩
  save := fun hJ hload _ hdec hw =>
    ⟨hw.commits.trans hJ.1, fun _ => ⟨hdec.recorded hload.events, hdec.marks hload hw.le⟩⟩
  commit := by
    intro w₀ w a p db hJ hload _ hdec hw hdb
    have hcommits := commitsBy_first hw hJ.1 db ⟨i, p.aggregate, p.newSessions, true⟩ rfl
    obtain ⟨hok, herr⟩ := hdec.answer_entries
    refine ⟨hw.published.trans hJ.2, ?_⟩
    rw [World.owed, hcommits, List.filter_cons_of_pos rfl, List.filter_nil, List.flatMap_singleton]
    cases hans : p.answer with
    | ok resp => exact ⟨List.cons_ne_nil _ _, hok resp hans⟩
    | error e => exact herr e hans
  lost := by
    intro w₀ w a p db e hJ hload _ hdec hw hdb
    have hcommits := commitsBy_first hw hJ.1 db ⟨i, p.aggregate, p.newSessions, false⟩ rfl
    refine ⟨hw.published.trans hJ.2, ?_⟩
    rw [World.owed, hcommits]
    rfl

theorem wp_handle (allowed : Nat → Bool) (db : Db) (i : Nat) :
    wp machine (auditContract st calls) i ((calls i).handle st (allowed i))
      (fun _ => announced st calls i) (.init db) := by
  refine (audit_obligations i).wp_handle ?_ ?_ ?_ (allowed i) ⟨rfl, rfl⟩
  · rintro w ⟨hc, hp⟩
    rw [announced, World.owed, hc, hp]
    rfl
  · rintro e w ⟨hp, hc⟩
    rw [announced, hp, hc]
    rfl
  · rintro r w ⟨hp, hc, he⟩
    exact wp_publishAll r.events [] hc hp he

/-! ## Runs -/

variable (st calls) in
/-- Saves are safe, and an event is published only while the channel has room. -/
def auditSafe (c : Cfg World Op Res HttpResponse) : Label Fate Consume → Prop
  | .run i f =>
    (∀ a news now k, c.thread i = .op (.saveAggregate a news now) k →
      Commit.Safe st calls c.shared ⟨i, a, news, f.answers⟩) ∧
    (∀ e k, c.thread i = .op (.publish e) k → c.shared.bus.queue.length < eventBusCapacity)
  | .ext _ => True

variable (st calls) in
structure Trail (db : Db) (w : World) : Prop where
  ledger : Ledger st calls db w
  relayed : Relayed w
  lost : ∀ k ∈ w.commits, k.answered = false → k.entries st calls = []
  threads : (w.commits.map (·.thread)).Nodup
  authors : ∀ p ∈ w.published, p.1 ∈ w.commits.map (·.thread)

theorem Trail.consume {db : Db} {w : World} (h : Trail st calls db w) (c : Consume) :
    Trail st calls db (w.consume c) := by
  refine ⟨?_, h.relayed.consume c, ?_, ?_, ?_⟩
  · obtain ⟨hl, -, -, -, -⟩ := h
    unfold World.consume
    split <;> exact ⟨hl.le, hl.ids, hl.recorded, hl.rows, hl.active, hl.inactive⟩
  · unfold World.consume
    split <;> exact h.lost
  · unfold World.consume
    split <;> exact h.threads
  · unfold World.consume
    split <;> exact h.authors

theorem not_mem_threads {w : World} {i : Nat} :
    i ∉ w.commits.map (·.thread) ↔ w.commitsBy i = [] := by
  simp [World.commitsBy, List.filter_eq_nil_iff]

theorem Trail.publish {db : Db} {w : World} (h : Trail st calls db w) {i : Nat} (e : Event)
    (hc : w.commitsBy i ≠ []) (hroom : w.bus.queue.length < eventBusCapacity) :
    Trail st calls db { w with bus := w.bus.publish e, published := w.published ++ [(i, e)] } := by
  obtain ⟨hl, hr, hlost, ht, ha⟩ := h
  refine ⟨⟨hl.le, hl.ids, hl.recorded, hl.rows, hl.active, hl.inactive⟩, hr.publish i e hroom,
    hlost, ht, ?_⟩
  intro p hp
  rcases List.mem_append.mp hp with hp | hp
  · exact ha p hp
  · rw [List.mem_singleton.mp hp]
    exact not_not.mp fun hn => hc (not_mem_threads.mp hn)

theorem Trail.commit {db : Db} {w : World} (h : Trail st calls db w) {i : Nat} {a : UserAggregate}
    {news : List NewSession} {answered : Bool} {now : Nat → Instant} {db' : Db}
    (hdb : w.db.saveAggregate a news now = .ok db')
    (hg : auditGuar st calls i w (.saveAggregate a news now))
    (hsafe : Commit.Safe st calls w ⟨i, a, news, answered⟩) :
    Trail st calls db { w with db := db', commits := w.commits ++ [⟨i, a, news, answered⟩] } := by
  obtain ⟨hnone, hcommit⟩ := hg
  obtain ⟨hrec, hmarks⟩ := hcommit answered
  refine ⟨h.ledger.commit hdb hrec hmarks hsafe, ⟨h.relayed.entries, h.relayed.lagged⟩, ?_, ?_, ?_⟩
  · intro k hk
    rcases List.mem_append.mp hk with hk | hk
    · exact h.lost k hk
    · rw [List.mem_singleton.mp hk]
      exact hsafe.answered
  · rw [List.map_append, List.nodup_append]
    refine ⟨h.threads, List.nodup_singleton _, fun j hj j' hj' => ?_⟩
    rw [List.map_singleton, List.mem_singleton] at hj'
    rintro rfl
    rw [hj'] at hj
    exact not_mem_threads.mpr hnone hj
  · intro p hp
    rw [List.map_append]
    exact List.mem_append_left _ (h.authors p hp)

theorem Trail.exec {db : Db} {w : World} (h : Trail st calls db w) {i : Nat} {o : Op} (f : Fate)
    (hg : auditGuar st calls i w o)
    (hsave : ∀ a news now, o = .saveAggregate a news now →
      Commit.Safe st calls w ⟨i, a, news, f.answers⟩)
    (hpub : ∀ e, o = .publish e → w.bus.queue.length < eventBusCapacity) :
    Trail st calls db (w.exec i o f).2 := by
  refine World.exec_rule f h ?_ ?_ ?_
  · rintro e rfl
    exact h.publish e hg (hpub e rfl)
  · intro u id now user db' _ hdb
    obtain ⟨hs, -⟩ := Db.create_ok hdb
    obtain ⟨hl, hr, hlost, ht, ha⟩ := h
    refine ⟨⟨hl.le.trans (Db.create_le hdb), ?_, hl.recorded, ?_, ?_, ?_⟩, ⟨hr.entries, hr.lagged⟩,
      hlost, ht, ha⟩
    · rw [hs]
      exact hl.ids
    · rw [hs]
      exact hl.rows
    · rw [hs]
      exact hl.active
    · rw [hs]
      exact hl.inactive
  · rintro a news now db' rfl hdb
    exact h.commit hdb hg (hsave a news now rfl)

theorem announced_rely (i : Nat) (_ : HttpResponse) (w w' : World) (hw : AuditRely i w w')
    (h : announced st calls i w) : announced st calls i w' := by
  unfold announced World.owed at h ⊢
  rw [hw.published, hw.commits]
  exact h

section Run
variable (allowed : Nat → Bool) (db : Db) {l : List (Label Fate Consume)}
  (hl : machine.Along (auditSafe st calls) (handlers st calls allowed (.init db)) l)
include hl

theorem announced_run {i : Nat} {r : HttpResponse}
    (hi : (machine.run (handlers st calls allowed (.init db)) l).thread i = .ret r) :
    announced st calls i (machine.run (handlers st calls allowed (.init db)) l).shared := by
  exact run_post (auditContract_sound st calls) announced_rely
    (fun i c e _ => auditRely_consume i c.shared e) hl (wp_handle allowed db) hi

theorem trail_run :
    Trail st calls db (machine.run (handlers st calls allowed (.init db)) l).shared := by
  refine run_shared (auditContract_sound st calls) announced_rely
    (fun i c e _ => auditRely_consume i c.shared e) (I := Trail st calls db) ?_ ?_ hl
    (wp_handle allowed db) ⟨ledger_init db, ⟨rfl, rfl⟩, (fun k hk => by cases hk), List.nodup_nil,
      fun p hp => by cases hp⟩
  · intro c i o k f hi hsafe hg hI
    refine hI.exec f hg ?_ ?_
    · rintro a news now rfl
      exact hsafe.1 a news now k hi
    · rintro e rfl
      exact hsafe.2 e k hi
  · intro c e _ hI
    exact hI.consume e

end Run

/-! ## Counting -/

/-- A log is the union of its threads' parts. -/
theorem perm_flatMap_filter {α : Type} {ts : List Nat} {log : List (Nat × α)} (hn : ts.Nodup)
    (hlog : ∀ p ∈ log, p.1 ∈ ts) : log.Perm (ts.flatMap fun t => log.filter (·.1 = t)) := by
  induction ts generalizing log with
  | nil =>
      have hnil : log = [] := List.eq_nil_iff_forall_not_mem.mpr fun p hp => by cases hlog p hp
      rw [hnil]
      rfl
  | cons t ts ih =>
      obtain ⟨ht, hn⟩ := List.nodup_cons.mp hn
      have hrest : ∀ p ∈ log.filter (fun p => !decide (p.1 = t)), p.1 ∈ ts := by
        intro p hp
        obtain ⟨hp, hne⟩ := List.mem_filter.mp hp
        exact (List.mem_cons.mp (hlog p hp)).resolve_left (by simpa using hne)
      have hsame :
          (ts.flatMap fun t' => (log.filter fun p => !decide (p.1 = t)).filter (·.1 = t')) =
          ts.flatMap fun t' => log.filter (·.1 = t') := by
        refine List.flatMap_congr fun t' ht' => ?_
        rw [List.filter_filter]
        refine List.filter_congr fun p _ => ?_
        by_cases hp : p.1 = t'
        · have hne : t' ≠ t := fun he => ht (he ▸ ht')
          simp [hp, hne]
        · simp [hp]
      have hperm := ih hn hrest
      rw [hsame] at hperm
      exact (List.filter_append_perm (fun p => decide (p.1 = t)) log).symm.trans
        (List.Perm.append_left _ hperm)

theorem filter_key_eq {α : Type} {f : α → Nat} {l : List α} (hn : (l.map f).Nodup) {x : α}
    (hx : x ∈ l) :
    l.filter (fun y => f y = f x) = [x] := by
  induction l with
  | nil => cases hx
  | cons y l ih =>
      rw [List.map_cons, List.nodup_cons] at hn
      rcases List.mem_cons.mp hx with rfl | hx
      · have hrest : l.filter (fun y => f y = f x) = [] := by
          refine List.filter_eq_nil_iff.mpr fun z hz hfz => hn.1 ?_
          exact List.mem_map.mpr ⟨z, hz, of_decide_eq_true hfz⟩
        rw [List.filter_cons_of_pos (by simp), hrest]
      · have hne : f y ≠ f x := fun he => hn.1 (he ▸ List.mem_map_of_mem hx)
        rw [List.filter_cons_of_neg (by simpa using hne), ih hn.2 hx]

theorem countP_flatMap_unit {α β : Type} {f : α → List β} {p : β → Bool} {q : α → Bool} {l : List α}
    (h : ∀ x ∈ l, (f x).countP p = if q x then 1 else 0) : (l.flatMap f).countP p = l.countP q := by
  induction l with
  | nil => rfl
  | cons x l ih =>
      have hx := h x List.mem_cons_self
      rw [List.flatMap_cons, List.countP_append, ih fun y hy => h y (List.mem_cons_of_mem x hy), hx,
        List.countP_cons]
      omega

/-- Once the channel is empty and the handlers are done, the table holds the entries
of the saves. -/
theorem Trail.entries_perm {db : Db} {w : World} (h : Trail st calls db w)
    (hdone : ∀ k ∈ w.commits, announced st calls k.thread w) (hempty : w.bus.queue = []) :
    (w.userActions.map UserActionRow.entry).Perm (w.commits.flatMap (Commit.entries st calls)) := by
  have hown : ∀ k ∈ w.commits, w.commitsBy k.thread = [k] := fun k hk => filter_key_eq h.threads hk
  have hperm := (perm_flatMap_filter h.threads h.authors).map (·.2) |>.filterMap Event.entry
  rw [h.relayed.entries, hempty, List.filterMap_nil, List.append_nil] at hperm
  refine hperm.trans (List.Perm.of_eq ?_)
  rw [List.flatMap_map, List.map_flatMap, List.filterMap_flatMap]
  refine List.flatMap_congr fun k hk => ?_
  refine (hdone k hk).trans ?_
  rw [World.owed, hown k hk]
  cases hanswered : k.answered with
  | true => rw [List.filter_cons_of_pos hanswered, List.filter_nil, List.flatMap_singleton]
  | false =>
      rw [List.filter_cons_of_neg (by rw [hanswered]; decide), h.lost k hk hanswered]
      rfl

/-- A login or refresh row of session `S`. -/
def opensEntry (S : Uuid) (e : Entry) : Bool :=
  (e.1 = EventType.login.asStr || e.1 = EventType.refresh.asStr) && e.2 = some S

variable (st calls) in
/-- The sessions that refreshes presenting `S` inserted. -/
def World.successors (w : World) (S : Uuid) : List Uuid :=
  (w.rotations st calls S).flatMap Commit.inserted

variable (st calls) in
/-- A logout row of session `S`, or a refresh row of a session that replaced it. -/
def accountsEntry (w : World) (S : Uuid) (e : Entry) : Bool :=
  (e.1 = EventType.logout.asStr && e.2 = some S) ||
    (e.1 = EventType.refresh.asStr && e.2 ∈ (w.successors st calls S).map some)

theorem Ledger.inserted_nodup {db : Db} {w : World} (h : Ledger st calls db w) :
    (w.commits.flatMap Commit.inserted).Nodup := by
  have hn : (w.db.sessions.rows.map (·.id)).Nodup := w.db.sessions.nodup
  rw [h.ids] at hn
  exact (List.nodup_append.mp hn).2.1

theorem Ledger.inserted_unique {db : Db} {w : World} (h : Ledger st calls db w) {k k' : Commit}
    (hk : k ∈ w.commits) (hk' : k' ∈ w.commits) {id : Uuid} (hid : id ∈ k.inserted)
    (hid' : id ∈ k'.inserted) : k = k' := by
  by_contra hne
  obtain ⟨-, hpair⟩ := List.nodup_flatMap.mp h.inserted_nodup
  have hsymm : Std.Symm (Function.onFun List.Disjoint Commit.inserted) := ⟨fun _ _ hd => hd.symm⟩
  exact hpair.forall hk hk' hne hid hid'

theorem Ledger.countP_opens {db : Db} {w : World} (h : Ledger st calls db w) {S : Uuid}
    (hS : S ∈ w.commits.flatMap Commit.inserted) :
    (w.commits.flatMap (Commit.entries st calls)).countP (opensEntry S) = 1 := by
  have hentries : (w.commits.flatMap (Commit.entries st calls)).countP (opensEntry S) =
      w.commits.countP fun k => decide (S ∈ k.inserted) := by
    refine countP_flatMap_unit fun k hk => ?_
    cases h.recorded k hk with
    | opens hn he => simp [hn, he, opensEntry, eq_comm]
    | rotates hn he => simp [hn, he, opensEntry, eq_comm]
    | closes hn he => simp [hn, he, opensEntry, EventType.asStr]
    | reuses hn he => simp [hn, he]
  have hids : (w.commits.flatMap Commit.inserted).count S =
      w.commits.countP fun k => decide (S ∈ k.inserted) := by
    refine countP_flatMap_unit fun k hk => ?_
    have hone : ∀ id, k.inserted = [id] →
        k.inserted.countP (· == S) = if decide (S ∈ k.inserted) then 1 else 0 := by
      intro id hn
      by_cases hx : id = S
      · simp [hn, hx]
      · simp [hn, hx, Ne.symm hx]
    cases h.recorded k hk with
    | opens hn he => exact hone _ hn
    | rotates hn he => exact hone _ hn
    | closes hn he => simp [hn]
    | reuses hn he => simp [hn]
  rw [hentries, ← hids]
  exact List.count_eq_one_of_mem h.inserted_nodup hS

theorem Ledger.countP_accounts {db : Db} {w : World} (h : Ledger st calls db w) (S : Uuid) :
    (w.commits.flatMap (Commit.entries st calls)).countP (accountsEntry st calls w S) =
      w.retirements st calls S := by
  refine countP_flatMap_unit fun k hk => ?_
  cases h.recorded k hk with
  | opens hn he hr => simp [he, hr, accountsEntry, EventType.asStr]
  | reuses hn he hr => simp [he, hr]
  | closes hn he hr => simp [he, hr, accountsEntry, EventType.asStr]
  | @rotates id T hn he hp hr =>
      have hid : id ∈ k.inserted := hn ▸ List.mem_singleton_self id
      have hsucc : id ∈ w.successors st calls S ↔ T = S := by
        rw [World.successors, List.mem_flatMap]
        constructor
        · rintro ⟨k', hk', hid'⟩
          obtain ⟨hmem, -, hp'⟩ := mem_rotations.mp hk'
          rw [← h.inserted_unique hk hmem hid hid', hp] at hp'
          exact Option.some.inj hp'
        · rintro rfl
          refine ⟨k, mem_rotations.mpr ⟨hk, fun hnil => ?_, hp⟩, hid⟩
          rw [Commit.inserted, hnil] at hn
          cases hn
      simp [he, hr, accountsEntry, EventType.asStr, hsucc]

/-- **The audit trail accounts for every session**, in every run whose saves are safe and whose
publishes find room: once the channel is empty and every handler that has saved is done, each
inserted session has exactly one login or refresh row, and each session that went from active to
inactive has exactly one row that accounts for it. -/
theorem audit_accounts_for_sessions (st : AppState) (calls : Nat → Call) (allowed : Nat → Bool)
    (db : Db) (l : List (Label Fate Consume))
    (hl : machine.Along (auditSafe st calls) (handlers st calls allowed (.init db)) l)
    (hdone : ∀ k ∈ (machine.run (handlers st calls allowed (.init db)) l).shared.commits, ∃ r,
      (machine.run (handlers st calls allowed (.init db)) l).thread k.thread = .ret r)
    (hempty : (machine.run (handlers st calls allowed (.init db)) l).shared.bus.queue = []) :
    (∀ r ∈ (machine.run (handlers st calls allowed (.init db)) l).shared.db.sessions.rows,
      (∀ r₀ ∈ db.sessions.rows, r₀.id ≠ r.id) →
      (machine.run (handlers st calls allowed (.init db)) l).shared.userActions.countP
        (fun row => opensEntry r.id row.entry) = 1) ∧
    (∀ r ∈ (machine.run (handlers st calls allowed (.init db)) l).shared.db.sessions.rows,
      r.isActive = false → ¬ db.Inactive r.id →
      (machine.run (handlers st calls allowed (.init db)) l).shared.userActions.countP
        (fun row => accountsEntry st calls
          (machine.run (handlers st calls allowed (.init db)) l).shared r.id row.entry) = 1) := by
  have htrail := trail_run allowed db hl
  have hperm := htrail.entries_perm (fun k hk => by
    obtain ⟨r, hr⟩ := hdone k hk
    exact announced_run allowed db hl hr) hempty
  have hcount : ∀ p : Entry → Bool,
      (machine.run (handlers st calls allowed (.init db)) l).shared.userActions.countP
        (fun row => p row.entry) =
      ((machine.run (handlers st calls allowed (.init db)) l).shared.commits.flatMap
        (Commit.entries st calls)).countP p := by
    intro p
    rw [← hperm.countP_eq, List.countP_map]
    rfl
  refine ⟨fun r hr hnew => ?_, fun r hr hi hn => ?_⟩
  · rw [hcount]
    refine htrail.ledger.countP_opens ?_
    have hid := List.mem_map_of_mem (f := fun r : SessionRow => r.id) hr
    rw [htrail.ledger.ids, List.mem_append] at hid
    refine hid.resolve_left fun hold => ?_
    obtain ⟨r₀, hr₀, he⟩ := List.mem_map.mp hold
    exact hnew r₀ hr₀ he
  · rw [hcount, htrail.ledger.countP_accounts]
    exact htrail.ledger.inactive r hr hi hn

theorem Commit.safe_of_live {w : World} {k : Commit} (hanswered : k.answered = true)
    (hreuse : k.reuse st calls = false)
    (hlive : ∀ r ∈ w.db.sessions.rows, k.retires st calls = some r.id → r.isActive = true) :
    k.Safe st calls w where
  answered := fun h => absurd hanswered (by rw [h]; decide)
  live := fun S hS r hr hid => hlive r hr (by rw [hS, hid])
  reuse := fun h => absurd hreuse (by rw [h]; decide)

/-- A login, a refresh of session `7`, and a logout of the session that replaces it. -/
def auditedCalls : Nat → Call
  | 0 => ⟨plainEnv 9 5, .loginWithPassword "jdoe" [0]⟩
  | 1 => ⟨plainEnv 11 5, .refreshToken (plainToken 1 7)⟩
  | _ => ⟨plainEnv 12 6, .logout 1 11⟩

/-- The three handlers and the consumer take turns. -/
def auditedRun : List (Label Fate Consume) :=
  [.run 0 .done, .run 1 .done, .run 1 .done, .run 0 .done, .run 0 .done,
    .ext ⟨100, 9⟩, .run 2 .done,
    .run 2 .done, .run 1 .done, .run 2 .done, .ext ⟨101, 9⟩, .ext ⟨102, 9⟩]

theorem auditedRun_safe :
    machine.Along (auditSafe plainState auditedCalls)
      (handlers plainState auditedCalls (fun _ => true) (.init plainDb)) auditedRun := by
  have hroom : ∀ {w : World}, w.bus.queue.length ≤ 2 → w.bus.queue.length < eventBusCapacity :=
    fun h => h.trans_lt (by decide)
  refine ⟨⟨?_, fun _ _ _ => hroom (by decide)⟩, ⟨?_, fun _ _ _ => hroom (by decide)⟩,
    ⟨?_, fun _ _ _ => hroom (by decide)⟩, ⟨?_, fun _ _ _ => hroom (by decide)⟩,
    ⟨?_, fun _ _ _ => hroom (by decide)⟩, trivial, ⟨?_, fun _ _ _ => hroom (by decide)⟩,
    ⟨?_, fun _ _ _ => hroom (by decide)⟩, ⟨?_, fun _ _ _ => hroom (by decide)⟩,
    ⟨?_, fun _ _ _ => hroom (by decide)⟩, trivial, trivial, trivial⟩
  · rintro a news now k ⟨⟩
  · rintro a news now k ⟨⟩
  · rintro a news now k ⟨⟩
    exact Commit.safe_of_live rfl rfl (by decide)
  · rintro a news now k ⟨⟩
    exact Commit.safe_of_live rfl rfl (by decide)
  · rintro a news now k ⟨⟩
  · rintro a news now k ⟨⟩
  · rintro a news now k ⟨⟩
    exact Commit.safe_of_live rfl rfl (by decide)
  · rintro a news now k ⟨⟩
  · rintro a news now k ⟨⟩

theorem audit_accounts_for_sessions_jdoe :
    (machine.run (handlers plainState auditedCalls (fun _ => true)
      (.init plainDb)) auditedRun).shared.userActions.countP
        (fun row => opensEntry 9 row.entry) = 1 ∧
    (machine.run (handlers plainState auditedCalls (fun _ => true)
      (.init plainDb)) auditedRun).shared.userActions.countP
        (fun row => opensEntry 11 row.entry) = 1 ∧
    (machine.run (handlers plainState auditedCalls (fun _ => true)
      (.init plainDb)) auditedRun).shared.userActions.countP
        (fun row => accountsEntry plainState auditedCalls
        (machine.run (handlers plainState auditedCalls (fun _ => true)
          (.init plainDb)) auditedRun).shared 7 row.entry) = 1 ∧
    (machine.run (handlers plainState auditedCalls (fun _ => true)
      (.init plainDb)) auditedRun).shared.userActions.countP
        (fun row => accountsEntry plainState auditedCalls
        (machine.run (handlers plainState auditedCalls (fun _ => true)
          (.init plainDb)) auditedRun).shared 11 row.entry) = 1 := by
  have hthreads : ∀ k ∈ (machine.run (handlers plainState auditedCalls (fun _ => true)
      (.init plainDb)) auditedRun).shared.commits, k.thread = 0 ∨ k.thread = 1 ∨
      k.thread = 2 := by decide
  obtain ⟨hopens, hretired⟩ :=
    audit_accounts_for_sessions plainState auditedCalls (fun _ => true) plainDb
    auditedRun auditedRun_safe
    (fun k hk => by
      rcases hthreads k hk with h | h | h
      · exact ⟨_, by rw [h]; rfl⟩
      · exact ⟨_, by rw [h]; rfl⟩
      · exact ⟨_, by rw [h]; rfl⟩) rfl
  have hnine := hopens { plainSession 9 604800000000005 with createdAt := 5 }
    (by decide) (by decide)
  have heleven := hopens { plainSession 11 604800000000005 with isActive := false, createdAt := 5 }
    (by decide) (by decide)
  have hseven' := hretired { plainSession 7 1000 with isActive := false }
    (by decide) rfl (by decide)
  have heleven' :=
    hretired { plainSession 11 604800000000005 with isActive := false, createdAt := 5 }
    (by decide) rfl (by decide)
  exact ⟨hnine, heleven, hseven', heleven'⟩

/-- User `1` with a session that was rotated away and one that is live. -/
def reusedDb : Db where
  users := plainDb.users
  sessions := ⟨[{ plainSession 7 1000 with isActive := false }, plainSession 8 1000], by decide⟩

/-- The token of the rotated session is presented: session `8` is retired, the handler is done, the
channel is empty, and no row accounts for it. -/
theorem audit_misses_reuse :
    ∃ l : List (Label Fate Consume),
      (∃ r, (machine.run (handlers plainState refreshSeven (fun _ => true) (.init reusedDb))
        l).thread 0 = .ret r) ∧
      (machine.run (handlers plainState refreshSeven (fun _ => true) (.init reusedDb))
        l).shared.bus.queue = [] ∧
      ¬ reusedDb.Inactive 8 ∧
      (machine.run (handlers plainState refreshSeven (fun _ => true) (.init reusedDb))
        l).shared.db.Inactive 8 ∧
      (machine.run (handlers plainState refreshSeven (fun _ => true) (.init reusedDb))
        l).shared.userActions.countP
        (fun row => accountsEntry plainState refreshSeven
          (machine.run (handlers plainState refreshSeven (fun _ => true) (.init reusedDb))
            l).shared 8 row.entry) = 0 :=
  ⟨[.run 0 .done, .run 0 .done], ⟨_, rfl⟩, rfl, by decide, by decide, by decide⟩

end Audit

end AppHome
