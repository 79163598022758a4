import AppHome.Auth.SingleUse
import AppHome.Auth.Ownership

/-!
# What each save means for the audit trail

A committed save opens a session, rotates one, closes one, or answers a reused token.
`Commit.Recorded` says for each which session it inserts, which one it retires, and the audit entry
its handler will publish for it; the last kind publishes nothing. `Commit.Marks` says which rows the
save makes inactive.

`Ledger` relates the session rows to the history of saves. It is kept by every save of which each
retired session is still active and that is not an answer to a reused token with sessions left to
retire. `Commit.Safe` asks for this, and that the answer of a save with an entry to publish is not
lost.
-/

namespace AppHome

open Interleave

/-- What the audit trail says about a session: the event type and the session id. -/
abbrev Entry := String × Option Uuid

def UserActionRow.entry (r : UserActionRow) : Entry := (r.eventType, r.sessionId)

/-- The entry of the row an event becomes. -/
def Event.entry : Event → Option Entry
  | .userLoggedIn _ s _ => some (EventType.login.asStr, some s)
  | .userLoggedOut _ s _ => some (EventType.logout.asStr, some s)
  | .sessionRefreshed _ s _ => some (EventType.refresh.asStr, some s)
  | .userCreated _ _ => none

theorem AuditEventHandler.handle_entry (id : Uuid) (now : Instant) (e : Event) :
    (AuditEventHandler.handle id now e).map UserActionRow.entry = e.entry := by
  cases e <;> rfl

section Ledger
variable (st : AppState) (calls : Nat → Call)

/-- The session a request is about to retire. -/
def Call.target (c : Call) : Option Uuid :=
  match c.request with
  | .refreshToken _ => c.presents st
  | .logout _ sessionId => some sessionId
  | _ => none

/-- A save by which a refresh answered a reused token. -/
def Commit.reuse (k : Commit) : Bool :=
  ((calls k.thread).presents st).isSome && k.newSessions.isEmpty

def Commit.retires (k : Commit) : Option Uuid :=
  if k.reuse st calls then none else (calls k.thread).target st

/-- The entries the handler publishes for a save. After a reused token it publishes none. -/
def Commit.entries (k : Commit) : List Entry :=
  if k.reuse st calls then [] else k.aggregate.pendingEvents.filterMap Event.entry

def Commit.inserted (k : Commit) : List Uuid := k.newSessions.map (·.id)

inductive Commit.Recorded (k : Commit) : Prop
  | opens {id : Uuid} (hn : k.inserted = [id])
      (he : k.entries st calls = [(EventType.login.asStr, some id)])
      (hr : k.retires st calls = none)
  | rotates {id S : Uuid} (hn : k.inserted = [id])
      (he : k.entries st calls = [(EventType.refresh.asStr, some id)])
      (hp : (calls k.thread).presents st = some S) (hr : k.retires st calls = some S)
  | closes {S : Uuid} (hn : k.inserted = [])
    (he : k.entries st calls = [(EventType.logout.asStr, some S)])
      (hr : k.retires st calls = some S)
  | reuses (hn : k.inserted = []) (he : k.entries st calls = []) (hr : k.retires st calls = none)

/-- The rows a save makes inactive. -/
structure Commit.Marks (w : World) (k : Commit) : Prop where
  rows : ∀ id ∈ Db.invalidatedIds k.aggregate, ∃ r ∈ w.db.sessions.rows, r.id = id
  target : ∀ S, k.retires st calls = some S → S ∈ Db.invalidatedIds k.aggregate
  only : k.reuse st calls = false → ∀ r ∈ w.db.sessions.rows, r.isActive = true →
    r.id ∈ Db.invalidatedIds k.aggregate → k.retires st calls = some r.id

/-- The sessions a save retires are still active, an answer to a reused token finds none left, and a
save whose answer is lost has nothing to publish. -/
structure Commit.Safe (w : World) (k : Commit) : Prop where
  answered : k.answered = false → k.entries st calls = []
  live : ∀ S, k.retires st calls = some S → ∀ r ∈ w.db.sessions.rows, r.id = S → r.isActive = true
  reuse : k.reuse st calls = true → ∀ r ∈ w.db.sessions.rows, r.id ∈ Db.invalidatedIds k.aggregate →
    r.isActive = false

/-! ## Decisions -/

section Decisions
variable {st calls} {i : Nat} {a : UserAggregate} {p : Plan Response} {answered : Bool}

theorem Call.presents_logout {c : Call} {u S : Uuid} (hr : c.request = .logout u S) :
    c.presents st = none := by
  simp [Call.presents, Call.claims, hr]

theorem Call.Opens.target {c : Call} {tokens : TokenPair} {m : AuthMethod} {r : Response}
    (h : c.Opens a tokens m r) : c.target st = none := by
  cases h with
  | password hr => simp [Call.target, hr]
  | google b hr => simp [Call.target, hr]

theorem Call.target_refresh {c : Call} {token : Bytes} (hr : c.request = .refreshToken token) :
    c.target st = c.presents st := by
  simp [Call.target, hr]

theorem Call.Decides.recorded (hdec : (calls i).Decides st a p) (hnew : a.pendingEvents = []) :
    Commit.Recorded st calls ⟨i, p.aggregate, p.newSessions, answered⟩ := by
  cases hdec with
  | opens hm hcap ho =>
      refine .opens rfl ?_ ?_
      · simp [Commit.entries, Commit.reuse, UserAggregate.push, hnew, Event.entry, Call.newSession]
      · simp [Commit.retires, Commit.reuse, ho.target]
  | rotates hr hv =>
      have hp := Call.presents_eq_some.mpr ⟨_, hv, rfl⟩
      refine .rotates rfl ?_ hp ?_
      · simp [Commit.entries, Commit.reuse, UserAggregate.retired, UserAggregate.push,
          hnew, Event.entry, Call.newSession]
      · simp [Commit.retires, Commit.reuse, Call.target_refresh hr, hp]
  | reuses hr hv =>
      have hp := Call.presents_eq_some.mpr ⟨_, hv, rfl⟩
      refine .reuses rfl ?_ ?_
      · simp [Commit.entries, Commit.reuse, hp]
      · simp [Commit.retires, Commit.reuse, hp]
  | @closes S s hr =>
      refine .closes (S := S) rfl ?_ ?_
      · simp [Commit.entries, Commit.reuse, Call.presents_logout hr, UserAggregate.retired,
          UserAggregate.push, hnew, Event.entry]
      · simp [Commit.retires, Commit.reuse, Call.presents_logout hr, Call.target, hr]

/-- An `Ok` answer carries the entries of its save, and an error has none to publish. -/
theorem Call.Decides.answer_entries (hdec : (calls i).Decides st a p) :
    (∀ resp, p.answer = .ok resp → resp.events.filterMap Event.entry =
      Commit.entries st calls ⟨i, p.aggregate, p.newSessions, answered⟩) ∧
    (∀ e, p.answer = .error e →
      Commit.entries st calls ⟨i, p.aggregate, p.newSessions, answered⟩ = []) := by
  refine ⟨fun resp hr => ?_, fun e hr => ?_⟩
  · cases hdec with
    | opens hm hcap ho =>
        cases hr
        cases ho with
        | password => simp [Commit.entries, Commit.reuse, Response.events, passwordAnswer]
        | google isNewUser =>
            simp only [Commit.entries, Commit.reuse, Response.events, googleAnswer,
              List.isEmpty_cons, Bool.and_false, Bool.false_eq_true, if_false]
            split
            · rw [List.filterMap_cons_none rfl]
            · rfl
    | rotates =>
        cases hr
        simp [Commit.entries, Commit.reuse, Response.events, refreshAnswer]
    | reuses => cases hr
    | closes hr' =>
        cases hr
        simp [Commit.entries, Commit.reuse, Call.presents_logout hr', Response.events]
  · cases hdec with
    | reuses hr' hv =>
        simp [Commit.entries, Commit.reuse, Call.presents_eq_some.mpr ⟨_, hv, rfl⟩]
    | opens => cases hr
    | rotates => cases hr
    | closes => cases hr

/-- A session found inactive when the aggregate was loaded is an inactive row from then on. -/
theorem Db.Loads.inactive_later {w₀ w : World} (hload : w₀.db.Loads a) (hle : w₀.Le w) {s : Session}
    (hs : s ∈ a.sessions) (hi : s.isActive = false) : w.db.Inactive s.id := by
  obtain ⟨r, hr, -, hd⟩ := hload.row_of_mem hs
  obtain ⟨hid, -, -, -, hact, -⟩ := SessionRow.intoSession_ok hd
  exact hle.db.inactive ⟨r, hr, hid.symm, by rw [← hact, hi]⟩

theorem Db.Loads.row_later {w₀ w : World} (hload : w₀.db.Loads a) (hle : w₀.Le w) {s : Session}
    (hs : s ∈ a.sessions) : ∃ r ∈ w.db.sessions.rows, r.id = s.id := by
  obtain ⟨r, hr, -, hd⟩ := hload.row_of_mem hs
  obtain ⟨r', hr', hrle⟩ := hle.db.sessions r hr
  exact ⟨r', hr', by rw [hrle.id, (SessionRow.intoSession_ok hd).1]⟩

theorem Db.Inactive.not_active {db : Db} {r : SessionRow} (h : db.Inactive r.id)
    (hr : r ∈ db.sessions.rows) (hact : r.isActive = true) : False := by
  obtain ⟨r', hr', hid, hi⟩ := h
  rw [Table.eq_of_key hr' hr hid, hact] at hi
  cases hi

/-- What is left active of a retired aggregate's marks is its target. -/
theorem mem_retired_ids {S : Uuid} {e : Event} {id : Uuid}
    (h : id ∈ Db.invalidatedIds (a.retired S e)) :
    id = S ∨ ∃ s ∈ a.sessions, s.id = id ∧ s.isActive = false := by
  obtain ⟨s, hs, hid, hi⟩ := Db.mem_invalidatedIds.mp h
  rcases UserAggregate.mem_invalidateFirst hs with hs | ⟨hS, -, -⟩
  · exact Or.inr ⟨s, hs, hid, hi⟩
  · exact Or.inl (hid.symm.trans hS)

theorem Call.Decides.marks (hdec : (calls i).Decides st a p) {w₀ w : World} (hload : w₀.db.Loads a)
    (hle : w₀.Le w) : Commit.Marks st calls w ⟨i, p.aggregate, p.newSessions, answered⟩ where
  rows := by
    intro id hid
    obtain ⟨s, hs, rfl, -⟩ := Db.mem_invalidatedIds.mp hid
    obtain ⟨t, ht, htid⟩ := hdec.session_loaded hs
    rw [← htid]
    exact hload.row_later hle ht
  target := by
    intro S hS
    cases hdec with
    | opens hm hcap ho => simp [Commit.retires, Commit.reuse, ho.target] at hS
    | reuses hr hv =>
        simp [Commit.retires, Commit.reuse, Call.presents_eq_some.mpr ⟨_, hv, rfl⟩] at hS
    | rotates hr hv hu hm hs =>
        simp only [Commit.retires, Commit.reuse, Call.target_refresh hr,
          Call.presents_eq_some.mpr ⟨_, hv, rfl⟩] at hS
        cases hS
        exact Db.mem_invalidatedIds_retired hs
    | closes hr hs =>
        simp only [Commit.retires, Commit.reuse, Call.presents_logout hr, Call.target, hr] at hS
        cases hS
        exact Db.mem_invalidatedIds_retired hs
  only := by
    intro hreuse r hr hact hid
    -- whatever was loaded inactive is not an active row now
    have hloaded : ¬ ∃ s ∈ a.sessions, s.id = r.id ∧ s.isActive = false := by
      rintro ⟨s, hs, hsid, hi⟩
      exact (hsid ▸ hload.inactive_later hle hs hi).not_active hr hact
    cases hdec with
    | opens hm hcap ho => exact absurd (Db.mem_invalidatedIds.mp hid) hloaded
    | reuses hr' hv =>
        simp [Commit.reuse, Call.presents_eq_some.mpr ⟨_, hv, rfl⟩] at hreuse
    | rotates hr' hv hu hm hs =>
        rw [(mem_retired_ids hid).resolve_right hloaded]
        simp [Commit.retires, Commit.reuse, Call.target_refresh hr',
          Call.presents_eq_some.mpr ⟨_, hv, rfl⟩]
    | closes hr' hs =>
        rw [(mem_retired_ids hid).resolve_right hloaded]
        simp [Commit.retires, Commit.reuse, Call.presents_logout hr', Call.target, hr']

end Decisions

/-! ## The rows and the history -/

/-- How many saves retired `S`. -/
def World.retirements (w : World) (S : Uuid) : Nat :=
  w.commits.countP fun k => k.retires st calls = some S

structure Ledger (db : Db) (w : World) : Prop where
  le : db.Le w.db
  ids : w.db.sessions.rows.map (·.id) = db.sessions.rows.map (·.id) ++
    w.commits.flatMap Commit.inserted
  recorded : ∀ k ∈ w.commits, k.Recorded st calls
  rows : ∀ k ∈ w.commits, ∀ S, k.retires st calls = some S → ∃ r ∈ w.db.sessions.rows, r.id = S
  active : ∀ r ∈ w.db.sessions.rows, r.isActive = true → w.retirements st calls r.id = 0
  inactive : ∀ r ∈ w.db.sessions.rows, r.isActive = false → ¬ db.Inactive r.id →
    w.retirements st calls r.id = 1

variable {st calls}

theorem ledger_init (db : Db) : Ledger st calls db (.init db) where
  le := .refl db
  ids := (List.append_nil _).symm
  recorded := fun _ h => by cases h
  rows := fun _ h => by cases h
  active := fun _ _ _ => rfl
  inactive := fun r hr hi hn => absurd ⟨r, hr, rfl, hi⟩ hn

section Commit
variable {db : Db} {w : World} {i : Nat} {a : UserAggregate} {news : List NewSession}
  {answered : Bool} {now : Nat → Instant} {db' : Db}

theorem retirements_commit (S : Uuid) :
    World.retirements st calls { w with db := db', commits :=
      w.commits ++ [⟨i, a, news, answered⟩] } S =
      w.retirements st calls S + if Commit.retires st calls ⟨i, a, news, answered⟩ = some S then
        1 else 0 := by
  unfold World.retirements
  rw [List.countP_append, List.countP_singleton]
  simp

theorem map_id_newRows (news : List NewSession) (now : Nat → Instant) :
    (newRows news.zipIdx now).map (·.id) = news.map (·.id) := by
  have hfst : news.map (·.id) = (news.zipIdx.map Prod.fst).map (·.id) := by
    rw [List.zipIdx_map_fst]
  rw [hfst, newRows, List.map_map, List.map_map]
  rfl

theorem map_id_save (hdb : w.db.saveAggregate a news now = .ok db') :
    db'.sessions.rows.map (·.id) = w.db.sessions.rows.map (·.id) ++ news.map (·.id) := by
  have hid : (fun r : SessionRow => r.id) ∘ SessionRow.retire (Db.invalidatedIds a) =
      fun r => r.id := by
    funext r
    exact SessionRow.retire_id _ r
  rw [(Db.saveAggregate_ok hdb).2, List.map_map, hid, List.map_append, map_id_newRows]

theorem fresh_of_newRow (hdb : w.db.saveAggregate a news now = .ok db') {r r₀ : SessionRow}
    (hr : r ∈ newRows news.zipIdx now) (hr₀ : r₀ ∈ w.db.sessions.rows) : r₀.id ≠ r.id := by
  have hnodup : (db'.sessions.rows.map (·.id)).Nodup := db'.sessions.nodup
  rw [map_id_save hdb] at hnodup
  have hnew : r.id ∈ news.map (·.id) := by
    rw [← map_id_newRows news now]
    exact List.mem_map_of_mem hr
  exact (List.nodup_append.mp hnodup).2.2 _ (List.mem_map_of_mem hr₀) _ hnew

theorem Ledger.retirements_fresh (h : Ledger st calls db w) {S : Uuid}
    (hS : ∀ r ∈ w.db.sessions.rows, r.id ≠ S) : w.retirements st calls S = 0 := by
  refine List.countP_eq_zero.mpr fun k hk hr => ?_
  obtain ⟨r, hr', hid⟩ := h.rows k hk S (of_decide_eq_true hr)
  exact hS r hr' hid

theorem mem_rows_save (hdb : w.db.saveAggregate a news now = .ok db') {r' : SessionRow}
    (hr' : r' ∈ db'.sessions.rows) :
    ∃ r, r' = r.retire (Db.invalidatedIds a) ∧
      (r ∈ w.db.sessions.rows ∨
        r.isActive = true ∧ ∀ r₀ ∈ w.db.sessions.rows, r₀.id ≠ r.id) := by
  rw [(Db.saveAggregate_ok hdb).2] at hr'
  obtain ⟨r, hr, rfl⟩ := List.mem_map.mp hr'
  refine ⟨r, rfl, ?_⟩
  rcases List.mem_append.mp hr with hr | hr
  · exact Or.inl hr
  · refine Or.inr ⟨?_, fun r₀ hr₀ => fresh_of_newRow hdb hr hr₀⟩
    obtain ⟨p, -, rfl⟩ := List.mem_map.mp hr
    rfl

/-- A row that is inactive after the save was retired once: before it, or by it. -/
theorem Ledger.commit_inactive (h : Ledger st calls db w)
    (hdb : w.db.saveAggregate a news now = .ok db')
    (hmarks : Commit.Marks st calls w ⟨i, a, news, answered⟩)
    (hsafe : Commit.Safe st calls w ⟨i, a, news, answered⟩) {r' : SessionRow}
    (hr' : r' ∈ db'.sessions.rows) (hi : r'.isActive = false) (hn : ¬ db.Inactive r'.id) :
    ({ w with db := db', commits := w.commits ++ [⟨i, a, news, answered⟩] } :
      World).retirements st calls r'.id = 1 := by
  obtain ⟨r, rfl, hr⟩ := mem_rows_save hdb hr'
  rw [SessionRow.retire_id] at hn
  rw [retirements_commit, SessionRow.retire_id]
  have hmarked : r.isActive = true → r.id ∈ Db.invalidatedIds a := by
    intro hact
    by_contra hid
    rw [SessionRow.retire_active.mpr ⟨hact, hid⟩] at hi
    cases hi
  rcases hr with hr | ⟨hact, hfresh⟩
  · cases hact : r.isActive with
    | false =>
        rw [h.inactive r hr hact hn, if_neg]
        intro hS
        rw [hsafe.live r.id hS r hr rfl] at hact
        cases hact
    | true =>
        have hreuse : Commit.reuse st calls ⟨i, a, news, answered⟩ = false := by
          by_contra hreuse
          rw [hsafe.reuse (by simpa using hreuse) r hr (hmarked hact)] at hact
          cases hact
        rw [h.active r hr hact, if_pos (hmarks.only hreuse r hr hact (hmarked hact))]
  · obtain ⟨r₀, hr₀, hid⟩ := hmarks.rows r.id (hmarked hact)
    exact absurd hid (hfresh r₀ hr₀)

/-- **A safe save keeps the ledger.** -/
theorem Ledger.commit (h : Ledger st calls db w) (hdb : w.db.saveAggregate a news now = .ok db')
    (hrec : Commit.Recorded st calls ⟨i, a, news, answered⟩)
    (hmarks : Commit.Marks st calls w ⟨i, a, news, answered⟩)
    (hsafe : Commit.Safe st calls w ⟨i, a, news, answered⟩) :
    Ledger st calls db { w with db := db', commits := w.commits ++ [⟨i, a, news, answered⟩] } where
  le := h.le.trans (Db.saveAggregate_le hdb)
  ids := by
    rw [map_id_save hdb, h.ids, List.flatMap_append, List.append_assoc]
    simp [Commit.inserted]
  recorded := by
    intro k hk
    rcases List.mem_append.mp hk with hk | hk
    · exact h.recorded k hk
    · rw [List.mem_singleton.mp hk]
      exact hrec
  rows := by
    intro k hk S hS
    have hrow : ∃ r ∈ w.db.sessions.rows, r.id = S := by
      rcases List.mem_append.mp hk with hk | hk
      · exact h.rows k hk S hS
      · rw [List.mem_singleton.mp hk] at hS
        exact hmarks.rows S (hmarks.target S hS)
    obtain ⟨r, hr, rfl⟩ := hrow
    obtain ⟨r', hr', hle⟩ := (Db.saveAggregate_le hdb).sessions r hr
    exact ⟨r', hr', hle.id⟩
  active := by
    intro r' hr' hact
    obtain ⟨r, rfl, hr⟩ := mem_rows_save hdb hr'
    obtain ⟨hact, hid⟩ := SessionRow.retire_active.mp hact
    rw [retirements_commit, SessionRow.retire_id,
      if_neg fun hS => hid (hmarks.target r.id hS)]
    rcases hr with hr | ⟨-, hfresh⟩
    · exact h.active r hr hact
    · exact h.retirements_fresh hfresh
  inactive := fun _ hr' hi hn => h.commit_inactive hdb hmarks hsafe hr' hi hn

end Commit

end Ledger

end AppHome
