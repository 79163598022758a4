import AppHome.Auth.Postgres
import AppHome.Auth.UseCases

/-!
# The shared state the requests run on

* `EventBus` : the broadcast channel as its one receiver sees it, with the count of events that were
  overwritten before it read them;
* `AuditEventHandler.handle` : the `user_actions` row an event becomes;
* `World` : the database, the bus, the audit table and, as history variables, the save transactions
  that committed and the events that were published, each with its thread;
* `machine` : each repository operation is one step. Storage may fail it, before or after it took
  effect. The environment's own move is one iteration of the audit consumer loop;
* `World.exec_rule` : everything an operation can do to the state, and `World.Le` : how it changes
  along any step (`exec_le`, `consume_le`).
-/

namespace AppHome

open Interleave

/-! ## The event bus and its consumer -/

/-- `EventBus::new(256)` in `main`. -/
def eventBusCapacity : Nat := 256

structure EventBus where
  queue : List Event
  lagged : Nat

/-- A send into a full channel overwrites the oldest unread event. -/
def EventBus.publish (b : EventBus) (e : Event) : EventBus :=
  if b.queue.length < eventBusCapacity then { b with queue := b.queue ++ [e] }
  else ⟨b.queue.tail ++ [e], b.lagged + 1⟩

inductive Received where
  | event (e : Event)
  | lagged (n : Nat)
  | nothing

/-- `event_rx.recv()`: a receiver that fell behind is told so once, then goes on with
what is left. -/
def EventBus.recv (b : EventBus) : Received × EventBus :=
  if b.lagged ≠ 0 then (.lagged b.lagged, { b with lagged := 0 })
  else
    match b.queue with
    | [] => (.nothing, b)
    | e :: queue => (.event e, { b with queue })

structure UserActionRow where
  id : Uuid
  userId : Uuid
  sessionId : Option Uuid
  eventType : String
  authMethod : String
  createdAt : Instant
  deriving DecidableEq

/-- `AuditEventHandler::handle`, whose insert draws an id and reads the clock. -/
def AuditEventHandler.handle (id : Uuid) (now : Instant) : Event → Option UserActionRow
  | .userLoggedIn u s m => some ⟨id, u, some s, EventType.login.asStr, m.asStr, now⟩
  | .userLoggedOut u s m => some ⟨id, u, some s, EventType.logout.asStr, m.asStr, now⟩
  | .sessionRefreshed u s m => some ⟨id, u, some s, EventType.refresh.asStr, m.asStr, now⟩
  | .userCreated _ _ => none

/-! ## The state and its operations -/

/-- A save transaction that committed, the thread that made it, and whether it was told so. -/
structure Commit where
  thread : Nat
  aggregate : UserAggregate
  newSessions : List NewSession
  answered : Bool

structure World where
  db : Db
  bus : EventBus
  userActions : List UserActionRow
  commits : List Commit
  published : List (Nat × Event)

/-- Nothing published, nothing recorded. -/
def World.init (db : Db) : World := ⟨db, ⟨[], 0⟩, [], [], []⟩

/-- One iteration of the audit consumer loop. -/
structure Consume where
  id : Uuid
  now : Instant

/-- What becomes of a statement. -/
inductive Fate where
  | done
  | failed (e : String)
  | failedApplied (e : String)

/-- The answer of a statement, unless storage fails. -/
def orFail {α : Type} (f : Fate) (answer : Except AuthError α) : Except AuthError α :=
  match f with
  | .done => answer
  | .failed e => .error (.internalError e)
  | .failedApplied e => .error (.internalError e)

theorem orFail_ok {α : Type} {f : Fate} {answer : Except AuthError α} {x : α}
    (h : orFail f answer = .ok x) : answer = .ok x := by
  cases f with
  | done => exact h
  | failed e => cases h
  | failedApplied e => cases h

/-- The state after a statement that would lead to `new`. -/
def Fate.leave (f : Fate) (w : World) (new : Option World) : World :=
  match f with
  | .failed _ => w
  | _ => new.getD w

def Fate.answers : Fate → Bool
  | .failedApplied _ => false
  | _ => true

def World.exec (w : World) (i : Nat) (o : Op) (f : Fate) : Res o × World :=
  match o with
  | .findAggregateById id => (orFail f (w.db.findAggregateById id), w)
  | .findAggregateByUsername username => (orFail f (w.db.findAggregateByUsername username), w)
  | .findAggregateByEmail email => (orFail f (w.db.findAggregateByEmail email), w)
  | .create user id now =>
    let r := w.db.create user id now
    (orFail f (r.map (·.1)), f.leave w (r.toOption.map fun p => { w with db := p.2 }))
  | .saveAggregate a news now =>
    let r := w.db.saveAggregate a news now
    (orFail f (r.map fun _ => ()), f.leave w (r.toOption.map fun db =>
      { w with db, commits := w.commits ++ [⟨i, a, news, f.answers⟩] }))
  | .publish e => ((), { w with bus := w.bus.publish e, published := w.published ++ [(i, e)] })

def World.consume (w : World) (c : Consume) : World :=
  match w.bus.recv with
  | (.event e, bus) =>
    { w with bus, userActions := w.userActions ++ (AuditEventHandler.handle c.id c.now e).toList }
  | (_, bus) => { w with bus }

def machine : Machine World Op Res Fate Consume := ⟨World.exec, World.consume⟩

/-! ## How the state may change -/

structure World.Le (w w' : World) : Prop where
  db : w.db.Le w'.db
  commits : w.commits <+: w'.commits

theorem World.Le.refl (w : World) : w.Le w := ⟨.refl _, List.prefix_refl _⟩

theorem World.Le.trans {w w' w'' : World} (h : w.Le w') (h' : w'.Le w'') : w.Le w'' :=
  ⟨h.db.trans h'.db, h.commits.trans h'.commits⟩

theorem World.consume_db (w : World) (c : Consume) : (w.consume c).db = w.db := by
  unfold World.consume
  split <;> rfl

theorem World.consume_commits (w : World) (c : Consume) : (w.consume c).commits = w.commits := by
  unfold World.consume
  split <;> rfl

theorem World.consume_le (w : World) (c : Consume) : w.Le (w.consume c) := by
  refine ⟨?_, ?_⟩
  · rw [w.consume_db]
    exact .refl _
  · rw [w.consume_commits]

/-- A save leaves the state alone, or commits and says so, or commits and its answer is lost. -/
theorem World.exec_saveAggregate (w : World) (i : Nat) (a : UserAggregate) (news : List NewSession)
    (now : Nat → Instant) (f : Fate) :
    (∃ e, w.exec i (.saveAggregate a news now) f = (.error e, w)) ∨
    (∃ db, w.db.saveAggregate a news now = .ok db ∧
      ((f = .done ∧ w.exec i (.saveAggregate a news now) f =
        (.ok (), { w with db, commits := w.commits ++ [⟨i, a, news, true⟩] })) ∨
      ∃ e, f = .failedApplied e ∧ w.exec i (.saveAggregate a news now) f =
        (.error (.internalError e),
          { w with db, commits := w.commits ++ [⟨i, a, news, false⟩] }))) := by
  cases f with
  | failed e => exact Or.inl ⟨.internalError e, rfl⟩
  | done =>
      cases h : w.db.saveAggregate a news now with
      | error e =>
          refine Or.inl ⟨e, ?_⟩
          simp only [World.exec, h]
          rfl
      | ok db =>
          refine Or.inr ⟨db, rfl, Or.inl ⟨rfl, ?_⟩⟩
          simp only [World.exec, h]
          rfl
  | failedApplied e =>
      cases h : w.db.saveAggregate a news now with
      | error e' =>
          refine Or.inl ⟨.internalError e, ?_⟩
          simp only [World.exec, h]
          rfl
      | ok db =>
          refine Or.inr ⟨db, rfl, Or.inr ⟨e, rfl, ?_⟩⟩
          simp only [World.exec, h]
          rfl

theorem World.exec_create (w : World) (i : Nat) (u : NewUser) (id : Uuid) (now : Instant)
    (f : Fate) :
    (∃ e, w.exec i (.create u id now) f = (.error e, w)) ∨
    (∃ user db, w.db.create u id now = .ok (user, db) ∧
      ((f = .done ∧ w.exec i (.create u id now) f = (.ok user, { w with db })) ∨
      ∃ e, f = .failedApplied e ∧
        w.exec i (.create u id now) f = (.error (.internalError e), { w with db }))) := by
  cases f with
  | failed e => exact Or.inl ⟨.internalError e, rfl⟩
  | done =>
      cases h : w.db.create u id now with
      | error e =>
          refine Or.inl ⟨e, ?_⟩
          simp only [World.exec, h]
          rfl
      | ok p =>
          refine Or.inr ⟨p.1, p.2, rfl, Or.inl ⟨rfl, ?_⟩⟩
          simp only [World.exec, h]
          rfl
  | failedApplied e =>
      cases h : w.db.create u id now with
      | error e' =>
          refine Or.inl ⟨.internalError e, ?_⟩
          simp only [World.exec, h]
          rfl
      | ok p =>
          refine Or.inr ⟨p.1, p.2, rfl, Or.inr ⟨e, rfl, ?_⟩⟩
          simp only [World.exec, h]
          rfl

/-- **Everything an operation can do to the state**: nothing, publish an event, or commit a new user
or a save. -/
theorem World.exec_rule {w : World} {i : Nat} {o : Op} {P : World → Prop} (f : Fate) (hstay : P w)
    (hpublish : ∀ e, o = .publish e →
      P { w with bus := w.bus.publish e, published := w.published ++ [(i, e)] })
    (hcreate : ∀ u id now user db, o = .create u id now → w.db.create u id now = .ok (user, db) →
      P { w with db })
    (hsave : ∀ a news now db, o = .saveAggregate a news now →
      w.db.saveAggregate a news now = .ok db →
      P { w with db, commits := w.commits ++ [⟨i, a, news, f.answers⟩] }) : P (w.exec i o f).2 := by
  cases o with
  | findAggregateById id => exact hstay
  | findAggregateByUsername username => exact hstay
  | findAggregateByEmail email => exact hstay
  | publish e => exact hpublish e rfl
  | create u id now =>
      rcases w.exec_create i u id now f with ⟨e, h⟩ | ⟨user, db, hdb, ⟨-, h⟩ | ⟨e, -, h⟩⟩
      · rw [h]
        exact hstay
      · rw [h]
        exact hcreate u id now user db rfl hdb
      · rw [h]
        exact hcreate u id now user db rfl hdb
  | saveAggregate a news now =>
      rcases w.exec_saveAggregate i a news now f with ⟨e, h⟩ | ⟨db, hdb, ⟨rfl, h⟩ | ⟨e, rfl, h⟩⟩
      · rw [h]
        exact hstay
      · rw [h]
        exact hsave a news now db rfl hdb
      · rw [h]
        exact hsave a news now db rfl hdb

theorem World.exec_le (w : World) (i : Nat) (o : Op) (f : Fate) : w.Le (w.exec i o f).2 := by
  refine World.exec_rule f (.refl w) ?_ ?_ ?_
  · exact fun e _ => ⟨.refl _, List.prefix_refl _⟩
  · exact fun u id now user db _ hdb => ⟨Db.create_le hdb, List.prefix_refl _⟩
  · exact fun a news now db _ hdb => ⟨Db.saveAggregate_le hdb, List.prefix_append _ _⟩

/-- Whatever the requests promise about their operations, the state changes along `World.Le`. -/
def sharedContract (guar : Nat → World → Op → Prop) : Contract World Op := ⟨fun _ => World.Le, guar⟩

/-- Nothing is promised. -/
def freeContract : Contract World Op := sharedContract fun _ _ _ => True

theorem sharedContract_sound (guar : Nat → World → Op → Prop) :
    (sharedContract guar).Sound machine :=
  ⟨fun _ => .refl, .trans, fun {_ j s o} f _ _ => s.exec_le j o f⟩

end AppHome
