import Mathlib

/-!
# The value objects and events of the `shared` crate

Identifiers, clock readings, the enumerations with the text form they have in the database, the
checked strings (`Email`, `HashedPassword`: an unchecked value cannot be built), and the domain
events with the accessors the use cases read them through.

A clock reading is a number of nanoseconds on one common time line, so the wall clock and the
monotonic clock are the same clock here.
-/

namespace AppHome

abbrev Uuid := BitVec 128

abbrev Bytes := List UInt8

/-- A clock reading, in nanoseconds since the Unix epoch. -/
abbrev Instant := Int

def nanosPerSec : Int := 1000000000

/-- `timestamp()`: the whole seconds of a reading. -/
def timestamp (t : Instant) : Int := t / nanosPerSec

/-- `Duration::from_secs`. -/
def ofSecs (n : Int) : Int := n * nanosPerSec

/-- `now.duration_since(earlier)`, which saturates at zero. -/
def durationSince (now earlier : Instant) : Int := max 0 (now - earlier)

theorem ofSecs_pos {n : Nat} (h : n ≠ 0) : 0 < ofSecs n := by
  unfold ofSecs nanosPerSec
  omega

theorem readings_cons {α : Type} {first last : α → Instant} {c : α} {calls : List α}
    (h : ((c :: calls).flatMap fun c => [first c, last c]).Pairwise (· ≤ ·)) :
    first c ≤ last c ∧ (∀ d ∈ calls, last c ≤ first d) ∧
      (calls.flatMap fun c => [first c, last c]).Pairwise (· ≤ ·) := by
  rw [List.flatMap_cons, List.cons_append, List.cons_append, List.nil_append, List.pairwise_cons,
    List.pairwise_cons] at h
  refine ⟨h.1 (last c) List.mem_cons_self, fun d hd => h.2.1 _ ?_, h.2.2⟩
  exact List.mem_flatMap.mpr ⟨d, hd, List.mem_cons_self⟩

/-- Some time lies before all the readings. -/
theorem exists_start {α : Type} (reading : α → Instant) (calls : List α) :
    ∃ start, ∀ c ∈ calls, start ≤ reading c := by
  obtain ⟨start, hstart⟩ := (calls.map reading).toFinset.bddBelow
  exact ⟨start, fun c hc => hstart (List.mem_toFinset.mpr (List.mem_map_of_mem hc))⟩

/-! ## Enumerations -/

inductive AuthMethod where
  | password
  | googleOAuth
  deriving DecidableEq, Repr

def AuthMethod.asStr : AuthMethod → String
  | .password => "password"
  | .googleOAuth => "google_oauth"

def AuthMethod.tryFrom : String → Except String AuthMethod
  | "password" => .ok .password
  | "google_oauth" => .ok .googleOAuth
  | other => .error ("Invalid auth method: " ++ other)

inductive EventType where
  | login
  | logout
  | refresh
  deriving DecidableEq, Repr

def EventType.asStr : EventType → String
  | .login => "login"
  | .logout => "logout"
  | .refresh => "refresh"

inductive AuthProviderKind where
  | localUser
  | google
  deriving DecidableEq, Repr

def AuthProviderKind.asStr : AuthProviderKind → String
  | .localUser => "local"
  | .google => "google"

def AuthProviderKind.tryFrom : String → Except String AuthProviderKind
  | "local" => .ok .localUser
  | "google" => .ok .google
  | other => .error ("Invalid auth provider: " ++ other)

/-- The text `insert_session` writes decodes to the method it came from. -/
@[simp] theorem AuthMethod.tryFrom_asStr (m : AuthMethod) : AuthMethod.tryFrom m.asStr = .ok m := by
  cases m <;> rfl

@[simp] theorem AuthProviderKind.tryFrom_asStr (p : AuthProviderKind) :
    AuthProviderKind.tryFrom p.asStr = .ok p := by
  cases p <;> rfl

theorem AuthMethod.asStr_of_tryFrom {s : String} {m : AuthMethod}
    (h : AuthMethod.tryFrom s = .ok m) :
    m.asStr = s := by
  unfold AuthMethod.tryFrom at h
  split at h
  · cases h
    rfl
  · cases h
    rfl
  · cases h

/-! ## Checked strings -/

structure Email where
  value : String
  valid : value ≠ "" ∧ '@' ∈ value.toList

/-- `Email::new`, with the `Display` text of its error. -/
def Email.new (s : String) : Except String Email :=
  if h : s ≠ "" ∧ '@' ∈ s.toList then .ok ⟨s, h⟩ else .error ("Invalid email: " ++ s)

structure HashedPassword where
  value : String
  nonempty : value ≠ ""
  deriving DecidableEq

def HashedPassword.new (s : String) : Except String HashedPassword :=
  if h : s = "" then .error "Password hash must not be empty" else .ok ⟨s, h⟩

@[simp] theorem HashedPassword.new_value (h : HashedPassword) :
    HashedPassword.new h.value = .ok h := by
  rw [HashedPassword.new, dif_neg h.nonempty]

@[simp] theorem Email.new_value (e : Email) : Email.new e.value = .ok e := by
  rw [Email.new, dif_pos e.valid]

theorem HashedPassword.value_of_new {s : String} {h : HashedPassword}
    (hn : HashedPassword.new s = .ok h) :
    h.value = s := by
  unfold HashedPassword.new at hn
  split at hn
  · cases hn
  · cases hn
    rfl

theorem Email.value_of_new {s : String} {e : Email} (hn : Email.new s = .ok e) : e.value = s := by
  unfold Email.new at hn
  split at hn
  · cases hn
    rfl
  · cases hn

/-! ## Events -/

inductive Event where
  | userLoggedIn (userId sessionId : Uuid) (method : AuthMethod)
  | userLoggedOut (userId sessionId : Uuid) (method : AuthMethod)
  | sessionRefreshed (userId sessionId : Uuid) (method : AuthMethod)
  | userCreated (userId : Uuid) (provider : AuthProviderKind)
  deriving DecidableEq

def Event.authMethod : Event → Option AuthMethod
  | .userLoggedIn _ _ m => some m
  | .userLoggedOut _ _ m => some m
  | .sessionRefreshed _ _ m => some m
  | .userCreated _ _ => none

end AppHome
