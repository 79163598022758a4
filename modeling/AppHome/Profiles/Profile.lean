import AppHome.Lib.Interleave
import AppHome.Lib.Table
import AppHome.Shared.Text
import AppHome.Shared.Values

/-!
# User profiles

* `BoundedText` : a trimmed, non-empty text of bounded length; `AvatarUrl` and `Bio` are two of
  them;
* `UserProfile`, `ProfileRow` : a profile and its row, `findByUserId` and `upsert` going from one to
  the other;
* `State` : the table `user_profiles` and, as history variables, the calls whose upsert took effect,
  in that order, and the row each call has read;
* `updateProfile` : the use case, statement by statement.
-/

namespace AppHome.Profiles

open Interleave Text

/-! ## The domain -/

/-- A trimmed text that is not empty, of at most `maxLen` bytes. -/
structure BoundedText (maxLen : Nat) where
  value : String
  trimmed : trim value = value
  nonempty : value ≠ ""
  length_le : value.utf8ByteSize ≤ maxLen

namespace BoundedText
variable {maxLen : Nat}

def new (maxLen : Nat) (name : String) (value : String) : Except String (BoundedText maxLen) :=
  if hempty : trim value = "" then .error (name ++ " must not be empty")
  else if hlen : (trim value).utf8ByteSize ≤ maxLen then
    .ok ⟨trim value, trim_trim value, hempty, hlen⟩
  else .error (name ++ " must not exceed " ++ toString maxLen ++ " characters")

/-- A text that was accepted once is accepted again, as it is. -/
theorem new_value (name : String) (t : BoundedText maxLen) : new maxLen name t.value = .ok t := by
  have hne : ¬ trim t.value = "" := by
    rw [t.trimmed]
    exact t.nonempty
  have hlen : (trim t.value).utf8ByteSize ≤ maxLen := by
    rw [t.trimmed]
    exact t.length_le
  rw [new, dif_neg hne, dif_pos hlen]
  congr 1
  cases t with
  | mk value trimmed nonempty length_le => simp only [trimmed]

theorem value_of_new {name value : String} {t : BoundedText maxLen}
    (h : new maxLen name value = .ok t) :
    t.value = trim value := by
  unfold new at h
  split_ifs at h
  cases h
  rfl

end BoundedText

abbrev AvatarUrl := BoundedText 500

def AvatarUrl.new (value : String) : Except String AvatarUrl :=
  BoundedText.new 500 "Avatar URL" value

abbrev Bio := BoundedText 2000

def Bio.new (value : String) : Except String Bio := BoundedText.new 2000 "Bio" value

inductive ProfileError where
  | notFound (userId : Uuid)
  | invalidValue (message : String)
  | internalError (message : String)

structure UserProfile where
  userId : Uuid
  avatarUrl : Option AvatarUrl
  bio : Option Bio
  updatedAt : Instant

/-! ## The table -/

structure ProfileRow where
  userId : Uuid
  avatarUrl : Option String
  bio : Option String
  updatedAt : Instant

/-- A stored text, unless it is empty or no longer accepted. -/
def decode {maxLen : Nat} (new : String → Except String (BoundedText maxLen))
    (text : Option String) :
    Option (BoundedText maxLen) := (text.filter (· ≠ "")).bind fun s => (new s).toOption

/-- `find_by_user_id` on a row. -/
def ProfileRow.profile (r : ProfileRow) : UserProfile :=
  ⟨r.userId, decode AvatarUrl.new r.avatarUrl, decode Bio.new r.bio, r.updatedAt⟩

/-- The row `upsert` writes. -/
def UserProfile.row (p : UserProfile) : ProfileRow :=
  ⟨p.userId, p.avatarUrl.map (·.value), p.bio.map (·.value), p.updatedAt⟩

theorem decode_value {maxLen : Nat} (name : String) (t : Option (BoundedText maxLen)) :
    decode (BoundedText.new maxLen name) (t.map (·.value)) = t := by
  cases t with
  | none => rfl
  | some t =>
      have hne : decide (t.value ≠ "") = true := decide_eq_true t.nonempty
      rw [decode, Option.map_some, Option.filter_some, if_pos hne, Option.bind_some,
        BoundedText.new_value]
      rfl

structure State where
  users : List Uuid
  profiles : Table ProfileRow.userId
  now : Instant
  commits : List Nat
  seen : Nat → Option ProfileRow

/-! ## Statements -/

inductive Op where
  | findByUserId (userId : Uuid)
  | upsert (profile : UserProfile)
  | now

abbrev Res : Op → Type
  | .findByUserId _ => Except ProfileError (Option UserProfile)
  | .upsert _ => Except ProfileError Unit
  | .now => Instant

/-- What becomes of a statement. -/
inductive Fate where
  | done
  | failed (e : String)
  | failedApplied (e : String)

namespace State

/-- Call `i` reads the row of a user. -/
def read (s : State) (i : Nat) (userId : Uuid) : State :=
  { s with seen := Function.update s.seen i (s.profiles.find? userId) }

/-- The upsert of call `i`, unless the user does not exist. -/
def upsert (s : State) (i : Nat) (p : UserProfile) : Except String State :=
  if s.users.contains p.userId then
    .ok { s with profiles := s.profiles.put p.row, commits := s.commits ++ [i] }
  else .error "insert or update on table \"user_profiles\" violates foreign key constraint"

end State

def exec (s : State) (i : Nat) (o : Op) (f : Fate) : Res o × State :=
  match o, f with
  | .findByUserId userId, .done =>
    (.ok ((s.profiles.find? userId).map (·.profile)), s.read i userId)
  | .findByUserId _, .failed e => (.error (.internalError e), s)
  | .findByUserId _, .failedApplied e => (.error (.internalError e), s)
  | .upsert p, .done =>
    match s.upsert i p with
    | .ok s' => (.ok (), s')
    | .error e => (.error (.internalError e), s)
  | .upsert _, .failed e => (.error (.internalError e), s)
  | .upsert p, .failedApplied e => (.error (.internalError e), (s.upsert i p).toOption.getD s)
  | .now, _ => (s.now, s)

/-- The environment's own move is the passing of time. -/
def machine :
    Machine State Op Res Fate Nat := ⟨exec, fun s nanos => { s with now := s.now + nanos }⟩

/-! ## The use case -/

abbrev UseCase (α : Type) := Fallible Op Res ProfileError α

def findByUserId (userId : Uuid) : UseCase (Option UserProfile) :=
  ExceptT.mk (.op (.findByUserId userId) .ret)

def upsert (p : UserProfile) : UseCase Unit := ExceptT.mk (.op (.upsert p) .ret)

/-- `Utc::now()`. -/
def utcNow : UseCase Instant := ExceptT.mk (.op .now fun t => .ret (.ok t))

/-- A field of the update: the empty text clears it, an omitted one keeps what was read. -/
def fieldValue {maxLen : Nat} (new : String → Except String (BoundedText maxLen)) (name : String)
    (given : Option String) (existing : Option (BoundedText maxLen)) :
    Except ProfileError (Option (BoundedText maxLen)) :=
  match given with
  | some val =>
    if val = "" then .ok none
    else (new val).map some |>.mapError fun e => .invalidValue ("Invalid " ++ name ++ ": " ++ e)
  | none => .ok existing

def updateProfile (userId : Uuid) (avatarUrl bio : Option String) : UseCase UserProfile :=
  if avatarUrl = none ∧ bio = none then throw (.invalidValue "At least one field must be provided")
  else do
    let existing ← findByUserId userId
    let avatarUrl ← liftM
        (fieldValue AvatarUrl.new "avatar_url" avatarUrl (existing.bind (·.avatarUrl)))
    let bio ← liftM (fieldValue Bio.new "bio" bio (existing.bind (·.bio)))
    let updatedAt ← utcNow
    let profile : UserProfile := ⟨userId, avatarUrl, bio, updatedAt⟩
    upsert profile
    pure profile

structure UpdateCall where
  userId : Uuid
  avatarUrl : Option String
  bio : Option String

/-- Any number of calls, none of them begun. -/
def updates (calls : Nat → UpdateCall) (s : State) :
    Cfg State Op Res (Except ProfileError UserProfile) :=
  ⟨s, fun i => (updateProfile (calls i).userId (calls i).avatarUrl (calls i).bio).run⟩

end AppHome.Profiles
