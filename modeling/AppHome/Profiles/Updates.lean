import AppHome.Profiles.Profile

/-!
# Concurrent profile updates

`update_profile` fills the fields it is not given from a row it has read before, and writes the
whole row. Two calls that overlap can undo each other (`update_lost`). `updates_kept` says when that
does not happen.

* `Field` : the two fields, so that both are treated at once;
* `lastGiven` : what the calls whose upserts took effect gave a field last;
* `Unchanged` : no upsert is made after a field its call omits has changed since the call read it;
* `updatesContract` : what a call knows about the profile it is about to write.
-/

namespace AppHome.Profiles

open Interleave Text

inductive Field where
  | avatarUrl
  | bio

def UpdateCall.given (c : UpdateCall) : Field → Option String
  | .avatarUrl => c.avatarUrl
  | .bio => c.bio

def ProfileRow.text (r : ProfileRow) : Field → Option String
  | .avatarUrl => r.avatarUrl
  | .bio => r.bio

def UserProfile.text (p : UserProfile) : Field → Option String
  | .avatarUrl => p.avatarUrl.map (·.value)
  | .bio => p.bio.map (·.value)

/-- A stored text as `find_by_user_id` reads it. -/
def Field.decoded : Field → Option String → Option String
  | .avatarUrl, text => (decode AvatarUrl.new text).map (·.value)
  | .bio, text => (decode Bio.new text).map (·.value)

/-- The stored text of a field. -/
def State.text (s : State) (userId : Uuid) (field : Field) : Option String :=
  (s.profiles.find? userId).bind (·.text field)

/-- The stored text that call `i` has read. -/
def State.seenText (s : State) (i : Nat) (field : Field) : Option String :=
  (s.seen i).bind (·.text field)

/-- What a call that gives `val` stores: the trimmed text, or nothing for the empty one. -/
def stored (val : String) : Option String := if val = "" then none else some (trim val)

/-- What the calls for a user, in the order of their upserts, gave a field last. -/
def lastGiven (calls : Nat → UpdateCall) (userId : Uuid) (field : Field) (commits : List Nat) :
    Option String :=
  (commits.reverse.filter fun i => (calls i).userId = userId).findSome? fun i =>
    (calls i).given field

section Texts
variable {s : State}

theorem text_row (p : UserProfile) (field : Field) :
    p.row.text field = p.text field := by cases field <;> rfl

theorem text_profile (r : ProfileRow) (field : Field) :
    r.profile.text field = field.decoded (r.text field) := by
  cases field <;> rfl

theorem text_read (r : Option ProfileRow) (field : Field) :
    (r.map (·.profile)).bind (·.text field) = field.decoded (r.bind (·.text field)) := by
  cases r with
  | none => cases field <;> rfl
  | some r => exact text_profile r field

theorem decoded_text (p : UserProfile) (field : Field) :
    field.decoded (p.text field) = p.text field := by
  cases field with
  | avatarUrl => exact congrArg (Option.map _) (decode_value "Avatar URL" p.avatarUrl)
  | bio => exact congrArg (Option.map _) (decode_value "Bio" p.bio)

theorem text_put (p : UserProfile) (userId : Uuid) (field : Field) (commits : List Nat) :
    ({ s with profiles := s.profiles.put p.row, commits } : State).text userId field =
      if p.userId = userId then p.text field else s.text userId field := by
  have hkey : p.row.userId = p.userId := rfl
  simp only [State.text, Table.find?_put, hkey]
  split_ifs
  · rw [Option.bind_some, text_row]
  · rfl

theorem text_fieldValue {maxLen : Nat} {name name' : String} {given : Option String}
    {existing t : Option (BoundedText maxLen)}
    (h : fieldValue (BoundedText.new maxLen name) name' given existing = .ok t) :
    t.map (·.value) = given.elim (existing.map (·.value)) stored := by
  unfold fieldValue at h
  split at h
  · next val =>
      rw [Option.elim_some, stored]
      split_ifs at h with hval
      · cases h
        rw [if_pos hval]
        rfl
      · rw [if_neg hval]
        cases hnew : BoundedText.new maxLen name val with
        | error e =>
            rw [hnew] at h
            cases h
        | ok v =>
            rw [hnew] at h
            cases h
            rw [Option.map_some, BoundedText.value_of_new hnew]
  · cases h
    rfl

end Texts

/-! ## What a call writes -/

section Calls
variable (calls : Nat → UpdateCall)

/-- The profile of call `i`: the fields it was given, and the others as it has read them. -/
def Fills (i : Nat) (s : State) (p : UserProfile) : Prop :=
  p.userId = (calls i).userId ∧
    ∀ field, p.text field = ((calls i).given field).elim (field.decoded (s.seenText i field)) stored

/-- What a call has read is its own. -/
def updatesContract : Contract State Op where
  rely i s s' := s'.seen i = s.seen i
  guar i s o := ∀ p, o = .upsert p → Fills calls i s p

variable {calls}

theorem exec_seen (s : State) {i j : Nat} (h : i ≠ j) (o : Op) (f : Fate) :
    (exec s j o f).2.seen i = s.seen i := by
  have hupsert : ∀ p s', s.upsert j p = .ok s' → s'.seen = s.seen := by
    intro p s' hs'
    unfold State.upsert at hs'
    split_ifs at hs'
    cases hs'
    rfl
  cases o with
  | now => rfl
  | findByUserId userId =>
      cases f with
      | done => exact Function.update_of_ne h _ _
      | failed e => rfl
      | failedApplied e => rfl
  | upsert p =>
      cases hs : s.upsert j p with
      | error e => cases f <;> simp [exec, hs, Except.toOption]
      | ok s' => cases f <;> simp [exec, hs, Except.toOption, hupsert p s' hs]

theorem updatesContract_sound : (updatesContract calls).Sound machine where
  refl _ _ := rfl
  trans h h' := h'.trans h
  exec f _ hne := exec_seen _ hne _ f

theorem wp_write {i : Nat} {s : State} {avatarUrl : Option AvatarUrl} {bio : Option Bio}
    (h : ∀ t, Fills calls i s ⟨(calls i).userId, avatarUrl, bio, t⟩) :
    wp machine (updatesContract calls) i (do
      let updatedAt ← utcNow
      let profile : UserProfile := ⟨(calls i).userId, avatarUrl, bio, updatedAt⟩
      upsert profile
      pure profile : UseCase UserProfile).run (fun _ _ => True) s := by
  intro s₁ hs₁
  refine ⟨by rintro p ⟨⟩, fun f => ?_⟩
  intro s₂ hs₂
  refine ⟨?_, fun f => ?_⟩
  · rintro p ⟨⟩
    have hseen : s₂.seen i = s.seen i := hs₂.trans hs₁
    obtain ⟨huser, htext⟩ := h s₁.now
    refine ⟨huser, fun field => ?_⟩
    rw [State.seenText, hseen]
    exact htext field
  · show wp machine (updatesContract calls) i
      (ExceptT.bindCont _ (exec s₂ i (.upsert ⟨(calls i).userId, avatarUrl, bio, s₁.now⟩) f).1) _ _
    generalize (exec s₂ i (.upsert ⟨(calls i).userId, avatarUrl, bio, s₁.now⟩) f).1 = r
    cases r <;> trivial

theorem wp_updateProfile (i : Nat) (s : State) :
    wp machine (updatesContract calls) i
      (updateProfile (calls i).userId (calls i).avatarUrl (calls i).bio).run
      (fun _ _ => True) s := by
  unfold updateProfile
  split_ifs
  · trivial
  · rw [Fallible.run_bind, wp_bind]
    intro s₁ _
    refine ⟨by rintro p ⟨⟩, fun f => ?_⟩
    cases f with
    | failed e => trivial
    | failedApplied e => trivial
    | done =>
        have hseen : (s₁.read i (calls i).userId).seen i = s₁.profiles.find? (calls i).userId :=
          Function.update_self ..
        show wp machine (updatesContract calls) i (Fallible.andThen _
          (.ok ((s₁.profiles.find? (calls i).userId).map (·.profile))))
            _ (s₁.read i (calls i).userId)
        rw [← hseen]
        generalize s₁.read i (calls i).userId = s₂
        rw [Fallible.andThen, Fallible.run_lift_bind]
        cases havatar : fieldValue AvatarUrl.new "avatar_url" (calls i).avatarUrl
            (((s₂.seen i).map (·.profile)).bind (·.avatarUrl)) with
        | error e => trivial
        | ok avatarUrl =>
            rw [Fallible.andThen, Fallible.run_lift_bind]
            cases hbio : fieldValue Bio.new "bio" (calls i).bio
              (((s₂.seen i).map (·.profile)).bind (·.bio)) with
            | error e => trivial
            | ok bio =>
                refine wp_write fun t => ⟨rfl, fun field => ?_⟩
                rw [State.seenText, ← text_read]
                cases field with
                | avatarUrl =>
                    have htext := text_fieldValue havatar
                    rwa [Option.map_bind] at htext
                | bio =>
                    have htext := text_fieldValue hbio
                    rwa [Option.map_bind] at htext

end Calls

/-! ## Runs -/

section Run
variable (calls : Nat → UpdateCall) (userId : Uuid)

/-- When a call for the user writes its profile, no field it omits has changed since the call read
it. -/
def Unchanged (c : Cfg State Op Res (Except ProfileError UserProfile)) (a : Label Fate Nat) :
    Prop :=
  ∀ i f p k, a = .run i f → c.thread i = .op (.upsert p) k → (calls i).userId = userId →
    ∀ field, (calls i).given field = none → c.shared.text userId field = c.shared.seenText i field

/-- The row of the user is what the calls so far gave, over the texts `initial`. -/
structure Kept (initial : Field → Option String) (s : State) : Prop where
  readable : ∀ field, field.decoded (s.text userId field) = s.text userId field
  text_eq : ∀ field, s.text userId field = (lastGiven calls userId field s.commits).elim
    (initial field) stored

variable {calls userId} {initial : Field → Option String} {s : State}

theorem lastGiven_append (field : Field) (commits : List Nat) (i : Nat) :
    lastGiven calls userId field (commits ++ [i]) =
      if (calls i).userId = userId then
        ((calls i).given field).or (lastGiven calls userId field commits)
      else lastGiven calls userId field commits := by
  unfold lastGiven
  rw [List.reverse_append, List.reverse_singleton, List.singleton_append, List.filter_cons]
  split_ifs with h h' h'
  · rw [List.findSome?_cons]
    cases (calls i).given field <;> rfl
  · exact absurd (of_decide_eq_true h) h'
  · exact absurd (decide_eq_true h') h
  · rfl

theorem Kept.upsert (h : Kept calls userId initial s) {i : Nat} {p : UserProfile}
    (hp : Fills calls i s p)
    (hsame : (calls i).userId = userId → ∀ field, (calls i).given field = none →
      s.text userId field = s.seenText i field) :
    Kept calls userId initial { s with profiles := s.profiles.put p.row, commits :=
      s.commits ++ [i] } := by
  obtain ⟨huser, htext⟩ := hp
  by_cases hi : (calls i).userId = userId
  · have hrow : ∀ field, ({ s with profiles := s.profiles.put p.row, commits := s.commits ++ [i] } :
        State).text userId
        field = p.text field := by
      intro field
      rw [text_put, if_pos (huser.trans hi)]
    refine ⟨fun field => ?_, fun field => ?_⟩
    · rw [hrow, decoded_text]
    · rw [hrow, lastGiven_append, if_pos hi, htext field]
      cases hgiven : (calls i).given field with
      | some val => rfl
      | none =>
          rw [Option.none_or, Option.elim_none, ← hsame hi field hgiven, h.readable, h.text_eq]
  · have hrow : ∀ field, ({ s with profiles := s.profiles.put p.row, commits := s.commits ++ [i] } :
        State).text userId
        field = s.text userId field := by
      intro field
      rw [text_put, if_neg fun heq => hi (huser.symm.trans heq)]
    refine ⟨fun field => ?_, fun field => ?_⟩
    · rw [hrow, h.readable]
    · rw [hrow, lastGiven_append, if_neg hi]
      exact h.text_eq field

theorem Kept.exec (h : Kept calls userId initial s) {i : Nat} {o : Op}
    (ho : ∀ p, o = .upsert p → Fills calls i s p)
    (hsame : ∀ p, o = .upsert p → (calls i).userId = userId →
      ∀ field, (calls i).given field = none → s.text userId field = s.seenText i field)
    (f : Fate) : Kept calls userId initial (exec s i o f).2 := by
  cases o with
  | now => exact h
  | findByUserId id =>
      cases f with
      | done => exact ⟨h.readable, h.text_eq⟩
      | failed e => exact h
      | failedApplied e => exact h
  | upsert p =>
      have hput := h.upsert (ho p rfl) (hsame p rfl)
      by_cases hfk : s.users.contains p.userId
      · have hs : s.upsert i p = .ok { s with profiles := s.profiles.put p.row, commits :=
            s.commits ++ [i] } :=
          if_pos hfk
        cases f with
        | done => simpa only [Profiles.exec, hs] using hput
        | failed e => exact h
        | failedApplied e =>
          simpa only [Profiles.exec, hs, Except.toOption, Option.getD_some] using hput
      · have hs : ∃ e, s.upsert i p = .error e := ⟨_, if_neg hfk⟩
        obtain ⟨e', hs⟩ := hs
        cases f with
        | done => simpa only [Profiles.exec, hs] using h
        | failed e => exact h
        | failedApplied e =>
          simpa only [Profiles.exec, hs, Except.toOption, Option.getD_none] using h

end Run

/-- **No update is lost** in a run in which no call writes a profile after a field it omits has
changed since it was read: each field holds what was given last, or what it held
when nothing was. -/
theorem updates_kept (calls : Nat → UpdateCall) (userId : Uuid) (s : State)
    (hnew : s.commits = [])
    (hreadable : ∀ field, Field.decoded field (s.text userId field) = s.text userId field)
    (l : List (Label Fate Nat)) (hl : machine.Along (Unchanged calls userId) (updates calls s) l)
    (field : Field) :
    (machine.run (updates calls s) l).shared.text userId field =
      (lastGiven calls userId field (machine.run (updates calls s) l).shared.commits).elim
        (s.text userId field) stored := by
  have hinit : Kept calls userId (s.text userId) s := ⟨hreadable, fun field => by rw [hnew]; rfl⟩
  have hrun : Kept calls userId (s.text userId) (machine.run (updates calls s) l).shared := by
    refine run_shared (Q := fun _ _ _ => True) updatesContract_sound (fun _ _ _ _ _ _ => trivial)
      (fun _ _ _ _ => rfl) (fun {c i o k f} hi hg ho hI => ?_)
      (fun {c e} _ hI => ⟨hI.readable, hI.text_eq⟩) hl
      (fun i => wp_updateProfile i s) hinit
    refine hI.exec ho (fun p hp => ?_) f
    subst hp
    exact hg i f p k rfl hi
  exact hrun.text_eq field

/-! ## Calls that overlap -/

/-- A user with both fields set. -/
def plainState : State where
  users := [1]
  profiles := ⟨[⟨1, some "a", some "b", 0⟩], by decide⟩
  now := 0
  commits := []
  seen _ := none

instance Unchanged.decidable (calls : Nat → UpdateCall) (userId : Uuid)
    (c : Cfg State Op Res (Except ProfileError UserProfile)) (a : Label Fate Nat) :
    Decidable (Unchanged calls userId c a) :=
  match a with
  | .ext n => isTrue fun i f p k h => by cases h
  | .run i f =>
    match hi : c.thread i with
    | .op (.upsert p) k =>
      decidable_of_iff ((calls i).userId = userId → ∀ field ∈ [Field.avatarUrl, Field.bio],
          (calls i).given field = none → c.shared.text userId field = c.shared.seenText i field)
        ⟨fun h j f' p' k' hj _ hu field => by cases hj; exact h hu field (by cases field <;> simp),
          fun h hu field _ => h i f p k rfl hi hu field⟩
    | .ret r => isTrue fun j f' p k hj hop => by cases hj; cases hi.symm.trans hop
    | .op .now k => isTrue fun j f' p k hj hop => by cases hj; cases hi.symm.trans hop
    | .op (.findByUserId id) k => isTrue fun j f' p k hj hop => by cases hj; cases hi.symm.trans hop

/-- The first call clears the avatar, the second the bio, and the third gives both. -/
def threeUpdates (i : Nat) : UpdateCall :=
  if i = 0 then ⟨1, some "", none⟩ else if i = 1 then
    ⟨1, none, some ""⟩ else ⟨1, some " c ", some "d"⟩

/-- The third call reads before the first one writes and writes after it, and the
second comes last. -/
def keptSchedule : List (Label Fate Nat) :=
  turns .done [(2, 1), (0, 2), (2, 1), (0, 1), (2, 1), (1, 3)]

theorem updates_kept_overlapping :
    (machine.run (updates threeUpdates plainState) keptSchedule).shared.text 1 .avatarUrl =
      some "c" ∧
    (machine.run (updates threeUpdates plainState) keptSchedule).shared.text 1 .bio = none ∧
    ∀ field, (machine.run (updates threeUpdates plainState) keptSchedule).shared.text 1 field =
      (lastGiven threeUpdates 1 field
        (machine.run (updates threeUpdates plainState) keptSchedule).shared.commits).elim
        (plainState.text 1 field) stored := by
  refine ⟨by decide +kernel, by decide +kernel, fun field => ?_⟩
  refine updates_kept threeUpdates 1 plainState rfl (fun field => ?_) keptSchedule
    (by decide +kernel) field
  cases field <;> decide

/-- Both calls succeed, having read the same row, and the avatar the first one cleared is back. -/
theorem update_lost :
    (∀ i < 2, ∃ p, (machine.run (updates threeUpdates plainState)
      (turns .done [(0, 1), (1, 1), (0, 2), (1, 2)])).thread i = .ret (.ok p)) ∧
    lastGiven threeUpdates 1 .avatarUrl (machine.run (updates threeUpdates plainState)
      (turns .done [(0, 1), (1, 1), (0, 2), (1, 2)])).shared.commits = some "" ∧
    (machine.run (updates threeUpdates plainState)
      (turns .done [(0, 1), (1, 1), (0, 2), (1, 2)])).shared.text 1 .avatarUrl = some "a" := by
  refine ⟨fun i hi => ?_, by decide, by decide⟩
  obtain rfl | rfl : i = 0 ∨ i = 1 := by omega
  · exact ⟨_, rfl⟩
  · exact ⟨_, rfl⟩

end AppHome.Profiles
