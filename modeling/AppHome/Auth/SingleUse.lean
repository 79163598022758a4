import AppHome.Auth.Tokens

/-!
# Single use of refresh tokens

The active check of `rotate_session` runs on the aggregate the request loaded, and the save that
follows is unconditional. Two refreshes of one session whose loads both come before the first save
therefore both succeed (`refreshToken_used_twice`).

If every save that inserts a successor finds the presented session's row still active
(`rotatesLive`), the history of commits holds at most one rotation of each session
(`RotatedOnce.le_one`) and at most one request presenting it answers `Ok`
(`refreshToken_single_use`).
-/

namespace AppHome

open Interleave

section SingleUse
variable (st : AppState) (calls : Nat → Call)

/-- A save by which a refresh presenting `S` inserted a successor. -/
def Commit.rotates (S : Uuid) (k : Commit) : Bool :=
  !k.newSessions.isEmpty && (calls k.thread).presents st = some S

/-- The successors of `S` that refreshes have inserted. -/
def World.rotations (w : World) (S : Uuid) : List Commit :=
  w.commits.filter (Commit.rotates st calls S)

/-- A save that inserts a successor is made while the row of the presented session is active. -/
def rotatesLive (c : Config) : Label Fate Consume → Prop
  | .run i _ => ∀ a news now k S, c.thread i = .op (.saveAggregate a news now) k → news ≠ [] →
      (calls i).presents st = some S → ∀ r ∈ c.shared.db.sessions.rows, r.id = S → r.isActive = true
  | .ext _ => True

/-! ## What a refresh promises -/

/-- A save that inserts a successor retires the presented session, whose row exists. -/
def retiresPresented (i : Nat) (w : World) : Op → Prop
  | .saveAggregate a news _ => news ≠ [] → ∀ S, (calls i).presents st = some S →
      S ∈ Db.invalidatedIds a ∧ ∃ r ∈ w.db.sessions.rows, r.id = S
  | _ => True

/-- An `Ok` answer to a refresh has a committed successor. -/
def answersRotation (i : Nat) (r : Except AuthError Response) (w : World) : Prop :=
  ∀ S, (calls i).presents st = some S → r.isOk = true → ∃ k ∈ w.rotations st calls S, k.thread = i

variable {st calls}

theorem mem_rotations {w : World} {S : Uuid} {k : Commit} :
    k ∈ w.rotations st calls S ↔
      k ∈ w.commits ∧ k.newSessions ≠ [] ∧ (calls k.thread).presents st = some S := by
  simp [World.rotations, Commit.rotates]

theorem singleUse_obligations (i : Nat) :
    (calls i).Obligations st (sharedContract (retiresPresented st calls)) i (fun _ => True)
      (answersRotation st calls i) where
  le := id
  rely := fun _ h => h
  load := by
    intro w o _ ho
    cases o with
    | saveAggregate a news now => cases ho
    | _ => trivial
  create := fun h _ => h
  error := fun e _ S _ he => by cases he
  lost := fun e _ _ _ _ _ _ S _ he => by cases he
  save := by
    intro w₀ w a p _ hload _ hdec hle hnews S hS
    cases hdec with
    | opens hm hcap ho => rw [ho.presents] at hS; cases hS
    | reuses => exact absurd rfl hnews
    | closes => exact absurd rfl hnews
    | rotates hr hv hu hm hs hactive hexp htoken =>
        obtain ⟨claims', hv', rfl⟩ := Call.presents_eq_some.mp hS
        rw [hv] at hv'
        cases hv'
        refine ⟨Db.mem_invalidatedIds_retired hs, ?_⟩
        obtain ⟨hmem, hid⟩ := UserAggregate.find_session hs
        obtain ⟨r, hr, -, hd⟩ := hload.row_of_mem hmem
        obtain ⟨r', hr', hrle⟩ := hle.db.sessions r hr
        exact ⟨r', hr', by rw [hrle.id, ← (SessionRow.intoSession_ok hd).1, hid]⟩
  commit := by
    intro w₀ w a p db _ _ _ hdec hle hdb S hS hok
    refine ⟨⟨i, p.aggregate, p.newSessions, true⟩, ?_, rfl⟩
    rw [mem_rotations]
    refine ⟨List.mem_append_right _ List.mem_cons_self, ?_, hS⟩
    cases hdec with
    | opens hm hcap ho => rw [ho.presents] at hS; cases hS
    | reuses => cases hok
    | closes hr => simp [Call.presents, Call.claims, hr] at hS
    | rotates => exact List.cons_ne_nil _ _

/-! ## Runs -/

/-- What the history says about `S`: one successor at most, and the row is inactive once there is
one. -/
structure RotatedOnce (st : AppState) (calls : Nat → Call) (w : World) (S : Uuid) : Prop where
  le_one : (w.rotations st calls S).length ≤ 1
  inactive : w.rotations st calls S ≠ [] → w.db.Inactive S

theorem RotatedOnce.commit {w : World} {S : Uuid} (h : RotatedOnce st calls w S) {i : Nat}
    {a : UserAggregate} {news : List NewSession} {answered : Bool} {now : Nat → Instant} {db : Db}
    (hdb : w.db.saveAggregate a news now = .ok db)
    (hg : retiresPresented st calls i w (.saveAggregate a news now))
    (hlive : news ≠ [] → (calls i).presents st = some S →
      ∀ r ∈ w.db.sessions.rows, r.id = S → r.isActive = true) :
    RotatedOnce st calls { w with db, commits := w.commits ++ [⟨i, a, news, answered⟩] } S := by
  have happ : World.rotations st calls { w with db, commits :=
      w.commits ++ [⟨i, a, news, answered⟩] } S =
      w.rotations st calls S ++ [⟨i, a, news, answered⟩].filter (Commit.rotates st calls S) :=
    List.filter_append ..
  cases hrot : Commit.rotates st calls S ⟨i, a, news, answered⟩ with
  | false =>
      rw [List.filter_cons_of_neg (by rw [hrot]; decide), List.filter_nil, List.append_nil] at happ
      refine ⟨happ ▸ h.le_one, fun hne => ?_⟩
      rw [happ] at hne
      exact (Db.saveAggregate_le hdb).inactive (h.inactive hne)
  | true =>
      have hcond : news ≠ [] ∧ (calls i).presents st = some S := by
        simpa [Commit.rotates] using hrot
      obtain ⟨hids, r, hr, rfl⟩ := hg hcond.1 S hcond.2
      have hempty : w.rotations st calls r.id = [] := by
        by_contra hne
        obtain ⟨r', hr', hid, hi⟩ := h.inactive hne
        rw [hlive hcond.1 hcond.2 r' hr' hid] at hi
        cases hi
      rw [hempty, List.filter_cons_of_pos hrot, List.filter_nil, List.nil_append] at happ
      exact ⟨by rw [happ]; rfl, fun _ => Db.saveAggregate_inactive hdb hr hids⟩

theorem RotatedOnce.exec {w : World} {S : Uuid} (h : RotatedOnce st calls w S) {i : Nat} {o : Op}
    (f : Fate) (hg : retiresPresented st calls i w o)
    (hlive : ∀ a news now, o = .saveAggregate a news now → news ≠ [] →
      (calls i).presents st = some S → ∀ r ∈ w.db.sessions.rows, r.id = S → r.isActive = true) :
    RotatedOnce st calls (w.exec i o f).2 S := by
  refine World.exec_rule (P := fun w => RotatedOnce st calls w S) f h ?_ ?_ ?_
  · exact fun e _ => ⟨h.le_one, h.inactive⟩
  · exact fun u id now user db _ hdb =>
      ⟨h.le_one, fun hne => (Db.create_le hdb).inactive (h.inactive hne)⟩
  · rintro a news now db rfl hdb
    exact h.commit hdb hg (hlive a news now rfl)

theorem RotatedOnce.consume {w : World} {S : Uuid} (h : RotatedOnce st calls w S) (c : Consume) :
    RotatedOnce st calls (w.consume c) S := by
  unfold World.consume
  split <;> exact ⟨h.le_one, h.inactive⟩

theorem answersRotation_mono (i : Nat) (r : Except AuthError Response) (w w' : World)
    (hle : w.Le w') (h : answersRotation st calls i r w) : answersRotation st calls i r w' := by
  intro S hS hok
  obtain ⟨k, hk, hi⟩ := h S hS hok
  rw [mem_rotations] at hk
  exact ⟨k, mem_rotations.mpr ⟨hle.commits.subset hk.1, hk.2⟩, hi⟩

/-- Along a run in which successors are inserted only while the presented session is active, no
session gets a second one. -/
theorem rotatedOnce_run (db : Db) {l : List (Label Fate Consume)}
    (hl : machine.Along (rotatesLive st calls) (system st calls (.init db)) l) (S : Uuid) :
    RotatedOnce st calls (machine.run (system st calls (.init db)) l).shared S := by
  refine system_shared singleUse_obligations answersRotation_mono trivial hl
    (fun w => RotatedOnce st calls w S) ?_ (fun h => h.consume _)
    ⟨Nat.zero_le 1, fun h => absurd rfl h⟩
  intro c i o k f hi hlive hg hI
  refine hI.exec f hg fun a news now ho => ?_
  subst ho
  exact hlive a news now k S hi

/-- **Refresh tokens are single-use** in every run whose successors are inserted only while the
presented session is active: at most one request presenting `S` is answered `Ok`, and `S` gets at
most one successor. -/
theorem refreshToken_single_use (st : AppState) (calls : Nat → Call) (db : Db)
    (l : List (Label Fate Consume))
    (hl : machine.Along (rotatesLive st calls) (system st calls (.init db)) l) (S : Uuid) :
    (∀ i j ri rj, (calls i).presents st = some S → (calls j).presents st = some S →
      (machine.run (system st calls (.init db)) l).thread i = .ret (.ok ri) →
      (machine.run (system st calls (.init db)) l).thread j = .ret (.ok rj) → i = j) ∧
    ((machine.run (system st calls (.init db)) l).shared.rotations st calls S).length ≤ 1 := by
  have hone := (rotatedOnce_run db hl S).le_one
  refine ⟨fun i j ri rj hi hj hri hrj => ?_, hone⟩
  obtain ⟨ki, hki, rfl⟩ :=
    system_post singleUse_obligations answersRotation_mono trivial hl hri S hi rfl
  obtain ⟨kj, hkj, rfl⟩ :=
    system_post singleUse_obligations answersRotation_mono trivial hl hrj S hj rfl
  obtain ⟨k, hk⟩ := List.length_eq_one_iff.mp (le_antisymm hone (List.length_pos_of_mem hki))
  rw [hk, List.mem_singleton] at hki hkj
  rw [hki, hkj]

/-- Every request presents the token of session `7`. -/
def refreshSeven (i : Nat) : Call :=
  ⟨plainEnv (.ofNat 128 (10 + i)) 5, .refreshToken (plainToken 1 7)⟩

/-- Three refreshes of session `7`: the first two load it before either saves, the save of the first
fails, that of the second goes through, and the third comes after it. -/
def competingRefreshes : List (Label Fate Consume) :=
  [.run 0 .done, .run 1 .done, .run 0 (.failed "connection reset"), .run 1 .done,
    .run 2 .done, .run 2 .done]

theorem competingRefreshes_live :
    machine.Along (rotatesLive plainState refreshSeven)
      (system plainState refreshSeven (.init plainDb)) competingRefreshes := by
  have hactive : ∀ r ∈ plainDb.sessions.rows, r.isActive = true := by decide
  refine ⟨?_, ?_, ?_, ?_, ?_, ?_, trivial⟩
  · exact fun _ _ _ _ _ _ _ _ r hr _ => hactive r hr
  · exact fun _ _ _ _ _ _ _ _ r hr _ => hactive r hr
  · exact fun _ _ _ _ _ _ _ _ r hr _ => hactive r hr
  · exact fun _ _ _ _ _ _ _ _ r hr _ => hactive r hr
  · intro a news now k S hload
    cases hload
  · intro a news now k S hsave hnews
    cases hsave
    exact absurd rfl hnews

theorem refreshToken_single_use_seven :
    (∃ e, (machine.run (system plainState refreshSeven (.init plainDb))
      competingRefreshes).thread 0 = .ret (.error (.internalError e))) ∧
    (∃ r, (machine.run (system plainState refreshSeven (.init plainDb))
      competingRefreshes).thread 1 = .ret (.ok r)) ∧
    (machine.run (system plainState refreshSeven (.init plainDb)) competingRefreshes).thread 2 =
      .ret (.error .sessionInvalidated) ∧
    ((machine.run (system plainState refreshSeven (.init plainDb))
      competingRefreshes).shared.rotations plainState refreshSeven 7).length ≤ 1 :=
  ⟨⟨_, rfl⟩, ⟨_, rfl⟩, rfl,
    (refreshToken_single_use plainState refreshSeven plainDb competingRefreshes
      competingRefreshes_live 7).2⟩

/-- Two refreshes of session `7` whose loads both come first: both succeed, and the session has two
successors. -/
theorem refreshToken_used_twice :
    (refreshSeven 0).presents plainState = some 7 ∧ (refreshSeven 1).presents plainState = some 7 ∧
    ∃ l : List (Label Fate Consume),
      (∃ r, (machine.run (system plainState refreshSeven (.init plainDb)) l).thread 0 =
        .ret (.ok r)) ∧
      (∃ r, (machine.run (system plainState refreshSeven (.init plainDb)) l).thread 1 =
        .ret (.ok r)) ∧
      ((machine.run (system plainState refreshSeven (.init plainDb)) l).shared.rotations plainState
        refreshSeven 7).length = 2 :=
  ⟨by decide, by decide, [.run 0 .done, .run 1 .done, .run 0 .done, .run 1 .done], ⟨_, rfl⟩,
    ⟨_, rfl⟩, by decide⟩

end SingleUse

end AppHome
