import AppHome.Auth.Requests

/-!
# Who may retire a session row

Over any interleaving of requests a session row keeps its id, owner, hash, expiry and method, and an
inactive row stays inactive (`World.run_le`). The ids a save marks inactive are those of sessions
the request loaded, so they are rows of the user it acts for, however the tables changed in between
(`retiresOwn`). `sessions_only_retire` puts the two together.
-/

namespace AppHome

open Interleave

theorem Call.Decides.session_loaded {st : AppState} {c : Call} {a : UserAggregate}
    {p : Plan Response} (h : c.Decides st a p) {s : Session} (hs : s ∈ p.aggregate.sessions) :
    ∃ t ∈ a.sessions, t.id = s.id := by
  have hfirst : ∀ sid, s ∈ UserAggregate.invalidateFirst sid a.sessions →
      ∃ t ∈ a.sessions, t.id = s.id := by
    intro sid hs
    rcases UserAggregate.mem_invalidateFirst hs with hs | ⟨hid, -, t, ht, htid⟩
    · exact ⟨s, hs, rfl⟩
    · exact ⟨t, ht, htid.trans hid.symm⟩
  cases h with
  | opens => exact ⟨s, hs, rfl⟩
  | rotates => exact hfirst _ hs
  | closes => exact hfirst _ hs
  | reuses =>
      change s ∈ (UserAggregate.invalidateAll a.user.id a.sessions).1 at hs
      rw [UserAggregate.invalidateAll_fst] at hs
      obtain ⟨t, ht, rfl⟩ := List.mem_map.mp hs
      exact ⟨t, ht, rfl⟩

section Ownership
variable (st : AppState) (calls : Nat → Call)

/-- The rows a save marks inactive belong to the user its request acts for. -/
def retiresOwn (i : Nat) (w : World) : Op → Prop
  | .saveAggregate a _ _ => ∀ r ∈ w.db.sessions.rows, r.id ∈ Db.invalidatedIds a →
      (calls i).ActsFor st w.db r.userId
  | _ => True

variable {st calls}

theorem ownership_obligations (i : Nat) :
    (calls i).Obligations st (sharedContract (retiresOwn st calls)) i (fun _ => True)
      (fun _ _ => True) where
  le := id
  rely := fun _ h => h
  load := by
    intro w o _ ho
    cases o with
    | saveAggregate a news now => cases ho
    | _ => trivial
  create := fun h _ => h
  error := fun _ _ => trivial
  commit := fun _ _ _ _ _ _ => trivial
  lost := fun _ _ _ _ _ _ _ => trivial
  save := by
    intro w₀ w a p _ hload hacts hdec hle r hr hid
    obtain ⟨s, hs, hsid, -⟩ := Db.mem_invalidatedIds.mp hid
    obtain ⟨t, ht, htid⟩ := hdec.session_loaded hs
    obtain ⟨r₀, hr₀, hu, hd⟩ := hload.row_of_mem ht
    obtain ⟨r', hr', hrle⟩ := hle.db.sessions r₀ hr₀
    -- the row loaded and the row about to be retired have the same id, so they are the same row
    have hkey : r'.id = r.id := by
      rw [hrle.id, ← (SessionRow.intoSession_ok hd).1, htid, hsid]
    have hrr : r = r' := (Table.eq_of_key hr' hr hkey).symm
    have hown : r.userId = a.user.id := by rw [hrr, hrle.userId, hu]
    rw [hown]
    exact hacts.mono st hle.db

/-- Whatever the schedule, the next operation of every request keeps to its own user's rows. -/
theorem retiresOwn_run {w : World} {l : List (Label Fate Consume)} {i : Nat} {o : Op}
    {k : Res o → RequestProg} (hi : (machine.run (system st calls w) l).thread i = .op o k) :
    retiresOwn st calls i (machine.run (system st calls w) l).shared o :=
  system_guar ownership_obligations (fun _ _ _ _ _ h => h) trivial (along_true machine _ l) hi

theorem World.run_le (c : Config) (l : List (Label Fate Consume)) :
    c.shared.Le (machine.run c l).shared :=
  run_rel .refl .trans World.exec_le World.consume_le c l

/-- The operation that made a row inactive is a save of something that holds it inactive. -/
theorem World.exec_retires {w : World} {i : Nat} {o : Op} {f : Fate} {r r' : SessionRow}
    (hr : r ∈ w.db.sessions.rows) (hactive : r.isActive = true)
    (hr' : r' ∈ (w.exec i o f).2.db.sessions.rows) (hid : r'.id = r.id) (hi : r'.isActive = false) :
    ∃ a news now, o = .saveAggregate a news now ∧ r.id ∈ Db.invalidatedIds a := by
  have hsame : r' ∉ w.db.sessions.rows := by
    intro h
    rw [Table.eq_of_key h hr hid, hactive] at hi
    cases hi
  refine World.exec_rule (P := fun w' => r' ∈ w'.db.sessions.rows →
    ∃ a news now, o = .saveAggregate a news now ∧ r.id ∈ Db.invalidatedIds a) f ?_ ?_ ?_ ?_ hr'
  · exact fun h => absurd h hsame
  · exact fun _ _ h => absurd h hsame
  · intro u id now user db _ hdb h
    exact absurd ((Db.create_ok hdb).1 ▸ h) hsame
  · rintro a news now db rfl hdb h
    refine ⟨a, news, now, rfl, ?_⟩
    by_contra hnot
    have hmem : r ∈ db.sessions.rows := by
      rw [(Db.saveAggregate_ok hdb).2, ← SessionRow.retire_eq_self hnot]
      exact List.mem_map_of_mem (List.mem_append_left _ hr)
    rw [Table.eq_of_key h hmem hid, hactive] at hi
    cases hi

/-- **Session rows only go from active to inactive, and only by their owner.** Between any two
points of any run every row keeps its columns and an inactive one stays inactive; and a move that
makes a row inactive is a save by a request that acts for the row's user. -/
theorem sessions_only_retire (st : AppState) (calls : Nat → Call) (db : Db)
    (l : List (Label Fate Consume)) :
    (∀ l' : List (Label Fate Consume),
      ∀ r ∈ (machine.run (system st calls (.init db)) l).shared.db.sessions.rows,
      ∃ r', (machine.run (system st calls (.init db)) (l ++ l')).shared.db.sessions.find? r.id =
        some r' ∧
        r'.userId = r.userId ∧ r'.refreshTokenHash = r.refreshTokenHash ∧
        r'.expiresAt = r.expiresAt ∧
        r'.authMethod = r.authMethod ∧ (r.isActive = false → r'.isActive = false)) ∧
    (∀ (move : Label Fate Consume) (r r' : SessionRow),
      r ∈ (machine.run (system st calls (.init db)) l).shared.db.sessions.rows → r.isActive = true →
      r' ∈ (machine.run (system st calls (.init db)) (l ++ [move])).shared.db.sessions.rows →
      r'.id = r.id → r'.isActive = false →
      ∃ i fate a news now k, move = .run i fate ∧
        (machine.run (system st calls (.init db)) l).thread i = .op (.saveAggregate a news now) k ∧
        (calls i).ActsFor st (machine.run (system st calls (.init db)) l).shared.db r.userId) := by
  constructor
  · intro l' r hr
    rw [run_append]
    obtain ⟨r', hr', hle⟩ := (World.run_le (machine.run (system st calls (.init db)) l) l').db.find
      (Table.find?_eq_some.mpr ⟨hr, rfl⟩)
    exact ⟨r', hr', hle.userId, hle.refreshTokenHash, hle.expiresAt, hle.authMethod, hle.isActive⟩
  · intro move r r' hr hactive hr' hid hi
    rw [run_append, run_cons, run_nil] at hr'
    have hsame :
        (machine.step (machine.run (system st calls (.init db)) l) move).shared.db.sessions =
        (machine.run (system st calls (.init db)) l).shared.db.sessions → False := by
      intro h
      rw [h] at hr'
      rw [Table.eq_of_key hr' hr hid, hactive] at hi
      cases hi
    cases move with
    | ext e => exact absurd (congrArg Db.sessions (World.consume_db _ e)) hsame
    | run i f =>
        cases ht : (machine.run (system st calls (.init db)) l).thread i with
        | ret a => exact absurd (by rw [step_ret machine f ht]) hsame
        | op o k =>
            rw [step_op machine f ht] at hr'
            obtain ⟨a, news, now, rfl, hids⟩ := World.exec_retires hr hactive hr' hid hi
            exact ⟨i, f, a, news, now, k, rfl, ht, retiresOwn_run ht r hr hids⟩

end Ownership

end AppHome
