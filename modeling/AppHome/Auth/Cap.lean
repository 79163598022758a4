import AppHome.Auth.Sequential

/-!
# The session cap over whole runs

Only `add_session` counts. `rotate_session` inserts without a check, but it retires a session that
was live at its own clock reading; if that session has expired by a later moment, it is also missing
from the count there. So the invariant is about every later moment at once: from the last check on,
the live rows of a user number at most `maxActiveSessions` (`Capped`), and every request carries it
from its start to its own last check (`Capped.commit`, `session_cap`).
-/

namespace AppHome

open Interleave

/-- A row of `userId` that is active and unexpired at `t`. -/
def SessionRow.live (userId : Uuid) (t : Instant) (r : SessionRow) : Bool :=
  r.userId = userId && (r.isActive && t < r.expiresAt)

def Db.liveCount (db : Db) (userId : Uuid) (t : Instant) : Nat :=
  db.sessions.rows.countP (SessionRow.live userId t)

theorem countP_lt_countP {α : Type} {p q : α → Bool} {l : List α} {x : α} (hle : ∀ y ∈ l, p y → q y)
    (hx : x ∈ l) (hq : q x = true) (hp : p x = false) : l.countP p < l.countP q := by
  induction l with
  | nil => cases hx
  | cons y l ih =>
      have htail : ∀ z ∈ l, p z → q z := fun z hz => hle z (List.mem_cons_of_mem y hz)
      rcases List.mem_cons.mp hx with rfl | hx
      · rw [List.countP_cons_of_neg (by rw [hp]; decide), List.countP_cons_of_pos hq]
        exact Nat.lt_succ_of_le (List.countP_mono_left htail)
      · have hlt := ih htail hx
        by_cases hy : p y = true
        · rw [List.countP_cons_of_pos hy, List.countP_cons_of_pos (hle y List.mem_cons_self hy)]
          omega
        · rw [List.countP_cons_of_neg hy, List.countP_cons]
          omega

theorem SessionRow.live_retire (userId : Uuid) (t : Instant) (ids : List Uuid) (r : SessionRow) :
    (r.retire ids).live userId t = (r.live userId t && !decide (r.id ∈ ids)) := by
  unfold SessionRow.retire SessionRow.live
  split <;> simp_all

theorem SessionRow.live_earlier {userId : Uuid} {t t' : Instant} (h : t' ≤ t) {r : SessionRow}
    (hr : r.live userId t = true) : r.live userId t' = true := by
  unfold SessionRow.live at hr ⊢
  simp only [Bool.and_eq_true, decide_eq_true_eq] at hr ⊢
  exact ⟨hr.1, hr.2.1, lt_of_le_of_lt h hr.2.2⟩

/-- What a committed save leaves live: the live rows it does not mark, and the inserted ones. -/
theorem Db.liveCount_save {db db' : Db} {a : UserAggregate} {news : List NewSession}
    {now : Nat → Instant} (h : db.saveAggregate a news now = .ok db') (userId : Uuid)
    (t : Instant) :
    db'.liveCount userId t ≤
      db.sessions.rows.countP (fun r => r.live userId t && !decide (r.id ∈ Db.invalidatedIds a)) +
        (newRows news.zipIdx now).countP (SessionRow.live userId t) := by
  have hret : (SessionRow.live userId t ∘ SessionRow.retire (Db.invalidatedIds a)) =
      fun r => r.live userId t && !decide (r.id ∈ Db.invalidatedIds a) := by
    funext r
    exact SessionRow.live_retire ..
  unfold Db.liveCount
  rw [(Db.saveAggregate_ok h).2, List.countP_map, hret, List.countP_append]
  refine Nat.add_le_add_left (List.countP_mono_left fun r _ hr => ?_) _
  exact (Bool.and_eq_true_iff.mp hr).1

/-- Whether a decoded row is live at `t`. -/
def liveResult (t : Instant) : Except AuthError Session → Bool
  | .ok s => s.isActive && decide (t < s.expiresAt)
  | .error _ => false

theorem Db.Loads.liveCount_eq {db : Db} {a : UserAggregate} (h : db.Loads a) (t : Instant) :
    db.liveCount a.user.id t = a.sessions.countP fun s =>
      s.isActive && decide (t < s.expiresAt) := by
  have hrow : ∀ r ∈ db.sessions.rows.filter fun r => r.userId = a.user.id,
      (r.isActive && decide (t < r.expiresAt)) = liveResult t r.intoSession := by
    intro r hr
    obtain ⟨hmem, hu⟩ := List.mem_filter.mp hr
    obtain ⟨s, -, hd⟩ := h.mem_of_row hmem (of_decide_eq_true hu)
    obtain ⟨-, -, -, hexp, hact, -⟩ := SessionRow.intoSession_ok hd
    rw [hd, liveResult, hexp, hact]
  calc db.liveCount a.user.id t
      = (db.sessions.rows.filter fun r => r.userId = a.user.id).countP
          (fun r => r.isActive && decide (t < r.expiresAt)) := by
        rw [List.countP_filter]
        exact List.countP_congr fun r _ => by simp [SessionRow.live, and_comm]
    _ = ((db.sessions.rows.filter fun r => r.userId = a.user.id).map
          SessionRow.intoSession).countP (liveResult t) := by
        rw [List.countP_map]
        exact List.countP_congr fun r hr => by rw [hrow r hr, Function.comp_apply]
    _ = (a.sessions.map Except.ok).countP (liveResult t) := h.rows.symm.countP_eq _
    _ = a.sessions.countP fun s => s.isActive && decide (t < s.expiresAt) := by
        rw [List.countP_map]
        rfl

/-- What is live after every reading of `add_session` was live when it counted. -/
theorem UserAggregate.countP_le_activeCount (a : UserAggregate) {now : Nat → Instant} {t : Instant}
    (ht : ∀ i, now i ≤ t) :
    (a.sessions.countP fun s => s.isActive && decide (t < s.expiresAt)) ≤ a.activeCount now := by
  have hfst : (a.sessions.countP fun s => s.isActive && decide (t < s.expiresAt)) =
      a.sessions.zipIdx.countP fun p => p.1.isActive && decide (t < p.1.expiresAt) := by
    conv_lhs => rw [← List.zipIdx_map_fst 0 a.sessions]
    rw [List.countP_map]
    rfl
  unfold UserAggregate.activeCount
  rw [hfst, ← List.countP_eq_length_filter]
  refine List.countP_mono_left fun p _ hp => ?_
  have hi := ht p.2
  simp only [Session.isExpired, Bool.and_eq_true, decide_eq_true_eq, Bool.not_eq_true',
    decide_eq_false_iff_not] at hp ⊢
  exact ⟨hp.1, not_le.mpr (lt_of_le_of_lt hi hp.2)⟩

/-! ## The invariant -/

/-- From `t` on, the user has at most `maxActiveSessions` live rows. -/
def Capped (userId : Uuid) (t : Instant) (db : Db) : Prop :=
  ∀ t', t ≤ t' → db.liveCount userId t' ≤ maxActiveSessions

theorem Capped.later {userId : Uuid} {t t' : Instant} {db : Db} (h : Capped userId t db)
    (ht : t ≤ t') :
    Capped userId t' db := fun u hu => h u (ht.trans hu)

theorem Capped.of_sessions {userId : Uuid} {t : Instant} {db db' : Db} (h : Capped userId t db)
    (hs : db'.sessions = db.sessions) : Capped userId t db' := by
  intro u hu
  unfold Db.liveCount
  rw [hs]
  exact h u hu

section Commit
variable {st : AppState} {c : Call} {a : UserAggregate} {db db' : Db} {userId : Uuid}
  {t t' : Instant}

/-- One row is inserted, and it is the acting user's: only that user needs room for it. -/
theorem add_newRow_le {n : Nat} {hash : HashedPassword} {method : AuthMethod} {now : Nat → Instant}
    (hn : n ≤ maxActiveSessions) (hroom : a.user.id = userId → n < maxActiveSessions) :
    n + (newRows [c.newSession st a.user.id hash method].zipIdx now).countP
      (SessionRow.live userId t) ≤
      maxActiveSessions := by
  by_cases hu : a.user.id = userId
  · have hone : (newRows [c.newSession st a.user.id hash method].zipIdx now).countP
        (SessionRow.live userId t) ≤ 1 := List.countP_le_length
    have hlt := hroom hu
    omega
  · have hzero : (newRows [c.newSession st a.user.id hash method].zipIdx now).countP
        (SessionRow.live userId t) = 0 := by
      simp [newRows, Call.newSession, NewSession.row, SessionRow.live, hu]
    omega

theorem countP_unmarked_le (db : Db) (userId : Uuid) (t : Instant) (ids : List Uuid) :
    (db.sessions.rows.countP fun r => r.live userId t && !decide (r.id ∈ ids)) ≤
      db.liveCount userId t :=
  List.countP_mono_left fun _ _ hr => (Bool.and_eq_true_iff.mp hr).1

/-- A row that was live at an earlier moment and is marked now makes room for one. -/
theorem countP_unmarked_lt {ids : List Uuid} {r : SessionRow} (hr : r ∈ db.sessions.rows)
    (hlive : r.live userId t = true) (hid : r.id ∈ ids) (ht : t ≤ t') :
    (db.sessions.rows.countP fun r => r.live userId t' && !decide (r.id ∈ ids)) <
      db.liveCount userId t := by
  refine countP_lt_countP (fun y _ hy => ?_) hr hlive (by simp [hid])
  exact SessionRow.live_earlier ht (Bool.and_eq_true_iff.mp hy).1

/-- **Every decision keeps the cap**, from the clock readings it was based on. -/
theorem Capped.commit {p : Plan Response} (h : Capped userId t db) (hload : db.Loads a)
    (hdec : c.Decides st a p) (hclock : ∀ i, t ≤ c.env.checkAt i ∧ c.env.checkAt i ≤ t')
    (hdb : db.saveAggregate p.aggregate p.newSessions c.env.insertAt = .ok db') :
    Capped userId t' db' := by
  intro u hu
  have hcheck : ∀ i, c.env.checkAt i ≤ u := fun i => (hclock i).2.trans hu
  have hbefore : db.liveCount userId u ≤ maxActiveSessions := h u ((hclock 0).1.trans (hcheck 0))
  have hunmarked := (countP_unmarked_le db userId u (Db.invalidatedIds p.aggregate)).trans hbefore
  refine (Db.liveCount_save hdb userId u).trans ?_
  cases hdec with
  | reuses => exact hunmarked
  | closes => exact hunmarked
  | opens hm hcap ho =>
      refine add_newRow_le hunmarked fun hu => lt_of_le_of_lt ?_ hcap
      subst hu
      calc _ ≤ db.liveCount a.user.id u := countP_unmarked_le ..
        _ = _ := hload.liveCount_eq u
        _ ≤ a.activeCount c.env.checkAt := a.countP_le_activeCount hcheck
  | rotates hr hv hum hm hs hactive hexp =>
      refine add_newRow_le hunmarked fun hu => ?_
      subst hu
      obtain ⟨hmem, hid⟩ := UserAggregate.find_session hs
      obtain ⟨r, hrow, hru, hd⟩ := hload.row_of_mem hmem
      obtain ⟨hrid, -, -, hrexp, hract, -⟩ := SessionRow.intoSession_ok hd
      have hlive : r.live a.user.id (c.env.checkAt 0) = true := by
        simp only [SessionRow.live, hru, ← hract, hactive, ← hrexp, hexp, decide_true,
          Bool.and_self]
      refine lt_of_lt_of_le (countP_unmarked_lt hrow hlive ?_ (hcheck 0)) (h _ (hclock 0).1)
      rw [← hrid, hid]
      exact Db.mem_invalidatedIds_retired hs

end Commit

/-! ## Runs -/

/-- A request with the fates of its operations. -/
structure Turn where
  call : Call
  fates : Nat → Fate

/-- The clock does not run backwards from `t` to `t'`: every reading a request compares an expiry
with lies between the end of the request before it and its own. -/
def Clocked : Instant → List Turn → Instant → Prop
  | t, [], t' => t ≤ t'
  | t, turn :: run, t' =>
    ∃ u, (∀ i, t ≤ turn.call.env.checkAt i ∧ turn.call.env.checkAt i ≤ u) ∧ Clocked u run t'

def serveRun (st : AppState) (w : World) (run : List Turn) : World :=
  run.foldl (fun w turn => (machine.alone 0 (turn.call.run st) w turn.fates).2) w

/-- Nobody else moves; `P` is what holds wherever the request performs an operation. -/
def aloneContract (P : World → Prop) : Contract World Op := ⟨fun _ => Eq, fun _ w _ => P w⟩

theorem stops_sessions (st : AppState) (c : Call) (w₀ : World) (f : Nat → Fate) :
    ∀ w ∈ machine.stops 0 (c.run st) w₀ f, w.db.sessions = w₀.db.sessions := by
  have hob : c.Obligations st (aloneContract fun w => w.db.sessions = w₀.db.sessions) 0
      (fun w => w.db.sessions = w₀.db.sessions) (fun _ _ => True) := by
    refine ⟨fun h => h ▸ .refl _, fun h hw => h ▸ hw, fun hw _ => hw, ?_, fun _ _ => trivial, ?_,
      fun _ _ _ _ _ _ => trivial, fun _ _ _ _ _ _ _ => trivial⟩
    · intro w u id now user db hw hdb
      exact (Db.create_ok hdb).1.trans hw
    · rintro w₁ w a p hw _ _ _ rfl
      exact hw
  exact stops_wp (fun _ => rfl) (fun _ _ h => h) f (hob.wp_run rfl)

theorem capped_obligations (st : AppState) (c : Call) {userId : Uuid} {t t' : Instant} {w₀ : World}
    (h : Capped userId t w₀.db) (hclock : ∀ i, t ≤ c.env.checkAt i ∧ c.env.checkAt i ≤ t') :
    c.Obligations st (aloneContract fun _ => True) 0 (fun w => w.db.sessions = w₀.db.sessions)
      (fun _ w => Capped userId t' w.db) := by
  have htt : t ≤ t' := (hclock 0).1.trans (hclock 0).2
  refine ⟨fun h => h ▸ .refl _, fun h hw => h ▸ hw, fun _ _ => trivial, ?_, ?_,
    fun _ _ _ _ _ => trivial, ?_, ?_⟩
  · intro w u id now user db hw hdb
    exact (Db.create_ok hdb).1.trans hw
  · exact fun e hw => (h.of_sessions hw).later htt
  · rintro w₁ w a p db hw hload _ hdec rfl hdb
    exact (h.of_sessions hw).commit hload hdec hclock hdb
  · rintro w₁ w a p db e hw hload _ hdec rfl hdb
    exact (h.of_sessions hw).commit hload hdec hclock hdb

theorem capped_run (st : AppState) {userId : Uuid} {w : World} {run : List Turn} {t t' : Instant}
    (h : Capped userId t w.db) (hclock : Clocked t run t') :
    Capped userId t' (serveRun st w run).db := by
  induction run generalizing w t with
  | nil => exact h.later hclock
  | cons turn run ih =>
      obtain ⟨u, hread, hrest⟩ := hclock
      exact ih (alone_wp (fun _ => rfl) turn.fates
        ((capped_obligations st turn.call h hread).wp_run rfl))
        hrest

/-- **The session cap holds over whole runs.** Serve any requests one at a time, with any storage
failures, under a clock that does not run backwards, from a database in which the user has no
sessions. At every moment from the last check on, the user's active and unexpired rows number at
most `maxActiveSessions`; so they do at every step of the request that comes next, up
to its save. -/
theorem session_cap (st : AppState) (db : Db) (userId : Uuid)
    (hnone : ∀ r ∈ db.sessions.rows, r.userId ≠ userId) (run : List Turn) (t t' : Instant)
    (hclock : Clocked t run t') :
    (∀ now, t' ≤ now → (serveRun st (.init db) run).db.liveCount userId now ≤ maxActiveSessions) ∧
    (∀ (next : Turn) (w : World),
      w ∈ machine.stops 0 (next.call.run st) (serveRun st (.init db) run) next.fates →
      ∀ now, t' ≤ now → w.db.liveCount userId now ≤ maxActiveSessions) := by
  have hstart : Capped userId t (World.init db).db := by
    intro u _
    have hzero : db.liveCount userId u = 0 :=
      List.countP_eq_zero.mpr fun r hr => by simp [SessionRow.live, hnone r hr]
    exact hzero.le.trans (Nat.zero_le _)
  have hrun := capped_run st hstart hclock
  exact ⟨hrun, fun next w hw => hrun.of_sessions (stops_sessions st next.call _ next.fates w hw)⟩

/-- A user without sessions logs in and refreshes. -/
def loginThenRefresh : List Turn :=
  [⟨⟨plainEnv 7 5, .loginWithPassword "jdoe" [0]⟩, fun _ => .done⟩,
    ⟨⟨plainEnv 10 6, .refreshToken (plainToken 1 7)⟩, fun _ => .done⟩]

theorem session_cap_jdoe :
    (serveRun plainState (.init { plainDb with sessions := .empty })
      loginThenRefresh).db.liveCount 1 6 = 1 ∧
    (serveRun plainState (.init { plainDb with sessions := .empty })
      loginThenRefresh).db.liveCount 1 6 ≤ maxActiveSessions := by
  have hclock : Clocked 0 loginThenRefresh 6 :=
    ⟨5, fun _ => (by decide : (0 : Int) ≤ 5 ∧ (5 : Int) ≤ 5), 6,
      fun _ => (by decide : (5 : Int) ≤ 6 ∧ (6 : Int) ≤ 6), le_refl _⟩
  exact ⟨by decide, (session_cap plainState { plainDb with sessions := .empty } 1 (by decide)
    loginThenRefresh 0 6 hclock).1 6 (le_refl _)⟩

end AppHome
