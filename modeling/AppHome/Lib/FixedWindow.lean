import Mathlib

/-!
# Admissions counted in fixed windows

A counter admits at most `k` events in each window of length `w`; a window starts at its first event
and the next one cannot start before it is over. The windows do not line up with an arbitrary
interval, so an interval of length `w` may see events of two of them.

* `within a b times` : how many of the times lie in `[a, b)`;
* `Log w k times start used` : `times` were admitted, the latest window starts at `start`, and
  `used` of its budget is gone. The event that opens a window uses up some of the budget
  (`Log.open_le`), which is why the window that is cut by the left end of an interval has at most
  `k - 1` admissions inside;
* `Log.grant`, `Log.use`, `Log.renew` : the steps of such a counter keep the log;
* `Log.within_le` : every interval of length `w` holds at most `2 * k - 1` admissions.
-/

namespace FixedWindow

section Count
variable {τ : Type} [LinearOrder τ]

/-- How many of the times lie in `[a, b)`. -/
def within (a b : τ) (times : List τ) : Nat := times.countP fun t => a ≤ t ∧ t < b

/-- How many of the times are `a` or later. -/
def since (a : τ) (times : List τ) : Nat := times.countP fun t => a ≤ t

/-- How many of the times are later than `a`. -/
def after (a : τ) (times : List τ) : Nat := times.countP fun t => a < t

variable {a b c t : τ} {times : List τ}

theorem within_le_since : within a b times ≤ since a times := by
  refine List.countP_mono_left fun t _ h => ?_
  simp only [decide_eq_true_eq] at h ⊢
  exact h.1

theorem since_le_after (h : b < a) : since a times ≤ after b times := by
  refine List.countP_mono_left fun t _ ht => ?_
  simp only [decide_eq_true_eq] at ht ⊢
  exact lt_of_lt_of_le h ht

theorem after_le_since : after a times ≤ since a times := by
  refine List.countP_mono_left fun t _ ht => ?_
  simp only [decide_eq_true_eq] at ht ⊢
  exact ht.le

/-- An interval splits at any point. -/
theorem within_le_add : within a b times ≤ within a c times + since c times := by
  induction times with
  | nil => simp [within, since]
  | cons t times ih =>
      simp only [within, since, List.countP_cons, decide_eq_true_eq] at ih ⊢
      by_cases hc : c ≤ t
      · simp only [hc, if_true]
        split_ifs <;> omega
      · have hlt : t < c := not_le.mp hc
        simp only [hlt, hc, and_true, if_false]
        split_ifs with h1 h2
        · omega
        · exact absurd h1.1 h2
        · omega
        · omega

theorem since_eq_zero (h : ∀ t ∈ times, t < a) : since a times = 0 := by
  rw [since, List.countP_eq_zero]
  intro t ht
  simpa using h t ht

theorem within_append_of_le (h : b ≤ t) : within a b (times ++ [t]) = within a b times := by
  simp [within, List.countP_append, not_lt.mpr h]

theorem since_append_of_le (h : a ≤ t) : since a (times ++ [t]) = since a times + 1 := by
  simp [since, List.countP_append, h]

theorem after_append_le : after a (times ++ [t]) ≤ after a times + 1 := by
  rw [after, List.countP_append]
  exact Nat.add_le_add_left List.countP_le_length _

theorem after_append_self : after t (times ++ [t]) = after t times := by
  simp [after, List.countP_append]

end Count

section Log
variable {τ : Type} [AddCommGroup τ] [LinearOrder τ]

/-- The admissions of a fixed-window counter whose latest window starts at `start`. -/
structure Log (w : τ) (k : Nat) (times : List τ) (start : τ) (used : Nat) : Prop where
  lt_end : ∀ t ∈ times, t < start + w
  past : ∀ a, a + w ≤ start → within a (a + w) times ≤ 2 * k - 1
  previous : ∀ a, start < a + w → within a start times + 1 ≤ k
  since_le : since start times ≤ min used k
  open_le : after start times + 1 ≤ min used k

variable {w : τ} {k : Nat} {times : List τ} {start : τ} {used : Nat}

/-- **Every interval of the length of a window holds at most `2 * k - 1` admissions.** -/
theorem Log.within_le (h : Log w k times start used) (a : τ) :
    within a (a + w) times ≤ 2 * k - 1 := by
  have hopen := h.open_le
  have hsince := h.since_le
  rcases lt_or_ge start a with hlt | hle
  · -- the interval starts after the event that opened the latest window
    have h1 : within a (a + w) times ≤ since a times := within_le_since
    have h2 : since a times ≤ after start times := since_le_after hlt
    omega
  · rcases le_or_gt (a + w) start with hpast | hin
    · exact h.past a hpast
    · have h1 : within a (a + w) times ≤ within a start times + since start times := within_le_add
      have h2 := h.previous a hin
      omega

theorem Log.grant (h : Log w k times start used) {t : τ} (hstart : start ≤ t) (hend : t < start + w)
    (hused : used < k) : Log w k (times ++ [t]) start (used + 1) where
  lt_end := by
    intro t' ht'
    rcases List.mem_append.mp ht' with ht' | ht'
    · exact h.lt_end t' ht'
    · rwa [List.mem_singleton.mp ht']
  past := by
    intro a ha
    rw [within_append_of_le (ha.trans hstart)]
    exact h.past a ha
  previous := by
    intro a ha
    rw [within_append_of_le hstart]
    exact h.previous a ha
  since_le := by
    have hsince := h.since_le
    rw [since_append_of_le hstart]
    omega
  open_le := by
    have hopen := h.open_le
    have hle : after start (times ++ [t]) ≤ after start times + 1 := after_append_le
    omega

theorem Log.use (h : Log w k times start used) {used' : Nat} (hused : used ≤ used') :
    Log w k times start used' where
  lt_end := h.lt_end
  past := h.past
  previous := h.previous
  since_le := h.since_le.trans (min_le_min_right k hused)
  open_le := h.open_le.trans (min_le_min_right k hused)

/-- The first window, which some event opened at `start` without an admission. -/
theorem Log.first (hk : 1 ≤ k) (start : τ) : Log w k [] start 1 where
  lt_end := fun t ht => by cases ht
  past := fun a _ => by simp [within]
  previous := fun a _ => by simpa [within] using hk
  since_le := by simp [since]
  open_le := by simpa [after] using hk

variable [IsOrderedAddMonoid τ]

/-- A window that is over is followed by a new one, opened by an event that is not an admission. -/
theorem Log.renew (h : Log w k times start used) {t : τ} (hw : 0 < w) (ht : start + w ≤ t) :
    Log w k times t 1 where
  lt_end := fun t' ht' => (h.lt_end t' ht').trans_le (ht.trans (le_add_of_nonneg_right hw.le))
  past := fun a _ => h.within_le a
  previous := by
    intro a ha
    have hlt : start < a := lt_of_add_lt_add_right (ht.trans_lt ha)
    have hopen := h.open_le
    have h1 : within a t times ≤ since a times := within_le_since
    have h2 : since a times ≤ after start times := since_le_after hlt
    omega
  since_le := by
    rw [since_eq_zero fun t' ht' => (h.lt_end t' ht').trans_le ht]
    exact Nat.zero_le _
  open_le := by
    have hopen := h.open_le
    have hzero : since t times = 0 := since_eq_zero fun t' ht' => (h.lt_end t' ht').trans_le ht
    have hle : after t times ≤ since t times := after_le_since
    omega

theorem Log.renew_grant (h : Log w k times start used) {t : τ} (hw : 0 < w) (ht : start + w ≤ t) :
    Log w k (times ++ [t]) t 1 where
  lt_end := by
    intro t' ht'
    rcases List.mem_append.mp ht' with ht' | ht'
    · exact (h.renew hw ht).lt_end t' ht'
    · rw [List.mem_singleton.mp ht']
      exact lt_add_of_pos_right t hw
  past := by
    intro a ha
    rw [within_append_of_le ha]
    exact h.within_le a
  previous := by
    intro a ha
    rw [within_append_of_le le_rfl]
    exact (h.renew hw ht).previous a ha
  since_le := by
    have hopen := h.open_le
    rw [since_append_of_le le_rfl, since_eq_zero fun t' ht' => (h.lt_end t' ht').trans_le ht]
    omega
  open_le := by
    rw [after_append_self]
    exact (h.renew hw ht).open_le

theorem Log.first_grant (hk : 1 ≤ k) (hw : 0 < w) (start : τ) : Log w k [start] start 1 := by
  have h : Log w k [] (start - w) 1 := Log.first hk (start - w)
  exact h.renew_grant hw (by rw [sub_add_cancel])

end Log

end FixedWindow
