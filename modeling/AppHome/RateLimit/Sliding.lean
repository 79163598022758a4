import AppHome.Lib.FixedWindow
import AppHome.RateLimit.Memory

/-!
# The memory limiter over sliding intervals

The limiter counts in windows that start at an address's first attempt. `sliding_bound` says what
that gives for an arbitrary interval of the length of a window: at most `2 * max_attempts - 1`
admissions, as long as the `u32` counter of a window does not wrap.

* `admissions` : the times at which `try_check_and_record` let an address through;
* `Logged` : the admissions so far are the log of a fixed-window counter (`FixedWindow.Log`), whose
  latest window is the one of the address's entry, or is over when the entry has been swept;
* `Logged.clean`, `Logged.attempt`, `logged_call` : one call keeps it.
-/

namespace AppHome

open FixedWindow

namespace MemoryRateLimiter

/-- The time of a call of `try_check_and_record` for `ip` that is answered `true`. -/
def admitted (ip : IpAddr) (l : MemoryRateLimiter) (c : RateCall) : List Instant :=
  if c.method = .tryCheckAndRecord ∧ c.ip = ip ∧ (l.call c).1 = .allowed true then [c.now] else []

/-- The times at which calls of `try_check_and_record` for `ip` were answered `true`. -/
def admissions (ip : IpAddr) (l : MemoryRateLimiter) : List RateCall → List Instant
  | [] => []
  | c :: calls => admitted ip l c ++ admissions ip (l.call c).2 calls

/-- The attempts of `ip` in `[a, b)` that its entry has counted: the calls of `record_attempt` and
the admissions. -/
def countedIn (done : List RateCall) (times : List Instant) (ip : IpAddr) (a b : Instant) : Nat :=
  done.countP (fun c => c.method = .recordAttempt && c.ip = ip && a ≤ c.now && c.now < b) +
    within a b times

theorem countedIn_le_append (done done' : List RateCall) (times times' : List Instant)
    (ip : IpAddr) (a b : Instant) :
    countedIn done times ip a b ≤ countedIn (done ++ done') (times ++ times') ip a b := by
  simp only [countedIn, within, List.countP_append]
  omega

theorem countedIn_le_call {done : List RateCall} {times : List Instant} {ip : IpAddr}
    {a b : Instant} (c : RateCall) :
    countedIn done times ip a b ≤ countedIn (done ++ [c]) times ip a b := by
  have hle := countedIn_le_append done [c] times [] ip a b
  rwa [List.append_nil] at hle

theorem countedIn_record {done : List RateCall} {times : List Instant} {c : RateCall}
    {a b : Instant} (hc : c.method = .recordAttempt) (ha : a ≤ c.now) (hb : c.now < b) :
    countedIn (done ++ [c]) times c.ip a b = countedIn done times c.ip a b + 1 := by
  have hone : [c].countP
      (fun d => d.method = .recordAttempt && d.ip = c.ip && a ≤ d.now && d.now < b) = 1 := by
    simp [hc, ha, hb]
  rw [countedIn, countedIn, List.countP_append, hone]
  omega

theorem countedIn_grant {done : List RateCall} {times : List Instant} {ip : IpAddr} (c : RateCall)
    {t a b : Instant} (ha : a ≤ t) (hb : t < b) :
    countedIn done times ip a b + 1 ≤ countedIn (done ++ [c]) (times ++ [t]) ip a b := by
  have hone : within a b [t] = 1 := by simp [within, ha, hb]
  have hle : countedIn done times ip a b ≤ countedIn (done ++ [c]) times ip a b :=
    countedIn_le_call c
  simp only [countedIn, within, List.countP_append] at hone hle ⊢
  omega

/-- The latest window of `ip` in the log is the one of its entry, or it is over. -/
inductive Tracks (l : MemoryRateLimiter) (ip : IpAddr) (done : List RateCall) (now : Instant)
    (times : List Instant)
    (start : Instant) (used : Nat) : Prop
  | current (he : l.entryOf ip = some ⟨used, start⟩)
      (hused : used ≤ countedIn done times ip start (start + l.windowDuration))
  | ended (he : l.entryOf ip = none) (hend : start + l.windowDuration ≤ now)

/-- What the calls `done` up to the reading `now` have left: `times` are the admissions of `ip`. -/
inductive Logged (l : MemoryRateLimiter) (ip : IpAddr) (done : List RateCall) (now : Instant) :
    List Instant → Prop
  | idle (he : l.entryOf ip = none) : Logged l ip done now []
  | window {times : List Instant} {start : Instant} {used : Nat}
      (hlog : Log l.windowDuration l.maxAttempts times start used) (hstart : start ≤ now)
      (ht : l.Tracks ip done now times start used) : Logged l ip done now times

variable {l : MemoryRateLimiter} {ip : IpAddr} {done : List RateCall} {now : Instant}
  {times : List Instant}

theorem Logged.clean (hw : 0 < l.windowDuration) (h : l.Logged ip done now times) {t : Instant}
    (ht : now ≤ t) :
    (l.cleanExpired t).Logged ip done t times := by
  cases h with
  | idle he => exact .idle (by rw [entryOf_cleanExpired, he]; rfl)
  | @window times start used hlog hstart htr =>
      refine .window hlog (hstart.trans ht) ?_
      cases htr with
      | ended he hend => exact .ended (by rw [entryOf_cleanExpired, he]; rfl) (hend.trans ht)
      | current he hused =>
          cases hel : l.elapsed t ⟨used, start⟩ with
          | false => exact .current (by rw [entryOf_cleanExpired, he]; simp [hel]) hused
          | true =>
              refine .ended (by rw [entryOf_cleanExpired, he]; simp [hel]) ?_
              exact (elapsed_eq_true_iff hw).mp hel

theorem Logged.later (h : l.Logged ip done now times) {t : Instant} (ht : now ≤ t) :
    l.Logged ip done t times := by
  cases h with
  | idle he => exact .idle he
  | window hlog hstart htr =>
      refine .window hlog (hstart.trans ht) ?_
      cases htr with
      | current he hused => exact .current he hused
      | ended he hend => exact .ended he (hend.trans ht)

/-- An attempt at `t` opens a window. -/
structure Opens (l : MemoryRateLimiter) (ip : IpAddr) (times : List Instant)
    (t : Instant) : Prop where
  recorded : l.recorded t (l.entryOrNew ip t) = ⟨1, t⟩
  tried : l.tried t (l.entryOrNew ip t) = (true, ⟨1, t⟩)
  log : Log l.windowDuration l.maxAttempts times t 1
  log_grant : Log l.windowDuration l.maxAttempts (times ++ [t]) t 1

/-- An attempt at `t` falls into the window that started at `start`. -/
structure Continues (l : MemoryRateLimiter) (ip : IpAddr) (done : List RateCall)
    (times : List Instant) (t : Instant)
    (start : Instant) (used : Nat) : Prop where
  entry : l.entryOf ip = some ⟨used, start⟩
  live : l.elapsed t ⟨used, start⟩ = false
  log : Log l.windowDuration l.maxAttempts times start used
  start_le : start ≤ t
  lt_end : t < start + l.windowDuration
  used_le : used ≤ countedIn done times ip start (start + l.windowDuration)

section Attempt
variable (hw : 0 < l.windowDuration) (hmax : 1 ≤ l.maxAttempts)
include hw hmax

theorem entryOrNew_opens {t : Instant} (he : l.entryOf ip = none) :
    l.recorded t (l.entryOrNew ip t) = ⟨1, t⟩ ∧ l.tried t (l.entryOrNew ip t) = (true, ⟨1, t⟩) := by
  have hnew : l.entryOrNew ip t = ⟨0, t⟩ := by rw [entryOrNew, he]; rfl
  have hlive : l.elapsed t ⟨0, t⟩ = false :=
    (elapsed_eq_false_iff hw).mpr (lt_add_of_pos_right t hw)
  rw [hnew]
  simp only [recorded, tried, hlive]
  exact ⟨rfl, if_pos hmax⟩

theorem Logged.attempt (h : l.Logged ip done now times) {t : Instant} (ht : now ≤ t) :
    l.Opens ip times t ∨ ∃ start used, l.Continues ip done times t start used := by
  cases h with
  | idle he =>
      obtain ⟨hr, htr⟩ := entryOrNew_opens (t := t) hw hmax he
      exact Or.inl ⟨hr, htr, .first hmax t, .first_grant hmax hw t⟩
  | @window times start used hlog hstart htrack =>
      cases htrack with
      | ended he hend =>
          obtain ⟨hr, htr⟩ := entryOrNew_opens (t := t) hw hmax he
          exact Or.inl ⟨hr, htr, hlog.renew hw (hend.trans ht), hlog.renew_grant hw (hend.trans ht)⟩
      | current he hused =>
          have hnew : l.entryOrNew ip t = ⟨used, start⟩ := by rw [entryOrNew, he]; rfl
          cases hel : l.elapsed t ⟨used, start⟩ with
          | true =>
              have hend : start + l.windowDuration ≤ t := (elapsed_eq_true_iff hw).mp hel
              refine Or.inl ⟨?_, ?_, hlog.renew hw hend, hlog.renew_grant hw hend⟩
              · rw [hnew, recorded, if_pos hel]
              · rw [hnew, tried, if_pos hel]
          | false =>
              exact Or.inr ⟨start, used, he, hel, hlog, hstart.trans ht,
                (elapsed_eq_false_iff hw).mp hel, hused⟩

omit hmax in
/-- The window an attempt opens has counted it. -/
theorem Logged.of_opened {c : RateCall} {l' : MemoryRateLimiter} {times' : List Instant}
    (he : l'.entryOf c.ip = some ⟨1, c.now⟩) (hdur : l'.windowDuration = l.windowDuration)
    (hmax : l'.maxAttempts = l.maxAttempts)
    (hlog : Log l.windowDuration l.maxAttempts times' c.now 1)
    (hcount : ∀ b, c.now < b → 1 ≤ countedIn (done ++ [c]) times' c.ip c.now b) :
    l'.Logged c.ip (done ++ [c]) c.now times' := by
  refine .window (by rwa [hdur, hmax]) le_rfl (.current he (hcount _ ?_))
  rw [hdur]
  exact lt_add_of_pos_right _ hw

variable {c : RateCall} (ht : now ≤ c.now) (hroom : l.entries.rows.length < maxEntries)
include ht hroom

theorem Logged.record (hc : c.method = .recordAttempt)
    (hwrap : ∀ a, countedIn (done ++ [c]) times c.ip a (a + l.windowDuration) < 2 ^ 32)
    (h : l.Logged c.ip done now times) :
    (l.record c.now c.ip).Logged c.ip (done ++ [c]) c.now times := by
  have hentry := entryOf_record hroom c.now c.ip c.ip
  rw [if_pos rfl] at hentry
  have hshape : (l.record c.now c.ip).windowDuration = l.windowDuration ∧
      (l.record c.now c.ip).maxAttempts = l.maxAttempts := by
    rw [MemoryRateLimiter.record, makeRoom_eq hroom]
    exact ⟨rfl, rfl⟩
  rcases h.attempt hw hmax ht with ho | ⟨start, used, hcont⟩
  · rw [ho.recorded] at hentry
    refine .of_opened hw hentry hshape.1 hshape.2 ho.log fun b hb => ?_
    rw [countedIn_record hc le_rfl hb]
    exact Nat.le_add_left 1 _
  · have hcount : countedIn (done ++ [c]) times c.ip start (start + l.windowDuration) =
        countedIn done times c.ip start (start + l.windowDuration) + 1 :=
      countedIn_record hc hcont.start_le hcont.lt_end
    have hlt := hwrap start
    have hused := hcont.used_le
    have hmod : (used + 1) % 2 ^ 32 = used + 1 := Nat.mod_eq_of_lt (by omega)
    have hnew : l.recorded c.now (l.entryOrNew c.ip c.now) = ⟨used + 1, start⟩ := by
      rw [entryOrNew, hcont.entry, Option.getD_some, recorded, hcont.live,
        if_neg Bool.false_ne_true, hmod]
    rw [hnew] at hentry
    have hlog : Log l.windowDuration l.maxAttempts times start (used + 1) :=
      hcont.log.use (Nat.le_succ used)
    rw [← hshape.1, ← hshape.2] at hlog
    refine .window hlog hcont.start_le (.current hentry ?_)
    rw [hshape.1]
    omega

theorem Logged.tryRecord (h : l.Logged c.ip done now times) :
    (l.tryRecord c.now c.ip).2.Logged c.ip (done ++ [c]) c.now
      (times ++ if (l.tryRecord c.now c.ip).1 then [c.now] else []) := by
  rw [tryRecord_eq hroom]
  have hentry : ∀ e, (l.store c.ip e).entryOf c.ip = some e := fun e => by
    rw [entryOf_store, if_pos rfl]
  rcases h.attempt hw hmax ht with ho | ⟨start, used, hcont⟩
  · have hopened : (l.store c.ip ⟨1, c.now⟩).Logged c.ip (done ++ [c]) c.now (times ++ [c.now]) :=
      .of_opened hw (hentry _) rfl rfl ho.log_grant fun b hb =>
        (Nat.le_add_left 1 (countedIn done times c.ip c.now b)).trans (countedIn_grant c le_rfl hb)
    rw [ho.tried]
    exact hopened
  · have hused := hcont.used_le
    have hnew : l.entryOrNew c.ip c.now = ⟨used, start⟩ := by rw [entryOrNew, hcont.entry]; rfl
    rw [hnew]
    by_cases hlt : used < l.maxAttempts
    · have htried : l.tried c.now ⟨used, start⟩ = (true, ⟨used + 1, start⟩) := by
        simp [tried, hcont.live, hlt]
      rw [htried]
      refine .window (hcont.log.grant hcont.start_le hcont.lt_end hlt) hcont.start_le
        (.current (hentry _) ?_)
      exact (Nat.succ_le_succ hused).trans (countedIn_grant c hcont.start_le hcont.lt_end)
    · have htried : l.tried c.now ⟨used, start⟩ = (false, ⟨used, start⟩) := by
        simp [tried, hcont.live, hlt]
      rw [htried, if_neg Bool.false_ne_true, List.append_nil]
      refine .window hcont.log hcont.start_le (.current (hentry _) ?_)
      exact hused.trans (countedIn_le_call c)

end Attempt

/-- The entry of `ip` stays as it is, and one more call was made. -/
theorem Logged.frame (h : l.Logged ip done now times) {l' : MemoryRateLimiter} (c : RateCall)
    (he : l'.entryOf ip = l.entryOf ip) (hdur : l'.windowDuration = l.windowDuration)
    (hmax : l'.maxAttempts = l.maxAttempts) : l'.Logged ip (done ++ [c]) now times := by
  cases h with
  | idle hn => exact .idle (he.trans hn)
  | window hlog hstart htr =>
      refine .window (by rwa [hdur, hmax]) hstart ?_
      cases htr with
      | current hs hused =>
          refine .current (he.trans hs) ?_
          rw [hdur]
          exact hused.trans (countedIn_le_call c)
      | ended hn hend => exact .ended (he.trans hn) (by rwa [hdur])

theorem logged_call_other (hw : 0 < l.windowDuration) (h : l.Logged ip done now times)
    {c : RateCall} (hne : c.ip ≠ ip) (hclean : now ≤ c.cleanAt) (hnow : c.cleanAt ≤ c.now)
    (hroom : l.entries.rows.length < maxEntries) :
    (l.call c).2.Logged ip (done ++ [c]) c.now times := by
  have hswept : (l.cleanExpired c.cleanAt).Logged ip done c.now times :=
    (h.clean hw hclean).later hnow
  have hroom' : (l.cleanExpired c.cleanAt).entries.rows.length < maxEntries :=
    (cleanExpired_length_le c.cleanAt).trans_lt hroom
  have hlater : l.Logged ip done c.now times := h.later (hclean.trans hnow)
  unfold call
  split
  · exact hswept.frame c rfl rfl rfl
  · refine hswept.frame c ?_ (makeRoom_config _ _).1 (makeRoom_config _ _).2
    rw [recordAttempt, entryOf_record hroom', if_neg hne]
  · refine hswept.frame c ?_ (makeRoom_config _ _).1 (makeRoom_config _ _).2
    rw [tryCheckAndRecord, tryRecord_eq hroom', entryOf_store, if_neg hne]
  · exact hlater.frame c rfl rfl rfl
  · refine hlater.frame c ?_ rfl rfl
    rw [entryOf_reset, if_neg (Ne.symm hne)]

/-- One call keeps the log of an address it does not reset. -/
theorem logged_call (hw : 0 < l.windowDuration) (hmax : 1 ≤ l.maxAttempts)
    (h : l.Logged ip done now times) {c : RateCall} (hreset : c.ip = ip → c.method ≠ .reset)
    (hclean : now ≤ c.cleanAt) (hnow : c.cleanAt ≤ c.now)
    (hroom : l.entries.rows.length < maxEntries)
    (hwrap : ∀ a, countedIn (done ++ [c]) (times ++ admitted ip l c) ip a
      (a + l.windowDuration) < 2 ^ 32) :
    (l.call c).2.Logged ip (done ++ [c]) c.now (times ++ admitted ip l c) := by
  by_cases hip : c.ip = ip
  · subst hip
    have hswept := h.clean hw hclean
    have hroom' : (l.cleanExpired c.cleanAt).entries.rows.length < maxEntries :=
      (cleanExpired_length_le c.cleanAt).trans_lt hroom
    have hw' : 0 < (l.cleanExpired c.cleanAt).windowDuration := hw
    have hmax' : 1 ≤ (l.cleanExpired c.cleanAt).maxAttempts := hmax
    cases hm : c.method with
    | check =>
        simp only [call, hm, admitted, reduceCtorEq, false_and, if_false, List.append_nil]
        exact (hswept.later hnow).frame c rfl rfl rfl
    | recordAttempt =>
        simp only [call, hm, admitted, reduceCtorEq, false_and, if_false,
          List.append_nil] at hwrap ⊢
        exact hswept.record hw' hmax' hnow hroom' hm hwrap
    | tryCheckAndRecord =>
        simp only [call, hm, admitted, true_and, RateAnswer.allowed.injEq]
        exact hswept.tryRecord hw' hmax' hnow hroom'
    | remainingAttempts =>
        simp only [call, hm, admitted, reduceCtorEq, false_and, if_false, List.append_nil]
        exact (h.later (hclean.trans hnow)).frame c rfl rfl rfl
    | reset => exact absurd hm (hreset rfl)
  · have hnone : admitted ip l c = [] := if_neg fun hadm => hip hadm.2.1
    rw [hnone, List.append_nil]
    exact logged_call_other hw h hip hclean hnow hroom

theorem logged_run {calls : List RateCall} (hw : 0 < l.windowDuration) (hmax : 1 ≤ l.maxAttempts)
    (h : l.Logged ip done now times) (hord : Ordered calls)
    (hlater : ∀ c ∈ calls, now ≤ c.cleanAt) (hreset : ∀ c ∈ calls, c.ip = ip → c.method ≠ .reset)
    (hroom : ∀ n, (l.run (calls.take n)).entries.rows.length < maxEntries)
    (hwrap : ∀ a, countedIn (done ++ calls) (times ++ admissions ip l calls) ip a
      (a + l.windowDuration) < 2 ^ 32) :
    ∃ t, (l.run calls).Logged ip (done ++ calls) t (times ++ admissions ip l calls) := by
  induction calls generalizing l done now times with
  | nil => exact ⟨now, by simpa [admissions, run] using h⟩
  | cons c calls ih =>
      obtain ⟨hnow, hnext, hord'⟩ := hord.cons
      have happ : done ++ c :: calls = done ++ [c] ++ calls := by simp
      obtain ⟨hdur, hmax'⟩ := l.call_config c
      have hstep := logged_call hw hmax h (hreset c List.mem_cons_self)
        (hlater c List.mem_cons_self) hnow
        (hroom 0) fun a => by
          refine (countedIn_le_append _ calls _ (admissions ip (l.call c).2 calls) ip _ _).trans_lt
            ?_
          rw [← happ, List.append_assoc]
          exact hwrap a
      rw [admissions, ← List.append_assoc] at hwrap ⊢
      rw [happ] at hwrap ⊢
      refine ih (l := (l.call c).2) (by rwa [hdur]) (by rwa [hmax']) hstep hord' hnext
        (fun d hd => hreset d (List.mem_cons_of_mem c hd)) (fun n => hroom (n + 1)) (by rwa [hdur])

/-- **The fixed windows bound every sliding interval.** In every run in which `ip` is not reset,
fewer than `MAX_ENTRIES` addresses are tracked and fewer than `2 ^ 32` attempts of `ip` are counted
in any interval of the length of a window, at most `2 * max_attempts - 1` calls of
`try_check_and_record` for `ip` that decide inside such an interval are answered `true`. -/
theorem sliding_bound (maxAttempts windowSeconds : Nat) (hmax : 1 ≤ maxAttempts)
    (hW : 1 ≤ windowSeconds) (ip : IpAddr) (calls : List RateCall) (hord : Ordered calls)
    (hreset : ∀ c ∈ calls, c.ip = ip → c.method ≠ .reset)
    (hroom : ∀ n, ((new maxAttempts windowSeconds).run (calls.take n)).entries.rows.length <
      maxEntries)
    (hwrap : ∀ a, countedIn calls ((new maxAttempts windowSeconds).admissions ip calls) ip a
      (a + ofSecs windowSeconds) < 2 ^ 32)
    (a : Instant) :
    within a (a + ofSecs windowSeconds) ((new maxAttempts windowSeconds).admissions ip calls) ≤
      2 * maxAttempts - 1 := by
  have hw : 0 < (new maxAttempts windowSeconds).windowDuration :=
    new_windowDuration_pos maxAttempts hW
  obtain ⟨start, hstart⟩ := exists_start RateCall.cleanAt calls
  have hidle : (new maxAttempts windowSeconds).Logged ip [] start [] := .idle rfl
  obtain ⟨t, ht⟩ := logged_run hw hmax hidle hord hstart hreset hroom hwrap
  obtain ⟨hdur, hmax'⟩ := run_config (new maxAttempts windowSeconds) calls
  rw [List.nil_append, List.nil_append] at ht
  generalize (new maxAttempts windowSeconds).admissions ip calls = times at ht ⊢
  cases ht with
  | idle he => simp [within]
  | window hlog hs htr =>
      rw [hdur, hmax'] at hlog
      exact hlog.within_le a

/-- Attempts at `0`, `0.9`, `1` and `1` seconds with the limit `2`: the bound is reached in
`[0.5, 1.5)`. -/
def straddlingCalls : List RateCall :=
  [0, 900000000, 1000000000, 1000000000].map fun t => ⟨.tryCheckAndRecord, .v4 1, t, t⟩

theorem sliding_bound_straddling :
    within 500000000 (500000000 + ofSecs 1) ((new 2 1).admissions (.v4 1) straddlingCalls) = 3 ∧
      within 500000000 (500000000 + ofSecs 1) ((new 2 1).admissions (.v4 1) straddlingCalls) ≤
        2 * 2 - 1 := by
  refine ⟨by decide, sliding_bound 2 1 (by decide) (by decide) (.v4 1) straddlingCalls ?_
    (by decide) ?_ ?_ _⟩
  · unfold Ordered
    decide
  · intro n
    refine (length_run_le 2 1 _).trans_lt ?_
    refine (List.Sublist.length_le (List.dedup_sublist _)).trans_lt ?_
    rw [List.length_map]
    exact (List.length_take_le' n _).trans_lt (by decide)
  · intro a
    exact (Nat.add_le_add List.countP_le_length List.countP_le_length).trans_lt (by decide)

/-! ## The wrapping counter -/

/-- An attempt at time `0`. -/
def attemptAt0 (m : RateMethod) : RateCall := ⟨m, .v4 1, 0, 0⟩

/-- A limiter with the limit `1` that has counted `attempts` for one address. -/
def oneEntry (attempts : Nat) : MemoryRateLimiter :=
  ⟨1, ofSecs 1, ⟨[(.v4 1, ⟨attempts, 0⟩)], List.nodup_singleton _⟩⟩

theorem oneEntry_record (n : Nat) :
    (oneEntry n).call (attemptAt0 .recordAttempt) = (.unit, oneEntry ((n + 1) % 2 ^ 32)) := by
  have hswept : (oneEntry n).cleanExpired 0 = oneEntry n := rfl
  have hentry : (oneEntry n).entryOf (.v4 1) = some ⟨n, 0⟩ := rfl
  have hlive : (oneEntry n).elapsed 0 ⟨n, 0⟩ = false := rfl
  simp only [call, attemptAt0, recordAttempt, hswept, record, makeRoom, hentry,
    Option.isSome_some, if_true, entryOrNew, Option.getD_some, recorded, hlive]
  rfl

/-- `2 ^ 32 - 1` recorded attempts between two calls of `try_check_and_record`. -/
def wrappingCalls : List RateCall :=
  attemptAt0 .tryCheckAndRecord :: (List.replicate (2 ^ 32 - 1) (attemptAt0 .recordAttempt) ++
    [attemptAt0 .tryCheckAndRecord])

theorem admissions_append (ip : IpAddr) (l : MemoryRateLimiter) (calls calls' : List RateCall) :
    l.admissions ip (calls ++ calls') = l.admissions ip calls ++
      (l.run calls).admissions ip calls' := by
  induction calls generalizing l with
  | nil => rfl
  | cons c calls ih => simp only [List.cons_append, admissions, ih, run_cons, List.append_assoc]

/-- Recorded attempts admit nobody, and count modulo `2 ^ 32`. -/
theorem oneEntry_replicate (m n : Nat) (hm : m < 2 ^ 32) :
    (oneEntry m).run (List.replicate n (attemptAt0 .recordAttempt)) = oneEntry ((m + n) % 2 ^ 32) ∧
      (oneEntry m).admissions (.v4 1) (List.replicate n (attemptAt0 .recordAttempt)) = [] := by
  induction n generalizing m with
  | zero => exact ⟨by rw [Nat.add_zero, Nat.mod_eq_of_lt hm]; rfl, rfl⟩
  | succ n ih =>
      obtain ⟨hrun, hadm⟩ := ih ((m + 1) % 2 ^ 32) (Nat.mod_lt _ (by decide))
      rw [List.replicate_succ]
      constructor
      · rw [run_cons, oneEntry_record, hrun]
        congr 1
        omega
      · rw [admissions, oneEntry_record, hadm, List.append_nil]
        rfl

theorem wrappingCalls_admissions : (new 1 1).admissions (.v4 1) wrappingCalls = [0, 0] := by
  have hfirst : (new 1 1).call (attemptAt0 .tryCheckAndRecord) = (.allowed true, oneEntry 1) := rfl
  have hlast : (oneEntry 0).admissions (.v4 1) [attemptAt0 .tryCheckAndRecord] = [0] := rfl
  obtain ⟨hrun, hadm⟩ := oneEntry_replicate 1 (2 ^ 32 - 1) (by decide)
  have hadmitted : admitted (.v4 1) (new 1 1) (attemptAt0 .tryCheckAndRecord) = [0] := rfl
  rw [wrappingCalls, admissions, hadmitted, hfirst, admissions_append, hadm, hrun]
  have hzero : (1 + (2 ^ 32 - 1)) % 2 ^ 32 = 0 := by decide
  rw [hzero, hlast]
  rfl

/-- The counter of a window wraps: with the limit `1`, two calls of one run at the same instant are
admitted. -/
theorem wrapped_counter_admits_again :
    Ordered wrappingCalls ∧ (∀ c ∈ wrappingCalls, c.method ≠ .reset) ∧
      (∀ n, ((new 1 1).run (wrappingCalls.take n)).entries.rows.length < maxEntries) ∧
      2 * 1 - 1 < within 0 (0 + ofSecs 1) ((new 1 1).admissions (.v4 1) wrappingCalls) := by
  have hmem : ∀ c ∈ wrappingCalls, c.ip = .v4 1 ∧ c.cleanAt = 0 ∧ c.now = 0 ∧
      c.method ≠ .reset := by
    intro c hc
    rcases List.mem_cons.mp hc with rfl | hc
    · exact ⟨rfl, rfl, rfl, by decide⟩
    · rcases List.mem_append.mp hc with hc | hc
      · rw [List.eq_of_mem_replicate hc]
        exact ⟨rfl, rfl, rfl, by decide⟩
      · rw [List.mem_singleton.mp hc]
        exact ⟨rfl, rfl, rfl, by decide⟩
  refine ⟨?_, fun c hc => (hmem c hc).2.2.2, fun n => ?_, ?_⟩
  · have hzero : ∀ t ∈ wrappingCalls.flatMap fun c => [c.cleanAt, c.now], t = 0 := by
      intro t ht
      obtain ⟨c, hc, ht⟩ := List.mem_flatMap.mp ht
      obtain ⟨-, h1, h2, -⟩ := hmem c hc
      rw [h1, h2] at ht
      simpa using ht
    exact List.pairwise_of_forall_mem_list fun s hs t ht => by rw [hzero s hs, hzero t ht]
  · refine (length_run_le 1 1 _).trans_lt ?_
    have hsub : ((wrappingCalls.take n).map (·.ip)).dedup ⊆ [IpAddr.v4 1] := by
      intro ip hip
      obtain ⟨c, hc, rfl⟩ := List.mem_map.mp (List.mem_dedup.mp hip)
      rw [(hmem c (List.mem_of_mem_take hc)).1]
      exact List.mem_cons_self
    exact ((List.nodup_dedup _).subperm hsub).length_le.trans_lt (by decide)
  · rw [wrappingCalls_admissions]
    decide

end MemoryRateLimiter

end AppHome
