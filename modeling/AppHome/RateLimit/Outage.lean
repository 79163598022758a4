import AppHome.RateLimit.Redis

/-!
# The limiters during an outage

`outage_bound`: while Redis fails in any pattern, `N` instances let at most `(N + 1) * max_attempts`
calls of `try_check_and_record` for an address through within a window of the first of them. Each
call that is let through was granted by one counter, Redis or the shadow of its instance, and each
of these `N + 1` counters grants no more than its limit:

* `Fleet.granted`, `Fleet.count` : what a counter has granted to an address, and what it has
  counted;
* `Guarded` : no counter has granted more than it has counted, or than the limit, and what it has
  counted lasts for the rest of the window;
* `Op.Spares` : the operations that leave an address alone; the other ones a call of
  `try_check_and_record` makes;
* `guarded_exec`, `guarded_move` : every step keeps it.
-/

namespace AppHome.RateLimit

open Interleave

namespace Fleet

/-- The calls for `ip` that a counter let through. -/
def granted (s : Fleet) (ip : IpAddr) (src : Source) : Nat :=
  s.grants.countP fun g => g.ip = ip ∧ g.source = src

/-- The attempts of `ip` that a counter has counted. -/
def count (s : Fleet) (ip : IpAddr) : Source → Nat
  | .redis => ((s.counters.live? s.now ip).map (·.value)).getD 0
  | .shadow k => (((s.shadow k).entryOf ip).map (·.attempts)).getD 0

end Fleet

/-- In the window that started at `first`. -/
structure Guarded (cfg : RedisRateLimiter) (ip : IpAddr) (first : Instant) (s : Fleet) : Prop where
  counted : ∀ src, s.granted ip src ≤ s.count ip src
  capped : ∀ src, s.granted ip src ≤ cfg.maxAttempts
  key_lasts : ∀ c e, s.counters.live? s.now ip = some c → c.expiresAt = some e →
    first + ofSecs cfg.windowSeconds ≤ e
  entry_lasts : ∀ k e, (s.shadow k).entryOf ip = some e → first ≤ e.windowStart
  config : ∀ k, (s.shadow k).windowDuration = ofSecs cfg.windowSeconds ∧
    (s.shadow k).maxAttempts = cfg.maxAttempts
  late : ∀ w ∈ s.late, w ≠ .del ip ∧ (w = .script ip → first ≤ s.now)

section Frame
variable {server : RedisServer} {cfg : RedisRateLimiter} {ip : IpAddr} {first : Instant}
  {s s' : Fleet}

/-- What `Guarded` depends on. -/
theorem Guarded.frame (h : Guarded cfg ip first s)
    (hgranted : ∀ src, s'.granted ip src = s.granted ip src)
    (hlive : s'.counters.live? s'.now ip = s.counters.live? s.now ip)
    (hentry : ∀ k, (s'.shadow k).entryOf ip = (s.shadow k).entryOf ip)
    (hconfig : ∀ k, (s'.shadow k).windowDuration = (s.shadow k).windowDuration ∧
      (s'.shadow k).maxAttempts = (s.shadow k).maxAttempts)
    (hlate : ∀ w ∈ s'.late, w ≠ .del ip ∧ (w = .script ip → first ≤ s'.now)) :
    Guarded cfg ip first s' := by
  have hcount : ∀ src, s'.count ip src = s.count ip src := by
    intro src
    cases src with
    | redis => simp only [Fleet.count, hlive]
    | shadow k => simp only [Fleet.count, hentry]
  refine ⟨fun src => ?_, fun src => ?_, fun c e => ?_, fun k e => ?_, fun k => ?_, hlate⟩
  · rw [hgranted, hcount]
    exact h.counted src
  · rw [hgranted]
    exact h.capped src
  · rw [hlive]
    exact h.key_lasts c e
  · rw [hentry]
    exact h.entry_lasts k e
  · rw [(hconfig k).1, (hconfig k).2]
    exact h.config k

theorem Guarded.grantIf_other (h : Guarded cfg ip first s) {g : Grant} (hg : g.ip ≠ ip) (b : Bool) :
    Guarded cfg ip first (s.grantIf b g) := by
  unfold Fleet.grantIf
  split_ifs
  · refine h.frame (fun src => ?_) rfl (fun _ => rfl) (fun _ => ⟨rfl, rfl⟩) h.late
    simp [Fleet.granted, List.countP_append, hg]
  · exact h

theorem Guarded.setShadow (h : Guarded cfg ip first s) {k : Nat} {l : MemoryRateLimiter}
    (hentry : l.entryOf ip = (s.shadow k).entryOf ip)
    (hconfig : l.windowDuration = (s.shadow k).windowDuration ∧
      l.maxAttempts = (s.shadow k).maxAttempts) :
    Guarded cfg ip first (s.setShadow k l) := by
  refine h.frame (fun _ => rfl) rfl (fun k' => ?_) (fun k' => ?_) h.late
  · by_cases hk : k' = k
    · rw [hk, Fleet.setShadow_shadow]
      exact hentry
    · rw [Fleet.setShadow_shadow_of_ne s l hk]
  · by_cases hk : k' = k
    · rw [hk, Fleet.setShadow_shadow]
      exact hconfig
    · rw [Fleet.setShadow_shadow_of_ne s l hk]
      exact ⟨rfl, rfl⟩

theorem Guarded.unanswered (h : Guarded cfg ip first s) {w : Write}
    (hw : w ≠ .del ip ∧ (w = .script ip → first ≤ s.now))
    (hperform : Guarded cfg ip first (perform server cfg s w)) (f : Fate) :
    Guarded cfg ip first (unanswered server cfg s w f) := by
  cases f with
  | done => exact h
  | failed => exact h
  | failedApplied => exact hperform
  | failedLate =>
      refine h.frame (fun _ => rfl) rfl (fun _ => rfl) (fun _ => ⟨rfl, rfl⟩) fun w' hw' => ?_
      rcases List.mem_append.mp hw' with hw' | hw'
      · exact h.late w' hw'
      · rw [List.mem_singleton.mp hw']
        exact hw

theorem Guarded.perform_script (hw : 0 < ofSecs cfg.windowSeconds) (h : Guarded cfg ip first s)
    (hfirst : first ≤ s.now) :
    Guarded cfg ip first (perform server cfg s (.script ip)) ∧
      (perform server cfg s (.script ip)).count ip .redis = s.count ip .redis + 1 := by
  obtain ⟨c, hput, hlive, hvalue, _, hexp⟩ :=
    Counters.incrWithExpire_spec server hw s.counters s.now ip
  have hkey : (perform server cfg s (.script ip)).counters.live? s.now ip = some c := by
    rw [perform, hput, Counters.live?_put hlive, if_pos rfl]
  have hcount : (perform server cfg s (.script ip)).count ip .redis = s.count ip .redis + 1 := by
    show (((perform server cfg s (.script ip)).counters.live? s.now ip).map (·.value)).getD 0 = _
    rw [hkey]
    exact hvalue
  refine ⟨⟨fun src => ?_, h.capped, fun c' e hc' he => ?_, h.entry_lasts, h.config, h.late⟩, hcount⟩
  · cases src with
    | redis =>
        rw [hcount]
        exact (h.counted .redis).trans (Nat.le_succ _)
    | shadow k => exact h.counted (.shadow k)
  · rw [Option.some.inj (hc'.symm.trans hkey)] at he
    rcases hexp e he with rfl | ⟨c'', hc'', he⟩
    · exact add_le_add_left hfirst _
    · exact h.key_lasts c'' e hc'' he

theorem Guarded.perform_other (hw : 0 < ofSecs cfg.windowSeconds) (h : Guarded cfg ip first s)
    {w : Write} (hscript : w ≠ .script ip) (hdel : w ≠ .del ip) :
    Guarded cfg ip first (perform server cfg s w) := by
  cases w with
  | script ip' =>
      have hne : ip' ≠ ip := fun heq => hscript (by rw [heq])
      obtain ⟨c, hput, hlive, _⟩ := Counters.incrWithExpire_spec server hw s.counters s.now ip'
      refine h.frame (fun _ => rfl) ?_ (fun _ => rfl) (fun _ => ⟨rfl, rfl⟩) h.late
      rw [perform, hput]
      exact (Counters.live?_put hlive).trans (if_neg hne)
  | del ip' =>
      have hne : ip ≠ ip' := fun heq => hdel (by rw [heq])
      refine h.frame (fun _ => rfl) ?_ (fun _ => rfl) (fun _ => ⟨rfl, rfl⟩) h.late
      exact Counters.live?_del.trans (if_neg hne)

/-- A counter that has counted an attempt below its limit lets it through. -/
theorem Guarded.grant (h : Guarded cfg ip first s) {src : Source}
    (hcount : s.granted ip src + 1 ≤ s.count ip src)
    (hcap : s.granted ip src + 1 ≤ cfg.maxAttempts) (i : Nat) (b : Bool) :
    Guarded cfg ip first (s.grantIf b ⟨i, ip, src⟩) := by
  unfold Fleet.grantIf
  split_ifs
  · have hgranted : ∀ src', Fleet.granted { s with grants := s.grants ++ [⟨i, ip, src⟩] } ip src' =
        s.granted ip src' + if src' = src then 1 else 0 := by
      intro src'
      simp [Fleet.granted, List.countP_append, List.countP_cons, eq_comm]
    refine ⟨fun src' => ?_, fun src' => ?_, h.key_lasts, h.entry_lasts, h.config, h.late⟩
    · rw [hgranted]
      split_ifs with heq
      · rw [heq]
        exact hcount
      · exact h.counted src'
    · rw [hgranted]
      split_ifs with heq
      · rw [heq]
        exact hcap
      · exact h.capped src'
  · exact h

theorem Guarded.tick (h : Guarded cfg ip first s) (nanos : Nat)
    (hend : s.now + nanos < first + ofSecs cfg.windowSeconds) :
    Guarded cfg ip first { s with now := s.now + nanos } := by
  have hle : s.now ≤ s.now + nanos := le_add_of_nonneg_right (Int.natCast_nonneg nanos)
  have hlive : s.counters.live? (s.now + nanos) ip = s.counters.live? s.now ip := by
    rw [Counters.live?_later hle]
    refine filter_eq_self fun c hc => ?_
    unfold RedisCounter.live
    split
    · next e he => exact decide_eq_true (hend.trans_le (h.key_lasts c e hc he))
    · rfl
  exact h.frame (fun _ => rfl) hlive (fun _ => rfl) (fun _ => ⟨rfl, rfl⟩) fun w hw =>
    ⟨(h.late w hw).1, fun heq => ((h.late w hw).2 heq).trans hle⟩

theorem Guarded.clean (hw : 0 < ofSecs cfg.windowSeconds) (h : Guarded cfg ip first s)
    (hend : s.now < first + ofSecs cfg.windowSeconds) (k : Nat) :
    Guarded cfg ip first (s.setShadow k ((s.shadow k).cleanExpired s.now)) := by
  have hdur : (s.shadow k).windowDuration = ofSecs cfg.windowSeconds := (h.config k).1
  refine h.setShadow ?_ ⟨rfl, rfl⟩
  rw [MemoryRateLimiter.entryOf_cleanExpired]
  refine filter_eq_self fun e he => ?_
  have hlive : (s.shadow k).elapsed s.now e = false := by
    rw [MemoryRateLimiter.elapsed_eq_false_iff (hdur ▸ hw), hdur]
    exact hend.trans_le (add_le_add_left (h.entry_lasts k e he) _)
  rw [hlive]
  rfl

theorem Guarded.store (h : Guarded cfg ip first s) {k : Nat} {e : RateLimitEntry}
    (hle : s.granted ip (.shadow k) ≤ e.attempts) (hstart : first ≤ e.windowStart) :
    Guarded cfg ip first (s.setShadow k ((s.shadow k).store ip e)) ∧
      (s.setShadow k ((s.shadow k).store ip e)).count ip (.shadow k) = e.attempts := by
  have hself : ((s.setShadow k ((s.shadow k).store ip e)).shadow k).entryOf ip = some e := by
    rw [Fleet.setShadow_shadow, MemoryRateLimiter.entryOf_store, if_pos rfl]
  have hother : ∀ k', k' ≠ k → (s.setShadow k ((s.shadow k).store ip e)).shadow k' = s.shadow k' :=
    fun k' hk' =>
    Fleet.setShadow_shadow_of_ne s _ hk'
  have hcount : (s.setShadow k ((s.shadow k).store ip e)).count ip (.shadow k) = e.attempts := by
    simp only [Fleet.count, hself, Option.map_some, Option.getD_some]
  refine ⟨⟨fun src => ?_, h.capped, h.key_lasts, fun k' e' he' => ?_, fun k' => ?_, h.late⟩, hcount⟩
  · cases src with
    | redis => exact h.counted .redis
    | shadow k' =>
        by_cases hk' : k' = k
        · rw [hk', hcount]
          exact hle
        · have hsame : (s.setShadow k ((s.shadow k).store ip e)).count ip (.shadow k') =
              s.count ip (.shadow k') := by
            simp only [Fleet.count, hother k' hk']
          rw [hsame]
          exact h.counted (.shadow k')
  · by_cases hk' : k' = k
    · rw [hk', hself] at he'
      rw [← Option.some.inj he']
      exact hstart
    · rw [hother k' hk'] at he'
      exact h.entry_lasts k' e' he'
  · by_cases hk' : k' = k
    · rw [hk', Fleet.setShadow_shadow]
      exact h.config k
    · rw [hother k' hk']
      exact h.config k'

/-- A shadow counts one more attempt of `ip`, or refuses it. -/
theorem Guarded.tryRecord (hw : 0 < ofSecs cfg.windowSeconds) (h : Guarded cfg ip first s)
    (hfirst : first ≤ s.now) (hend : s.now < first + ofSecs cfg.windowSeconds) {k : Nat}
    (hroom : (s.shadow k).entries.rows.length < maxEntries) (i : Nat) :
    Guarded cfg ip first ((s.setShadow k ((s.shadow k).tryRecord s.now ip).2).grantIf
      ((s.shadow k).tryRecord s.now ip).1 ⟨i, ip, .shadow k⟩) := by
  obtain ⟨hdur, hmax⟩ := h.config k
  obtain ⟨e, hnew, hcount, hstart⟩ : ∃ e, (s.shadow k).entryOrNew ip s.now = e ∧
      s.count ip (.shadow k) = e.attempts ∧ first ≤ e.windowStart := by
    refine ⟨_, rfl, ?_⟩
    show (((s.shadow k).entryOf ip).map (·.attempts)).getD 0 =
        (((s.shadow k).entryOf ip).getD ⟨0, s.now⟩).attempts ∧
      first ≤ (((s.shadow k).entryOf ip).getD ⟨0, s.now⟩).windowStart
    cases he : (s.shadow k).entryOf ip with
    | none => exact ⟨rfl, hfirst⟩
    | some e => exact ⟨rfl, h.entry_lasts k e he⟩
  have hlive : (s.shadow k).elapsed s.now e = false := by
    rw [MemoryRateLimiter.elapsed_eq_false_iff (hdur ▸ hw), hdur]
    exact hend.trans_le (add_le_add_left hstart _)
  have hcounted := h.counted (.shadow k)
  rw [MemoryRateLimiter.tryRecord_eq hroom, hnew, MemoryRateLimiter.tried, hlive, hmax,
    if_neg Bool.false_ne_true]
  split_ifs with hlt
  · have hle : s.granted ip (.shadow k) ≤ e.attempts + 1 := by omega
    obtain ⟨hstore, hcount'⟩ := h.store (e := ⟨e.attempts + 1, e.windowStart⟩) hle hstart
    refine hstore.grant ?_ ?_ i true
    · rw [hcount']
      exact Nat.succ_le_succ (hcounted.trans_eq hcount)
    · exact (Nat.succ_le_succ (hcounted.trans_eq hcount)).trans hlt
  · exact (h.store (hcounted.trans_eq hcount) hstart).1

end Frame

/-! ## What the calls do -/

/-- The operation does not count or forget attempts of `ip`. -/
def Op.Spares (ip : IpAddr) : Op → Prop
  | .get _ => True
  | .incrWithExpire ip' => ip' ≠ ip
  | .tryScript ip' => ip' ≠ ip
  | .del ip' => ip' ≠ ip
  | .shadow _ (.record ip') => ip' ≠ ip
  | .shadow _ (.tryRecord ip') => ip' ≠ ip
  | .shadow _ (.reset ip') => ip' ≠ ip
  | .shadow _ _ => True

theorem prog_spares (cfg : RedisRateLimiter) (inst : Nat) {ip ip' : IpAddr} (hne : ip' ≠ ip)
    (method : RateMethod) :
    (prog cfg inst ip' method).Ops (Op.Spares ip) := by
  cases method with
  | check =>
      refine ⟨trivial, fun r => ?_⟩
      rcases r with _ | _ | n
      · exact ⟨trivial, fun _ => ⟨trivial, fun _ => trivial⟩⟩
      · trivial
      · trivial
  | recordAttempt =>
      refine ⟨hne, fun r => ?_⟩
      rcases r with _ | n
      · exact ⟨trivial, fun _ => ⟨hne, fun _ => trivial⟩⟩
      · trivial
  | tryCheckAndRecord =>
      refine ⟨hne, fun r => ?_⟩
      rcases r with _ | b
      · exact ⟨trivial, fun _ => ⟨hne, fun _ => trivial⟩⟩
      · trivial
  | remainingAttempts =>
      refine ⟨trivial, fun r => ?_⟩
      rcases r with _ | _ | n
      · exact ⟨trivial, fun _ => trivial⟩
      · trivial
      · trivial
  | reset => exact ⟨hne, fun _ => ⟨hne, fun _ => trivial⟩⟩

section Steps
variable {server : RedisServer} {cfg : RedisRateLimiter} {ip : IpAddr} {first : Instant} {s : Fleet}
  (hw : 0 < ofSecs cfg.windowSeconds) (h : Guarded cfg ip first s)
  (hend : s.now < first + ofSecs cfg.windowSeconds)
  (hroom : ∀ k, (s.shadow k).entries.rows.length < maxEntries)
include hw h hend hroom

theorem guarded_spares {o : Op} (ho : o.Spares ip) (i : Nat) (f : Fate) :
    Guarded cfg ip first (exec server cfg s i o f).2 := by
  have hdel : ∀ {ip'}, ip' ≠ ip → Write.del ip' ≠ .del ip := fun hne heq => hne (Write.del.inj heq)
  have hscript : ∀ {ip'}, ip' ≠ ip → Guarded cfg ip first (perform server cfg s (.script ip')) ∧
      ∀ f, Guarded cfg ip first (unanswered server cfg s (.script ip') f) := by
    intro ip' hne
    have hwrite : Write.script ip' ≠ .script ip := fun heq => hne (Write.script.inj heq)
    have hperform : Guarded cfg ip first (perform server cfg s (.script ip')) :=
      h.perform_other hw hwrite nofun
    exact ⟨hperform, h.unanswered ⟨nofun, fun heq => absurd heq hwrite⟩ hperform⟩
  cases o with
  | get ip' => cases f <;> exact h
  | incrWithExpire ip' =>
      obtain ⟨hperform, hlate⟩ := hscript ho
      cases f
      exacts [hperform, hlate .failed, hlate .failedApplied, hlate .failedLate]
  | tryScript ip' =>
      obtain ⟨hperform, hlate⟩ := hscript ho
      cases f
      exacts [hperform.grantIf_other (g := ⟨i, ip', .redis⟩) ho _, hlate .failed,
        hlate .failedApplied, hlate .failedLate]
  | del ip' =>
      have hperform : Guarded cfg ip first (perform server cfg s (.del ip')) :=
        h.perform_other hw nofun (hdel ho)
      have hlate : ∀ f, Guarded cfg ip first (unanswered server cfg s (.del ip') f) :=
        h.unanswered ⟨hdel ho, nofun⟩ hperform
      cases f
      exacts [hperform, hlate .failed, hlate .failedApplied, hlate .failedLate]
  | shadow k step =>
      cases step with
      | clean => exact h.clean hw hend k
      | allows ip' => exact h
      | remaining ip' => exact h
      | record ip' =>
          refine h.setShadow ?_ (MemoryRateLimiter.makeRoom_config _ _)
          rw [MemoryRateLimiter.entryOf_record (hroom k), if_neg ho]
      | tryRecord ip' =>
          have hshadow :
              Guarded cfg ip first (s.setShadow k ((s.shadow k).tryRecord s.now ip').2) := by
            refine h.setShadow ?_ (MemoryRateLimiter.makeRoom_config _ _)
            rw [MemoryRateLimiter.tryRecord_eq (hroom k),
              MemoryRateLimiter.entryOf_store, if_neg ho]
          exact hshadow.grantIf_other (g := ⟨i, ip', .shadow k⟩) ho _
      | reset ip' =>
          refine h.setShadow ?_ ⟨rfl, rfl⟩
          rw [MemoryRateLimiter.entryOf_reset, if_neg (Ne.symm ho)]

omit hend hroom in
theorem guarded_tryScript (hfirst : first ≤ s.now) (i : Nat) (f : Fate) :
    Guarded cfg ip first (exec server cfg s i (.tryScript ip) f).2 := by
  obtain ⟨hperform, hcount⟩ :
      Guarded cfg ip first (perform server cfg s (.script ip)) ∧
        (perform server cfg s (.script ip)).count ip .redis = s.count ip .redis + 1 :=
          h.perform_script hw hfirst
  have hlate : ∀ f, Guarded cfg ip first (unanswered server cfg s (.script ip) f) :=
    h.unanswered ⟨nofun, fun _ => hfirst⟩ hperform
  cases f with
  | done =>
      have hcounted : s.granted ip .redis + 1 ≤ s.count ip .redis + 1 :=
        Nat.succ_le_succ (h.counted .redis)
      show Guarded cfg ip first ((perform server cfg s (.script ip)).grantIf
        (decide ((s.counters.tryScript server cfg.windowSeconds cfg.maxAttempts s.now ip).1 =
          some true)) ⟨i, ip, .redis⟩)
      by_cases hyes :
        (s.counters.tryScript server cfg.windowSeconds cfg.maxAttempts s.now ip).1 = some true
      · have hle : s.count ip .redis + 1 ≤ cfg.maxAttempts := by
          obtain ⟨c, _, _, hvalue, hanswer, _⟩ :=
            Counters.incrWithExpire_spec server hw s.counters s.now ip
          obtain ⟨n, hn, hdec⟩ := Option.map_eq_some_iff.mp hyes
          rw [hanswer n hn, hvalue] at hdec
          exact of_decide_eq_true hdec
        refine hperform.grant ?_ (hcounted.trans hle) i _
        rw [hcount]
        exact hcounted
      · rw [decide_eq_false hyes]
        exact hperform
  | failed => exact hlate .failed
  | failedApplied => exact hlate .failedApplied
  | failedLate => exact hlate .failedLate

theorem guarded_exec {o : Op} (i : Nat) (f : Fate)
    (ho : o.Spares ip ∨ first ≤ s.now ∧ (o = .tryScript ip ∨ ∃ k, o = .shadow k (.tryRecord ip))) :
    Guarded cfg ip first (exec server cfg s i o f).2 := by
  rcases ho with ho | ⟨hfirst, rfl | ⟨k, rfl⟩⟩
  · exact guarded_spares hw h hend hroom ho i f
  · exact guarded_tryScript hw h hfirst i f
  · exact h.tryRecord hw hfirst hend (hroom k) i

omit hend hroom in
theorem guarded_move (e : Move)
    (hend : (move server cfg s e).now < first + ofSecs cfg.windowSeconds) :
    Guarded cfg ip first (move server cfg s e) := by
  cases e with
  | tick nanos => exact h.tick nanos hend
  | takeEffect n =>
      cases hn : s.late[n]? with
      | none => simpa only [move, hn] using h
      | some w =>
          obtain ⟨hdel, hscript⟩ := h.late w (List.mem_of_getElem? hn)
          have hperform : Guarded cfg ip first (perform server cfg s w) := by
            by_cases hself : w = .script ip
            · rw [hself]
              exact (h.perform_script hw (hscript hself)).1
            · exact h.perform_other hw hself hdel
          have hnow : (perform server cfg s w).now = s.now := by cases w <;> rfl
          have hmove : move server cfg s (.takeEffect n) =
              { perform server cfg s w with late := s.late.eraseIdx n } := by simp only [move, hn]
          rw [hmove]
          refine hperform.frame (fun _ => rfl) rfl (fun _ => rfl) (fun _ => ⟨rfl, rfl⟩)
            fun w' hw' => ?_
          show w' ≠ .del ip ∧ (w' = .script ip → first ≤ (perform server cfg s w).now)
          rw [hnow]
          exact h.late w' (List.mem_of_mem_eraseIdx hw')

end Steps

/-! ## Runs -/

section Run
variable (server : RedisServer) (cfg : RedisRateLimiter) (instances : Nat)
  (tasks : Nat → Task) (ip : IpAddr)
  (first : Instant)

/-- The counters that may let a call for `ip` through. -/
def sources : Finset Source := insert .redis ((Finset.range instances).image .shadow)

/-- A call for `ip` that is let through has its grant. -/
def Served (i : Nat) (a : RateAnswer) (s : Fleet) : Prop :=
  (tasks i).ip = ip → a = .allowed true →
  ∃ src ∈ sources instances, (⟨i, ip, src⟩ : Grant) ∈ s.grants

/-- Grants are not taken back, and only calls for `ip` touch its counters. -/
def outageContract : Contract Fleet Op where
  rely _ s s' := s.grants ⊆ s'.grants
  guar i _ o := o.Spares ip ∨ (tasks i).ip = ip ∧
    (o = .tryScript ip ∨ ∃ k, o = .shadow k (.tryRecord ip))

variable {server cfg instances tasks ip first}

theorem grantIf_grants (s : Fleet) (b : Bool) (g : Grant) : s.grants ⊆ (s.grantIf b g).grants := by
  unfold Fleet.grantIf
  split_ifs
  · exact List.subset_append_left _ _
  · exact List.Subset.refl _

theorem exec_grants (s : Fleet) (i : Nat) (o : Op) (f : Fate) :
    s.grants ⊆ (exec server cfg s i o f).2.grants := by
  cases o with
  | get ip' => cases f <;> exact List.Subset.refl _
  | incrWithExpire ip' => cases f <;> exact List.Subset.refl _
  | del ip' => cases f <;> exact List.Subset.refl _
  | tryScript ip' =>
      cases f
      · exact grantIf_grants (perform server cfg s (.script ip')) _ _
      all_goals exact List.Subset.refl _
  | shadow k step =>
      cases step
      case tryRecord ip' =>
        exact grantIf_grants (s.setShadow k ((s.shadow k).tryRecord s.now ip').2) _ _
      all_goals exact List.Subset.refl _

theorem move_grants (s : Fleet) (e : Move) : s.grants ⊆ (move server cfg s e).grants := by
  cases e with
  | tick nanos => exact List.Subset.refl _
  | takeEffect n =>
      unfold move
      simp only
      split
      · next w _ => cases w <;> exact List.Subset.refl _
      · exact List.Subset.refl _

theorem outageContract_sound : (outageContract tasks ip).Sound (machine server cfg) where
  refl _ _ := List.Subset.refl _
  trans := List.Subset.trans
  exec f _ _ := exec_grants _ _ _ f

theorem Served.mono {i : Nat} {a : RateAnswer} {s s' : Fleet} (hs : s.grants ⊆ s'.grants)
    (h : Served instances tasks ip i a s) : Served instances tasks ip i a s' := by
  intro hip ha
  obtain ⟨src, hsrc, hg⟩ := h hip ha
  exact ⟨src, hsrc, hs hg⟩

theorem mem_grantIf {s : Fleet} {b : Bool} (hb : b = true) (g : Grant) :
    g ∈ (s.grantIf b g).grants := by
  rw [Fleet.grantIf, if_pos hb]
  exact List.mem_append_right _ List.mem_cons_self

variable (server cfg) in
theorem tryScript_granted (s : Fleet) (i : Nat) (ip : IpAddr) (f : Fate)
    (h : (exec server cfg s i (.tryScript ip) f).1 = some true) :
    ⟨i, ip, .redis⟩ ∈ (exec server cfg s i (.tryScript ip) f).2.grants := by
  cases f with
  | done => exact mem_grantIf (decide_eq_true h) _
  | failed => cases h
  | failedApplied => cases h
  | failedLate => cases h

/-- A call of `try_check_and_record` for `ip`. -/
theorem wp_tryCheckAndRecord {i : Nat} (hip : (tasks i).ip = ip) {inst : Nat}
    (hinst : inst < instances) (s : Fleet) :
    wp (machine server cfg) (outageContract tasks ip) i (prog cfg inst ip .tryCheckAndRecord)
      (Served instances tasks ip i) s := by
  intro s₁ _
  refine ⟨Or.inr ⟨hip, Or.inl rfl⟩, fun f => ?_⟩
  have hgranted := tryScript_granted server cfg s₁ i ip f
  simp only [machine]
  generalize exec server cfg s₁ i (.tryScript ip) f = reply at hgranted ⊢
  obtain ⟨_ | b, s'⟩ := reply
  · intro s₂ _
    refine ⟨Or.inl trivial, fun _ => ?_⟩
    intro s₃ _
    refine ⟨Or.inr ⟨hip, Or.inr ⟨inst, rfl⟩⟩, fun _ => ?_⟩
    intro _ ha
    refine ⟨.shadow inst, ?_, mem_grantIf (RateAnswer.allowed.inj ha) _⟩
    exact Finset.mem_insert_of_mem (Finset.mem_image_of_mem _ (Finset.mem_range.mpr hinst))
  · intro _ ha
    refine ⟨.redis, Finset.mem_insert_self _ _, hgranted ?_⟩
    rw [RateAnswer.allowed.inj ha]

theorem wp_task
    (htasks : ∀ i, (tasks i).ip = ip → (tasks i).method = .tryCheckAndRecord ∧
      (tasks i).inst < instances)
    (i : Nat) (s : Fleet) : wp (machine server cfg) (outageContract tasks ip) i
      (prog cfg (tasks i).inst (tasks i).ip (tasks i).method) (Served instances tasks ip i) s := by
  by_cases hip : (tasks i).ip = ip
  · obtain ⟨hmethod, hinst⟩ := htasks i hip
    rw [hmethod, hip]
    exact wp_tryCheckAndRecord hip hinst s
  · refine wp_mono (fun a s _ hip' => absurd hip' hip) (wp_of_ops (fun s o ho => Or.inl ho) ?_ s)
    exact prog_spares cfg (tasks i).inst hip (tasks i).method

theorem exec_now (s : Fleet) (i : Nat) (o : Op) (f : Fate) :
    (exec server cfg s i o f).2.now = s.now := by
  have hgrant : ∀ (s : Fleet) b g, (s.grantIf b g).now = s.now := by
    intro s b g
    unfold Fleet.grantIf
    split_ifs <;> rfl
  cases o with
  | shadow k step =>
      cases step
      case tryRecord ip' => exact hgrant _ _ _
      all_goals rfl
  | tryScript ip' =>
      cases f
      · exact hgrant _ _ _
      all_goals rfl
  | get ip' => cases f <;> rfl
  | incrWithExpire ip' => cases f <;> rfl
  | del ip' => cases f <;> rfl

theorem now_le_move (s : Fleet) (e : Move) : s.now ≤ (move server cfg s e).now := by
  cases e with
  | tick nanos => exact le_add_of_nonneg_right (Int.natCast_nonneg nanos)
  | takeEffect n =>
      unfold move
      simp only
      split
      · next w _ => cases w <;> exact le_rfl
      · exact le_rfl

variable (tasks ip first) in
/-- The shadows have room, and no call for `ip` takes a step before `first`. -/
def Proper (c : Cfg Fleet Op Res RateAnswer) (a : Label Fate Move) : Prop :=
  (∀ k, (c.shared.shadow k).entries.rows.length < maxEntries) ∧
    ∀ i f, a = .run i f → (tasks i).ip = ip → first ≤ c.shared.now

/-- Every run keeps the counters of `ip` guarded until the window is over. -/
theorem guarded_run (hw : 0 < ofSecs cfg.windowSeconds)
    (htasks : ∀ i, (tasks i).ip = ip → (tasks i).method = .tryCheckAndRecord ∧
      (tasks i).inst < instances)
    {s : Fleet} (hs : Guarded cfg ip first s) {l : List (Label Fate Move)}
    (hl : (machine server cfg).Along (Proper tasks ip first) (fleet cfg tasks s) l)
    (hend : ((machine server cfg).run (fleet cfg tasks s) l).shared.now <
      first + ofSecs cfg.windowSeconds) :
    Guarded cfg ip first ((machine server cfg).run (fleet cfg tasks s) l).shared := by
  refine run_shared (Q := Served instances tasks ip)
    (I := fun s => s.now < first + ofSecs cfg.windowSeconds → Guarded cfg ip first s)
    outageContract_sound (fun i a s s' hs => Served.mono hs) (fun i c e _ => move_grants c.shared e)
    (fun {c i o k f} _ hg ho hI hnow => ?_) (fun {c e} _ hI hnow => ?_) hl
      (fun i => wp_task htasks i s)
    (fun _ => hs) hend
  · have hnow' : c.shared.now < first + ofSecs cfg.windowSeconds := by
      rwa [← exec_now c.shared i o f]
    exact guarded_exec hw (hI hnow') hnow' hg.1 i f
      (ho.imp id fun ⟨hip, ho⟩ => ⟨hg.2 i f rfl hip, ho⟩)
  · exact guarded_move hw (hI ((now_le_move c.shared e).trans_lt hnow)) e hnow

end Run

/-- Each call that was let through has a grant of its own. -/
theorem card_le_granted {s : Fleet} {ip : IpAddr} {src : Source} {calls : Finset Nat}
    (h : ∀ i ∈ calls, (⟨i, ip, src⟩ : Grant) ∈ s.grants) : calls.card ≤ s.granted ip src := by
  have hsub :
      calls ⊆ ((s.grants.filter fun g => g.ip = ip ∧ g.source = src).map (·.call)).toFinset := by
    intro i hi
    rw [List.mem_toFinset, List.mem_map]
    exact ⟨_, List.mem_filter.mpr ⟨h i hi, by simp⟩, rfl⟩
  calc calls.card ≤ _ := Finset.card_le_card hsub
    _ ≤ ((s.grants.filter fun g => g.ip = ip ∧ g.source = src).map (·.call)).length :=
      List.toFinset_card_le _
    _ = s.granted ip src := by rw [List.length_map, Fleet.granted, List.countP_eq_length_filter]

theorem card_sources_le (instances : Nat) : (sources instances).card ≤ instances + 1 := by
  refine (Finset.card_insert_le _ _).trans (Nat.succ_le_succ ?_)
  exact Finset.card_image_le.trans_eq (Finset.card_range instances)

/-- Nothing has been counted for `ip`, and nothing that is under way will be. -/
structure Unused (cfg : RedisRateLimiter) (ip : IpAddr) (s : Fleet) : Prop where
  key : s.counters.live? s.now ip = none
  entry : ∀ k, (s.shadow k).entryOf ip = none
  config : ∀ k, (s.shadow k).windowDuration = ofSecs cfg.windowSeconds ∧
    (s.shadow k).maxAttempts = cfg.maxAttempts
  late : ∀ w ∈ s.late, w ≠ .script ip ∧ w ≠ .del ip
  grants : ∀ g ∈ s.grants, g.ip ≠ ip

theorem Unused.guarded {cfg : RedisRateLimiter} {ip : IpAddr} {s : Fleet} (h : Unused cfg ip s)
    (first : Instant) :
    Guarded cfg ip first s := by
  have hnone : ∀ src, s.granted ip src = 0 := by
    intro src
    refine List.countP_eq_zero.mpr fun g hg => ?_
    simp [h.grants g hg]
  refine ⟨fun src => ?_, fun src => ?_, fun c e hc => ?_, fun k e he => ?_, h.config,
    fun w hw => ?_⟩
  · rw [hnone]
    exact Nat.zero_le _
  · rw [hnone]
    exact Nat.zero_le _
  · rw [h.key] at hc
    cases hc
  · rw [h.entry] at he
    cases he
  · exact ⟨(h.late w hw).2, fun heq => absurd heq (h.late w hw).1⟩

/-- **Protection degrades, but does not vanish.** Within a window of the first call of
`try_check_and_record` for `ip`, whatever becomes of the commands sent to Redis, at most
`(instances + 1) * max_attempts` of these calls return `true`. -/
theorem outage_bound (server : RedisServer) (cfg : RedisRateLimiter)
    (hwindow : 1 ≤ cfg.windowSeconds) (instances : Nat) (tasks : Nat → Task) (ip : IpAddr)
    (htasks : ∀ i, (tasks i).ip = ip → (tasks i).method = .tryCheckAndRecord ∧
      (tasks i).inst < instances)
    (s : Fleet) (hs : Unused cfg ip s) (first : Instant) (l : List (Label Fate Move))
    (hl : (machine server cfg).Along (Proper tasks ip first) (fleet cfg tasks s) l)
    (hend : ((machine server cfg).run (fleet cfg tasks s) l).shared.now <
      first + ofSecs cfg.windowSeconds)
    (calls : Finset Nat)
    (hcalls : ∀ i ∈ calls, (tasks i).ip = ip ∧
      ((machine server cfg).run (fleet cfg tasks s) l).thread i = .ret (.allowed true)) :
    calls.card ≤ (instances + 1) * cfg.maxAttempts := by
  have hw : 0 < ofSecs cfg.windowSeconds :=
    MemoryRateLimiter.new_windowDuration_pos cfg.maxAttempts hwindow
  have hguard := guarded_run hw htasks (hs.guarded first) hl hend
  have hserved : ∀ i ∈ calls, ∃ src ∈ sources instances,
      (⟨i, ip, src⟩ : Grant) ∈ ((machine server cfg).run (fleet cfg tasks s) l).shared.grants := by
    intro i hi
    obtain ⟨hip, hret⟩ := hcalls i hi
    have hpost : Served instances tasks ip i (.allowed true)
        ((machine server cfg).run (fleet cfg tasks s) l).shared :=
      run_post (Q := Served instances tasks ip) outageContract_sound
        (fun i a s s' hs => Served.mono hs)
        (fun i c e _ => move_grants c.shared e) hl (fun i => wp_task htasks i s) hret
    exact hpost hip rfl
  have : Nonempty Source := ⟨.redis⟩
  choose! source hsource hgrant using hserved
  calc calls.card
      ≤ cfg.maxAttempts * (sources instances).card := by
        refine Finset.card_le_mul_card_image_of_maps_to hsource _ fun src _ => ?_
        refine (card_le_granted fun i hi => ?_).trans (hguard.capped src)
        obtain ⟨hmem, rfl⟩ := Finset.mem_filter.mp hi
        exact hgrant i hmem
    _ ≤ cfg.maxAttempts * (instances + 1) := Nat.mul_le_mul_left _ (card_sources_le instances)
    _ = (instances + 1) * cfg.maxAttempts := Nat.mul_comm _ _

/-- Two calls on one instance with the limit `1`, the second of them while Redis fails. -/
def outageTasks : Nat → Task :=
  fun i => if i < 2 then ⟨.tryCheckAndRecord, 0, .v4 1⟩ else ⟨.check, 0, .v4 2⟩

def outageSchedule : List (Label Fate Move) :=
  [.run 0 .done, .run 1 .failed, .run 1 .done, .run 1 .done]

theorem outage_bound_shadow :
    (∀ i ∈ ({0, 1} : Finset Nat), ((machine ⟨fun _ _ => true⟩ ⟨1, 1⟩).run
      (fleet ⟨1, 1⟩ outageTasks (Fleet.new ⟨1, 1⟩ 0)) outageSchedule).thread i =
        .ret (.allowed true)) ∧
    ({0, 1} : Finset Nat).card ≤ (1 + 1) * 1 := by
  have hret : ∀ i ∈ ({0, 1} : Finset Nat), ((machine ⟨fun _ _ => true⟩ ⟨1, 1⟩).run
      (fleet ⟨1, 1⟩ outageTasks (Fleet.new ⟨1, 1⟩ 0)) outageSchedule).thread i =
        .ret (.allowed true) := by
    intro i hi
    rcases Finset.mem_insert.mp hi with rfl | hi
    · rfl
    · rw [Finset.mem_singleton.mp hi]
      rfl
  have hone : ∀ {i}, (outageTasks i).ip = .v4 1 → i < 2 := by
    intro i hip
    by_contra hi
    rw [outageTasks, if_neg hi] at hip
    cases hip
  refine ⟨hret, outage_bound ⟨fun _ _ => true⟩ ⟨1, 1⟩ le_rfl 1 outageTasks (.v4 1) (fun i hip => ?_)
    (Fleet.new ⟨1, 1⟩ 0) ?_ 0 outageSchedule ?_ (by decide) {0, 1} fun i hi => ⟨?_, hret i hi⟩⟩
  · rw [outageTasks, if_pos (hone hip)]
    exact ⟨rfl, Nat.zero_lt_one⟩
  · exact ⟨rfl, fun _ => rfl, fun _ => ⟨rfl, rfl⟩, nofun, nofun⟩
  · have hroom : 0 < maxEntries := by decide
    refine ⟨⟨fun _ => hroom, fun _ _ _ _ => le_rfl⟩, ⟨fun _ => hroom, fun _ _ _ _ => le_rfl⟩,
      ⟨fun _ => hroom, fun _ _ _ _ => le_rfl⟩, ⟨fun k => ?_, fun _ _ _ _ => le_rfl⟩, trivial⟩
    cases k <;> exact hroom
  · have hi' : i < 2 := by
      rcases Finset.mem_insert.mp hi with rfl | hi
      · decide
      · rw [Finset.mem_singleton.mp hi]
        decide
    rw [outageTasks, if_pos hi']

end AppHome.RateLimit
