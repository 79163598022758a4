import AppHome.RateLimit.Redis

/-!
# The two limiters agree

`limiters_agree`: as long as Redis answers, a `RedisRateLimiter` and a `MemoryRateLimiter` that get
the same calls at the same times give the same answers. They do not count alike: Redis also counts
refused attempts.

* `Matches` : an address has a live entry in memory exactly when it has a live key in Redis, the key
  expires when the window is over, and the two counts are equal or both have reached the limit;
* `Agree` : that for all addresses, with what bounds the counters;
* `Agree.later` : it survives the passing of time, since entry and key expire at the same instant;
* `agree_call` : one call of any method keeps it and is answered alike.
-/

namespace AppHome.RateLimit

open Interleave

/-! ## Calls to Redis -/

section Calls
variable (server : RedisServer) (cfg : RedisRateLimiter)

/-- A call while Redis answers, with one clock reading. -/
def call (s : Fleet) (c : RateCall) : RateAnswer × Fleet :=
  (machine server cfg).alone 0 (prog cfg 0 c.ip c.method) { s with now := c.now } fun _ => .done

/-- The answers of a run, in order. -/
def answers (s : Fleet) : List RateCall → List RateAnswer
  | [] => []
  | c :: calls => (call server cfg s c).1 :: answers (call server cfg s c).2 calls

variable {s : Fleet} {c : RateCall}

theorem call_check {o : Option Nat} (hm : c.method = .check)
    (hget : s.counters.get c.now c.ip = some o) :
    call server cfg s c =
      (.allowed (o.all fun n => n < cfg.maxAttempts), { s with now := c.now }) := by
  cases o <;>
    simp [call, hm, prog, check, Bind.bind, Prog.bind, Machine.alone, machine, exec, hget]

theorem call_remainingAttempts {o : Option Nat} (hm : c.method = .remainingAttempts)
    (hget : s.counters.get c.now c.ip = some o) :
    call server cfg s c = (.remaining (cfg.maxAttempts - o.getD 0), { s with now := c.now }) := by
  cases o <;>
    simp [call, hm, prog, remainingAttempts, Bind.bind, Prog.bind, Machine.alone,
      machine, exec, hget]

theorem call_recordAttempt {n : Nat} (hm : c.method = .recordAttempt)
    (hincr : (s.counters.incrWithExpire server cfg.windowSeconds c.now c.ip).1 = some n) :
    (call server cfg s c).1 = .unit ∧ (call server cfg s c).2.counters =
      (s.counters.incrWithExpire server cfg.windowSeconds c.now c.ip).2 := by
  simp [call, hm, prog, recordAttempt, Bind.bind, Prog.bind, Machine.alone, machine, exec,
    perform, hincr]

theorem call_tryCheckAndRecord {n : Nat} (hm : c.method = .tryCheckAndRecord)
    (hincr : (s.counters.incrWithExpire server cfg.windowSeconds c.now c.ip).1 = some n) :
    (call server cfg s c).1 = .allowed (n ≤ cfg.maxAttempts) ∧ (call server cfg s c).2.counters =
      (s.counters.incrWithExpire server cfg.windowSeconds c.now c.ip).2 := by
  have htry : (s.counters.tryScript server cfg.windowSeconds cfg.maxAttempts c.now c.ip).1 =
      some (decide (n ≤ cfg.maxAttempts)) := by
    simp [Counters.tryScript, hincr]
  simp only [call, hm, prog, tryCheckAndRecord, Bind.bind, Prog.bind, Machine.alone,
    machine, exec, htry, true_and]
  unfold Fleet.grantIf
  split_ifs <;> rfl

theorem call_reset (hm : c.method = .reset) :
    (call server cfg s c).1 = .unit ∧ (call server cfg s c).2.counters = s.counters.del c.ip := by
  simp [call, hm, prog, reset, Bind.bind, Prog.bind, Machine.alone, machine, exec,
    perform, shadowExec, Fleet.setShadow]

end Calls

/-! ## Live entries -/

/-- The entry of an address, unless its window is over. -/
def liveEntryOf (l : MemoryRateLimiter) (now : Instant) (ip : IpAddr) : Option RateLimitEntry :=
  (l.cleanExpired now).entryOf ip

section Live
variable {l : MemoryRateLimiter} {k : Counters} {now t : Instant} {ip ip' : IpAddr}

theorem liveEntryOf_some {e : RateLimitEntry} (h : liveEntryOf l now ip = some e) :
    l.entryOf ip = some e ∧ l.elapsed now e = false := by
  rw [liveEntryOf, MemoryRateLimiter.entryOf_cleanExpired, Option.filter_eq_some_iff] at h
  simpa using h

@[simp] theorem liveEntryOf_cleanExpired :
    liveEntryOf (l.cleanExpired now) now ip = liveEntryOf l now ip := by
  have helapsed : ∀ e, (l.cleanExpired now).elapsed now e = l.elapsed now e := fun _ => rfl
  simp only [liveEntryOf, MemoryRateLimiter.entryOf_cleanExpired, Option.filter_filter, helapsed,
    Bool.and_self]

theorem allows_cleanExpired : (l.cleanExpired now).allows now ip =
    (liveEntryOf l now ip).all fun e => e.attempts < l.maxAttempts := by
  unfold MemoryRateLimiter.allows
  cases he : liveEntryOf l now ip with
  | none =>
      rw [liveEntryOf] at he
      simp only [he, Option.all_none]
  | some e =>
      have helapsed : (l.cleanExpired now).elapsed now e = false := (liveEntryOf_some he).2
      rw [liveEntryOf] at he
      simp only [he, helapsed]
      rfl

theorem remainingAttempts_eq : l.remainingAttempts now ip =
    l.maxAttempts - ((liveEntryOf l now ip).map (·.attempts)).getD 0 := by
  unfold MemoryRateLimiter.remainingAttempts
  rw [liveEntryOf, MemoryRateLimiter.entryOf_cleanExpired]
  cases l.entryOf ip with
  | none => rfl
  | some e => cases he : l.elapsed now e <;> simp [he, Option.filter_some]

theorem liveEntryOf_store {e : RateLimitEntry} (he : l.elapsed now e = false) :
    liveEntryOf ((l.cleanExpired now).store ip e) now ip' = if ip = ip' then
      some e else liveEntryOf l now ip' := by
  rw [liveEntryOf, MemoryRateLimiter.entryOf_cleanExpired, MemoryRateLimiter.entryOf_store]
  have helapsed : ∀ e', ((l.cleanExpired now).store ip e).elapsed now e' = l.elapsed now e' :=
    fun _ => rfl
  simp only [helapsed]
  split_ifs with h
  · simp [he]
  · rw [MemoryRateLimiter.entryOf_cleanExpired, Option.filter_filter, liveEntryOf,
      MemoryRateLimiter.entryOf_cleanExpired]
    simp

theorem get_eq (h : ∀ c, k.live? now ip = some c → c.value < 2 ^ 32) :
    k.get now ip = some ((k.live? now ip).map (·.value)) := by
  unfold Counters.get
  cases hk : k.live? now ip with
  | none => rfl
  | some c =>
      have hlt : c.value < 2 ^ 32 := h c hk
      simp only [hlt, if_true, Option.map_some]

end Live

/-! ## The relation -/

/-- A live entry and a live key of one address. -/
inductive Matches (maxAttempts : Nat) (w : Int) : Option RateLimitEntry → Option RedisCounter → Prop
  | none : Matches maxAttempts w none none
  | some {m c : Nat} {start : Instant} (hpos : 1 ≤ c) (hle : m ≤ c)
    (hcap : m = c ∨ maxAttempts ≤ m) :
    Matches maxAttempts w (some ⟨m, start⟩) (some ⟨c, some (start + w)⟩)

/-- The limiters after the calls `done`, at the reading `now`. -/
structure Agree (l : MemoryRateLimiter) (k : Counters) (done : List RateCall)
    (now : Instant) : Prop where
  matching : ∀ ip, Matches l.maxAttempts l.windowDuration (liveEntryOf l now ip) (k.live? now ip)
  counted : ∀ ip c start, k.live? now ip = some ⟨c, some (start + l.windowDuration)⟩ →
    c ≤ attemptsIn done ip start (start + l.windowDuration)
  started : ∀ ip e, liveEntryOf l now ip = some e → e.windowStart ≤ now

section Relation
variable {l l' : MemoryRateLimiter} {k k' : Counters} {done : List RateCall} {now t : Instant}

theorem liveEntryOf_later (hw : 0 < l.windowDuration) (h : now ≤ t) (ip : IpAddr) :
    liveEntryOf l t ip = (liveEntryOf l now ip).filter fun e => !l.elapsed t e := by
  simp only [liveEntryOf, MemoryRateLimiter.entryOf_cleanExpired, Option.filter_filter]
  congr 1
  funext e
  by_cases he : l.elapsed now e = true
  · have hend : e.windowStart + l.windowDuration ≤ t :=
      ((MemoryRateLimiter.elapsed_eq_true_iff hw).mp he).trans h
    simp [he, (MemoryRateLimiter.elapsed_eq_true_iff hw).mpr hend]
  · simp [he]

/-- The window in memory and the key in Redis end at the same instant. -/
theorem Agree.later (hw : 0 < l.windowDuration) (h : Agree l k done now) (ht : now ≤ t) :
    Agree l k done t := by
  refine ⟨fun ip => ?_, fun ip c start hc => ?_, fun ip e he => ?_⟩
  · rw [liveEntryOf_later hw ht, Counters.live?_later ht]
    have hm := h.matching ip
    generalize liveEntryOf l now ip = e at hm
    generalize k.live? now ip = c at hm
    cases hm with
    | none => exact .none
    | @some m c start hpos hle hcap =>
        rw [Option.filter_some, Option.filter_some]
        by_cases hlt : t < start + l.windowDuration
        · have helapsed : l.elapsed t ⟨m, start⟩ = false :=
            (MemoryRateLimiter.elapsed_eq_false_iff hw).mpr hlt
          have hlive : (⟨c, some (start + l.windowDuration)⟩ : RedisCounter).live t = true :=
            decide_eq_true hlt
          rw [helapsed, hlive]
          exact .some hpos hle hcap
        · have helapsed : l.elapsed t ⟨m, start⟩ = true :=
            (MemoryRateLimiter.elapsed_eq_true_iff hw).mpr (not_lt.mp hlt)
          have hlive : (⟨c, some (start + l.windowDuration)⟩ : RedisCounter).live t = false :=
            decide_eq_false hlt
          rw [helapsed, hlive]
          exact .none
  · rw [Counters.live?_later ht, Option.filter_eq_some_iff] at hc
    exact h.counted ip c start hc.1
  · rw [liveEntryOf_later hw ht, Option.filter_eq_some_iff] at he
    exact (h.started ip e he.1).trans ht

theorem Agree.put {c : RateCall} (h : Agree l k done c.now) (hc : c.method.isAttempt = true)
    {m n : Nat} {start : Instant} (hstart : start ≤ c.now)
    (hend : c.now < start + l.windowDuration) (hdur : l'.windowDuration = l.windowDuration)
    (hmax : l'.maxAttempts = l.maxAttempts)
    (hl : ∀ ip, liveEntryOf l' c.now ip = if c.ip = ip then
      some ⟨m, start⟩ else liveEntryOf l c.now ip)
    (hk : ∀ ip, k'.live? c.now ip = if c.ip = ip then
      some ⟨n, some (start + l.windowDuration)⟩ else k.live? c.now ip)
    (hpos : 1 ≤ n) (hle : m ≤ n) (hcap : m = n ∨ l.maxAttempts ≤ m)
    (hcount : n ≤ attemptsIn done c.ip start (start + l.windowDuration) + 1) :
    Agree l' k' (done ++ [c]) c.now := by
  refine ⟨fun ip => ?_, fun ip v start' hv => ?_, fun ip e he => ?_⟩
  · rw [hl, hk, hdur, hmax]
    split_ifs with hip
    · exact .some hpos hle hcap
    · exact h.matching ip
  · rw [hk, hdur] at hv
    rw [hdur]
    split_ifs at hv with hip
    · have hv' : n = v ∧ start + l.windowDuration = start' + l.windowDuration := by simpa using hv
      obtain ⟨rfl, hs⟩ := hv'
      rw [← hip, ← add_right_cancel hs, attemptsIn_append_attempt hc hstart hend]
      exact hcount
    · exact (h.counted ip v start' hv).trans (attemptsIn_le_append done [c] ip _ _)
  · rw [hl] at he
    split_ifs at he with hip
    · cases he
      exact hstart
    · exact h.started ip e he

theorem Agree.erase {ip : IpAddr} (h : Agree l k done now) (c : RateCall)
    (hdur : l'.windowDuration = l.windowDuration) (hmax : l'.maxAttempts = l.maxAttempts)
    (hl : ∀ ip', liveEntryOf l' now ip' = if ip' = ip then none else liveEntryOf l now ip') :
    Agree l' (k.del ip) (done ++ [c]) now := by
  refine ⟨fun ip' => ?_, fun ip' v start hv => ?_, fun ip' e he => ?_⟩
  · rw [hl, Counters.live?_del, hdur, hmax]
    split_ifs
    · exact .none
    · exact h.matching ip'
  · rw [Counters.live?_del, hdur] at hv
    rw [hdur]
    split_ifs at hv
    exact (h.counted ip' v start hv).trans (attemptsIn_le_append done [c] ip' _ _)
  · rw [hl] at he
    split_ifs at he
    exact h.started ip' e he

theorem Agree.frame (h : Agree l k done now) (c : RateCall)
    (hdur : l'.windowDuration = l.windowDuration) (hmax : l'.maxAttempts = l.maxAttempts)
    (hl : ∀ ip, liveEntryOf l' now ip = liveEntryOf l now ip) :
    Agree l' k (done ++ [c]) now := by
  refine ⟨fun ip => ?_, fun ip v start hv => ?_, fun ip e he => ?_⟩
  · rw [hl, hdur, hmax]
    exact h.matching ip
  · rw [hdur] at hv ⊢
    exact (h.counted ip v start hv).trans (attemptsIn_le_append done [c] ip _ _)
  · rw [hl] at he
    exact h.started ip e he

end Relation

/-! ## One call -/

section Call
variable {server : RedisServer} {cfg : RedisRateLimiter} {l : MemoryRateLimiter} {k : Counters}
  {now : Instant}
  {ip : IpAddr}

theorem incrWithExpire_none (haccept : server.expireAccepts cfg.windowSeconds now = true)
    (h : k.live? now ip = none) :
    k.incrWithExpire server cfg.windowSeconds now ip =
      (some 1, k.put (ip, ⟨1, some (now + ofSecs cfg.windowSeconds)⟩)) := by
  simp [Counters.incrWithExpire, Counters.incr, h, haccept]

theorem incrWithExpire_some {c : RedisCounter} (hpos : 1 ≤ c.value) (h : k.live? now ip = some c) :
    k.incrWithExpire server cfg.windowSeconds now ip =
      (some (c.value + 1), k.put (ip, ⟨c.value + 1, c.expiresAt⟩)) := by
  have hne : c.value ≠ 0 := Nat.pos_iff_ne_zero.mp hpos
  simp [Counters.incrWithExpire, Counters.incr, h, hne]

theorem liveEntryOf_lt_end (hw : 0 < l.windowDuration) {e : RateLimitEntry}
    (h : liveEntryOf l now ip = some e) :
    now < e.windowStart + l.windowDuration :=
  (MemoryRateLimiter.elapsed_eq_false_iff hw).mp (liveEntryOf_some h).2

theorem recordAttempt_eq (hroom : l.entries.rows.length < maxEntries) : l.recordAttempt now now ip =
    (l.cleanExpired now).store ip (l.recorded now ((liveEntryOf l now ip).getD ⟨0, now⟩)) := by
  have hroom' : (l.cleanExpired now).entries.rows.length < maxEntries :=
    (MemoryRateLimiter.cleanExpired_length_le now).trans_lt hroom
  rw [MemoryRateLimiter.recordAttempt, MemoryRateLimiter.record,
    MemoryRateLimiter.makeRoom_eq hroom']
  rfl

theorem tryCheckAndRecord_eq (hroom : l.entries.rows.length < maxEntries) :
    l.tryCheckAndRecord now now ip =
    ((l.tried now ((liveEntryOf l now ip).getD ⟨0, now⟩)).1,
      (l.cleanExpired now).store ip (l.tried now ((liveEntryOf l now ip).getD ⟨0, now⟩)).2) := by
  have hroom' : (l.cleanExpired now).entries.rows.length < maxEntries :=
    (MemoryRateLimiter.cleanExpired_length_le now).trans_lt hroom
  rw [MemoryRateLimiter.tryCheckAndRecord, MemoryRateLimiter.tryRecord_eq hroom']
  rfl

variable {done : List RateCall} {c : RateCall}

theorem Agree.view (h : Agree l k done now) (ip : IpAddr) :
    (liveEntryOf l now ip = none ∧ k.live? now ip = none) ∨
      ∃ m n start, liveEntryOf l now ip = some ⟨m, start⟩ ∧
        k.live? now ip = some ⟨n, some (start + l.windowDuration)⟩ ∧
        1 ≤ n ∧ m ≤ n ∧ (m = n ∨ l.maxAttempts ≤ m) := by
  have hm := h.matching ip
  generalize he : liveEntryOf l now ip = e at hm
  generalize hc : k.live? now ip = v at hm
  cases hm with
  | none => exact Or.inl ⟨rfl, rfl⟩
  | some hpos hle hcap => exact Or.inr ⟨_, _, _, rfl, rfl, hpos, hle, hcap⟩

section Attempt
variable (hw : 0 < l.windowDuration) (hc : c.method.isAttempt = true) (h : Agree l k done c.now)
include hw hc h

/-- Both limiters count an attempt of an address that has no window. -/
theorem Agree.attempt_none (hdur : l.windowDuration = ofSecs cfg.windowSeconds)
    (haccept : server.expireAccepts cfg.windowSeconds c.now = true) (hk : k.live? c.now c.ip = none)
    {m : Nat} (hm : m = 1 ∨ m = 0 ∧ l.maxAttempts = 0) :
    Agree ((l.cleanExpired c.now).store c.ip ⟨m, c.now⟩)
      (k.incrWithExpire server cfg.windowSeconds c.now c.ip).2
      (done ++ [c]) c.now := by
  have hlt : c.now < c.now + l.windowDuration := lt_add_of_pos_right _ hw
  have helapsed : l.elapsed c.now ⟨m, c.now⟩ = false :=
    (MemoryRateLimiter.elapsed_eq_false_iff hw).mpr hlt
  have hlive : (⟨1, some (c.now + l.windowDuration)⟩ : RedisCounter).live c.now = true :=
    decide_eq_true hlt
  rw [incrWithExpire_none haccept hk, ← hdur]
  refine h.put hc le_rfl hlt rfl rfl (fun ip => liveEntryOf_store helapsed)
    (fun ip => Counters.live?_put hlive) le_rfl ?_ ?_
    (Nat.le_add_left 1 _)
  · omega
  · omega

/-- Both limiters count an attempt in a window; memory may refuse it once the limit is reached. -/
theorem Agree.attempt_some {m n : Nat} {start : Instant}
    (hl : liveEntryOf l c.now c.ip = some ⟨m, start⟩)
    (hk : k.live? c.now c.ip = some ⟨n, some (start + l.windowDuration)⟩) (hpos : 1 ≤ n)
    (hle : m ≤ n) (hcap : m = n ∨ l.maxAttempts ≤ m) {m' : Nat}
    (hm : m' = m + 1 ∨ m' = m ∧ l.maxAttempts ≤ m) :
    Agree ((l.cleanExpired c.now).store c.ip ⟨m', start⟩)
      (k.incrWithExpire server cfg.windowSeconds c.now c.ip).2
      (done ++ [c]) c.now := by
  have hlt : c.now < start + l.windowDuration := liveEntryOf_lt_end hw hl
  have helapsed : l.elapsed c.now ⟨m', start⟩ = false :=
    (MemoryRateLimiter.elapsed_eq_false_iff hw).mpr hlt
  have hlive : (⟨n + 1, some (start + l.windowDuration)⟩ : RedisCounter).live c.now = true :=
    decide_eq_true hlt
  have hcount := h.counted c.ip n start hk
  have hstart : start ≤ c.now := h.started c.ip _ hl
  have hincr : k.incrWithExpire server cfg.windowSeconds c.now c.ip =
      (some (n + 1), k.put (c.ip, ⟨n + 1, some (start + l.windowDuration)⟩)) :=
        incrWithExpire_some hpos hk
  rw [hincr]
  refine h.put hc hstart hlt rfl rfl (fun ip => liveEntryOf_store helapsed)
    (fun ip => Counters.live?_put hlive) ?_ ?_ ?_ ?_
  · omega
  · omega
  · omega
  · omega

end Attempt

section Step
variable {s : Fleet} (hw : 0 < l.windowDuration)
  (hdur : l.windowDuration = ofSecs cfg.windowSeconds)
  (hmax : l.maxAttempts = cfg.maxAttempts) (hone : c.cleanAt = c.now)
  (h : Agree l s.counters done c.now)
include hw hdur hmax hone h

omit hmax in
theorem agree_recordAttempt (haccept : server.expireAccepts cfg.windowSeconds c.now = true)
    (hroom : l.entries.rows.length < maxEntries) (hm : c.method = .recordAttempt)
    (hwrap : ∀ a, attemptsIn (done ++ [c]) c.ip a (a + l.windowDuration) < 2 ^ 32) :
    (call server cfg s c).1 = (l.call c).1 ∧
      Agree (l.call c).2 (call server cfg s c).2.counters (done ++ [c]) c.now := by
  have hc : c.method.isAttempt = true := by rw [hm]; rfl
  simp only [MemoryRateLimiter.call, hm, hone, recordAttempt_eq hroom]
  rcases h.view c.ip with ⟨hl, hk⟩ | ⟨m, n, start, hl, hk, hpos, hle, hcap⟩
  · have hnew : l.recorded c.now ⟨0, c.now⟩ = ⟨1, c.now⟩ := by
      have hlive : l.elapsed c.now ⟨0, c.now⟩ = false :=
        (MemoryRateLimiter.elapsed_eq_false_iff hw).mpr (lt_add_of_pos_right _ hw)
      rw [MemoryRateLimiter.recorded, hlive]
      rfl
    obtain ⟨hans, hcounters⟩ := call_recordAttempt server cfg hm
      (congrArg Prod.fst (incrWithExpire_none haccept hk))
    rw [hans, hcounters, hl, Option.getD_none, hnew]
    exact ⟨rfl, h.attempt_none hw hc hdur haccept hk (Or.inl rfl)⟩
  · have hcount := h.counted c.ip n start hk
    have hstart : start ≤ c.now := h.started c.ip _ hl
    have hend : c.now < start + l.windowDuration := liveEntryOf_lt_end hw hl
    have hlt := hwrap start
    rw [attemptsIn_append_attempt hc hstart hend] at hlt
    have hmod : (m + 1) % 2 ^ 32 = m + 1 := Nat.mod_eq_of_lt (by omega)
    have hnew : l.recorded c.now ⟨m, start⟩ = ⟨m + 1, start⟩ := by
      rw [MemoryRateLimiter.recorded, (liveEntryOf_some hl).2, if_neg Bool.false_ne_true, hmod]
    obtain ⟨hans, hcounters⟩ := call_recordAttempt server cfg hm
      (congrArg Prod.fst (incrWithExpire_some hpos hk))
    rw [hans, hcounters, hl, Option.getD_some, hnew]
    exact ⟨rfl, h.attempt_some hw hc hl hk hpos hle hcap (Or.inl rfl)⟩

theorem agree_tryCheckAndRecord (haccept : server.expireAccepts cfg.windowSeconds c.now = true)
    (hroom : l.entries.rows.length < maxEntries) (hm : c.method = .tryCheckAndRecord) :
    (call server cfg s c).1 = (l.call c).1 ∧
      Agree (l.call c).2 (call server cfg s c).2.counters (done ++ [c]) c.now := by
  have hc : c.method.isAttempt = true := by rw [hm]; rfl
  simp only [MemoryRateLimiter.call, hm, hone, tryCheckAndRecord_eq hroom]
  rcases h.view c.ip with ⟨hl, hk⟩ | ⟨m, n, start, hl, hk, hpos, hle, hcap⟩
  · have hlive : l.elapsed c.now ⟨0, c.now⟩ = false :=
      (MemoryRateLimiter.elapsed_eq_false_iff hw).mpr (lt_add_of_pos_right _ hw)
    obtain ⟨hans, hcounters⟩ := call_tryCheckAndRecord server cfg hm
      (congrArg Prod.fst (incrWithExpire_none haccept hk))
    rw [hans, hcounters, hl, Option.getD_none, MemoryRateLimiter.tried, hlive,
      if_neg Bool.false_ne_true, ← hmax]
    by_cases hzero : 1 ≤ l.maxAttempts
    · rw [if_pos (show 0 < l.maxAttempts from hzero)]
      exact ⟨by rw [decide_eq_true hzero], h.attempt_none hw hc hdur haccept hk (Or.inl rfl)⟩
    · rw [if_neg (show ¬ 0 < l.maxAttempts from hzero)]
      exact ⟨by rw [decide_eq_false hzero],
        h.attempt_none hw hc hdur haccept hk (Or.inr ⟨rfl, by omega⟩)⟩
  · obtain ⟨hans, hcounters⟩ := call_tryCheckAndRecord server cfg hm
      (congrArg Prod.fst (incrWithExpire_some hpos hk))
    rw [hans, hcounters, hl, Option.getD_some, MemoryRateLimiter.tried, (liveEntryOf_some hl).2,
      if_neg Bool.false_ne_true, ← hmax]
    -- below the limit the two counts are equal, so they reach it together
    by_cases hlt : m < l.maxAttempts
    · have hn : n + 1 ≤ l.maxAttempts := by omega
      rw [if_pos hlt]
      exact ⟨by rw [decide_eq_true hn], h.attempt_some hw hc hl hk hpos hle hcap (Or.inl rfl)⟩
    · have hn : ¬ n + 1 ≤ l.maxAttempts := by omega
      rw [if_neg hlt]
      exact ⟨by rw [decide_eq_false hn],
        h.attempt_some hw hc hl hk hpos hle hcap (Or.inr ⟨rfl, by omega⟩)⟩

omit hw hdur in
theorem agree_check
    (hget : s.counters.get c.now c.ip = some ((s.counters.live? c.now c.ip).map (·.value)))
    (hm : c.method = .check) :
    (call server cfg s c).1 = (l.call c).1 ∧
      Agree (l.call c).2 (call server cfg s c).2.counters (done ++ [c]) c.now := by
  simp only [MemoryRateLimiter.call, hm, hone, MemoryRateLimiter.check, allows_cleanExpired,
    call_check server cfg hm hget]
  refine ⟨congrArg RateAnswer.allowed ?_, h.frame c rfl rfl fun ip => liveEntryOf_cleanExpired⟩
  rcases h.view c.ip with ⟨hl, hk⟩ | ⟨m, n, start, hl, hk, hpos, hle, hcap⟩
  · rw [hl, hk]
    rfl
  · rw [hl, hk, ← hmax]
    show decide (n < l.maxAttempts) = decide (m < l.maxAttempts)
    exact decide_eq_decide.mpr (by omega)

omit hw hdur hone in
theorem agree_remainingAttempts
    (hget : s.counters.get c.now c.ip = some ((s.counters.live? c.now c.ip).map (·.value)))
    (hm : c.method = .remainingAttempts) :
    (call server cfg s c).1 = (l.call c).1 ∧
      Agree (l.call c).2 (call server cfg s c).2.counters (done ++ [c]) c.now := by
  simp only [MemoryRateLimiter.call, hm, remainingAttempts_eq,
    call_remainingAttempts server cfg hm hget]
  refine ⟨congrArg RateAnswer.remaining ?_, h.frame c rfl rfl fun ip => rfl⟩
  rcases h.view c.ip with ⟨hl, hk⟩ | ⟨m, n, start, hl, hk, hpos, hle, hcap⟩
  · rw [hl, hk, hmax]
    rfl
  · rw [hl, hk, ← hmax]
    show l.maxAttempts - n = l.maxAttempts - m
    omega

omit hw hdur hmax hone in
theorem agree_reset (hm : c.method = .reset) :
    (call server cfg s c).1 = (l.call c).1 ∧
      Agree (l.call c).2 (call server cfg s c).2.counters (done ++ [c]) c.now := by
  obtain ⟨hans, hcounters⟩ := call_reset server cfg (s := s) hm
  simp only [MemoryRateLimiter.call, hm]
  rw [hans, hcounters]
  refine ⟨rfl, h.erase c rfl rfl fun ip => ?_⟩
  rw [liveEntryOf, MemoryRateLimiter.entryOf_cleanExpired, MemoryRateLimiter.entryOf_reset]
  split_ifs
  · rfl
  · rw [liveEntryOf, MemoryRateLimiter.entryOf_cleanExpired]
    rfl

theorem agree_call (haccept : server.expireAccepts cfg.windowSeconds c.now = true)
    (hroom : l.entries.rows.length < maxEntries)
    (hwrap : ∀ ip a, attemptsIn (done ++ [c]) ip a (a + l.windowDuration) < 2 ^ 32) :
    (call server cfg s c).1 = (l.call c).1 ∧
      Agree (l.call c).2 (call server cfg s c).2.counters (done ++ [c]) c.now := by
  have hget : s.counters.get c.now c.ip = some ((s.counters.live? c.now c.ip).map (·.value)) := by
    refine get_eq fun v hv => ?_
    rcases h.view c.ip with ⟨_, hk⟩ | ⟨m, n, start, _, hk, _⟩
    · rw [hk] at hv
      cases hv
    · rw [hk] at hv
      cases hv
      exact (h.counted c.ip n start hk).trans_lt
        ((attemptsIn_le_append done [c] c.ip _ _).trans_lt (hwrap c.ip start))
  cases hm : c.method with
  | check => exact agree_check hmax hone h hget hm
  | recordAttempt => exact agree_recordAttempt hw hdur hone h haccept hroom hm (hwrap c.ip)
  | tryCheckAndRecord => exact agree_tryCheckAndRecord hw hdur hmax hone h haccept hroom hm
  | remainingAttempts => exact agree_remainingAttempts hmax h hget hm
  | reset => exact agree_reset h hm

end Step

end Call

/-! ## Runs -/

section Run
variable {server : RedisServer} {cfg : RedisRateLimiter}

theorem answers_eq {calls done : List RateCall} {l : MemoryRateLimiter} {s : Fleet} {t : Instant}
    (hw : 0 < l.windowDuration) (hdur : l.windowDuration = ofSecs cfg.windowSeconds)
    (hmax : l.maxAttempts = cfg.maxAttempts) (h : Agree l s.counters done t)
    (haccept : ∀ c ∈ calls, server.expireAccepts cfg.windowSeconds c.now = true)
    (hone : ∀ c ∈ calls, c.cleanAt = c.now) (hord : Ordered calls)
    (hlater : ∀ c ∈ calls, t ≤ c.cleanAt)
    (hroom : ∀ n, (l.run (calls.take n)).entries.rows.length < maxEntries)
    (hwrap : ∀ ip a, attemptsIn (done ++ calls) ip a (a + l.windowDuration) < 2 ^ 32) :
    answers server cfg s calls = l.answers calls := by
  induction calls generalizing done l s t with
  | nil => rfl
  | cons c calls ih =>
      obtain ⟨_, hnext, hord'⟩ := hord.cons
      obtain ⟨hdur', hmax'⟩ := l.call_config c
      have happ : done ++ c :: calls = done ++ [c] ++ calls := by simp
      have hnow : t ≤ c.now := (hlater c List.mem_cons_self).trans_eq (hone c List.mem_cons_self)
      obtain ⟨hans, hagree⟩ := agree_call hw hdur hmax (hone c List.mem_cons_self) (h.later hw hnow)
        (haccept c List.mem_cons_self) (hroom 0) fun ip a => by
          refine (attemptsIn_le_append _ calls ip _ _).trans_lt ?_
          rw [← happ]
          exact hwrap ip a
      rw [answers, MemoryRateLimiter.answers, hans]
      congr 1
      refine ih (by rwa [hdur']) (by rwa [hdur']) (by rwa [hmax']) hagree
        (fun d hd => haccept d (List.mem_cons_of_mem c hd))
        (fun d hd => hone d (List.mem_cons_of_mem c hd))
        hord' hnext (fun n => hroom (n + 1)) ?_
      rwa [hdur', ← happ]

end Run

theorem agree_new (cfg : RedisRateLimiter) (start now : Instant) :
    Agree (MemoryRateLimiter.new cfg.maxAttempts cfg.windowSeconds)
      (Fleet.new cfg start).counters [] now := by
  refine ⟨fun _ => .none, fun ip v start hv => ?_, fun ip e he => ?_⟩
  · cases hv
  · cases he

/-- **The two backends agree.** As long as Redis answers, fewer than `MAX_ENTRIES` addresses are
named and fewer than `2 ^ 32` attempts of an address fall into a window, both limiters give the same
answer to every call. -/
theorem limiters_agree (server : RedisServer) (cfg : RedisRateLimiter)
    (hwindow : 1 ≤ cfg.windowSeconds) (start : Instant) (calls : List RateCall)
    (haccept : ∀ c ∈ calls, server.expireAccepts cfg.windowSeconds c.now = true)
    (hone : ∀ c ∈ calls, c.cleanAt = c.now) (hord : Ordered calls)
    (hips : (calls.map (·.ip)).dedup.length < maxEntries)
    (hwrap : ∀ ip a, attemptsIn calls ip a (a + ofSecs cfg.windowSeconds) < 2 ^ 32) :
    answers server cfg (Fleet.new cfg start) calls =
      (MemoryRateLimiter.new cfg.maxAttempts cfg.windowSeconds).answers calls := by
  have hw := MemoryRateLimiter.new_windowDuration_pos cfg.maxAttempts hwindow
  obtain ⟨first, hfirst⟩ := exists_start RateCall.cleanAt calls
  refine answers_eq hw rfl rfl (agree_new cfg start first) haccept hone hord hfirst
    (fun n => ?_) hwrap
  have hsub : (calls.take n).map (·.ip) ⊆ calls.map (·.ip) :=
    List.map_subset _ (List.take_subset n calls)
  have hdedup : ((calls.take n).map (·.ip)).dedup ⊆ (calls.map (·.ip)).dedup := fun ip hip =>
    List.mem_dedup.mpr (hsub (List.mem_dedup.mp hip))
  calc ((MemoryRateLimiter.new cfg.maxAttempts cfg.windowSeconds).run
         (calls.take n)).entries.rows.length
      ≤ ((calls.take n).map (·.ip)).dedup.length := MemoryRateLimiter.length_run_le _ _ _
    _ ≤ (calls.map (·.ip)).dedup.length := ((List.nodup_dedup _).subperm hdedup).length_le
    _ < maxEntries := hips

/-- Attempts over the limit of `1` and beyond the end of the window, and all other methods. -/
def mixedCalls : List RateCall :=
  [⟨.tryCheckAndRecord, .v4 1, 0, 0⟩, ⟨.tryCheckAndRecord, .v4 1, 1, 1⟩, ⟨.check, .v4 1, 2, 2⟩,
    ⟨.recordAttempt, .v4 2, 3, 3⟩, ⟨.reset, .v4 2, 4, 4⟩,
    ⟨.remainingAttempts, .v4 1, ofSecs 1, ofSecs 1⟩,
    ⟨.tryCheckAndRecord, .v4 1, ofSecs 1, ofSecs 1⟩]

theorem limiters_agree_mixed :
    answers ⟨fun _ _ => true⟩ ⟨1, 1⟩ (Fleet.new ⟨1, 1⟩ 0) mixedCalls =
      [.allowed true, .allowed false, .allowed false, .unit, .unit, .remaining 1, .allowed true] ∧
    answers ⟨fun _ _ => true⟩ ⟨1, 1⟩ (Fleet.new ⟨1, 1⟩ 0) mixedCalls =
      (MemoryRateLimiter.new 1 1).answers mixedCalls := by
  refine ⟨by decide, limiters_agree _ ⟨1, 1⟩ le_rfl 0 mixedCalls (fun _ _ => rfl) (by decide) ?_
    (by decide) ?_⟩
  · unfold Ordered
    decide
  · intro ip a
    exact List.countP_le_length.trans_lt (by decide)

end AppHome.RateLimit
