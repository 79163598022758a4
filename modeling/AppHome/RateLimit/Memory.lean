import AppHome.Lib.Table
import AppHome.Shared.Ip

/-!
# `MemoryRateLimiter`

The per-process limiter: a map from addresses to the attempts of their current window. A method
reads the clock once in `clean_expired` and once more for its own decision, so each takes two
readings.

* `RateLimitEntry`, `MemoryRateLimiter` : the map, with the limit and the length of the window;
* `check`, `recordAttempt`, `tryCheckAndRecord`, `remainingAttempts`, `reset` : the methods, each
  the sweep followed by what it does under the same lock (`allows`, `record`, `tryRecord`);
* `entryOf_cleanExpired`, `entryOf_record`, `tryRecord_eq` : what the methods leave for an address,
  as long as fewer than `MAX_ENTRIES` addresses are tracked;
* `RateCall`, `call`, `run` : sequences of calls.
-/

namespace AppHome

/-- `MAX_ENTRIES`. -/
def maxEntries : Nat := 100000

/-- `attempts` is a `u32`. -/
structure RateLimitEntry where
  attempts : Nat
  windowStart : Instant
  deriving DecidableEq

structure MemoryRateLimiter where
  maxAttempts : Nat
  windowDuration : Int
  entries : Table (Prod.fst : IpAddr × RateLimitEntry → IpAddr)

namespace MemoryRateLimiter

def new (maxAttempts windowSeconds : Nat) : MemoryRateLimiter :=
  ⟨maxAttempts, ofSecs windowSeconds, Table.empty⟩

variable (l : MemoryRateLimiter)

/-- `entries.get(&ip)`. -/
def entryOf (ip : IpAddr) : Option RateLimitEntry := (l.entries.find? ip).map (·.2)

/-- `now.duration_since(entry.window_start) >= window`. -/
def elapsed (now : Instant) (e : RateLimitEntry) : Bool :=
  l.windowDuration ≤ durationSince now e.windowStart

def cleanExpired (now : Instant) : MemoryRateLimiter :=
  { l with entries := l.entries.filter fun e => !l.elapsed now e.2 }

/-- `min_by_key` of the window's start. Between entries of the same age the order of the map
decides, which the source leaves open. -/
def oldest : List (IpAddr × RateLimitEntry) → Option (IpAddr × RateLimitEntry)
  | [] => none
  | e :: es =>
    match oldest es with
    | some e' => if e.2.windowStart ≤ e'.2.windowStart then some e else some e'
    | none => some e

def evictOldestIfFull : MemoryRateLimiter :=
  if l.entries.rows.length < maxEntries then l
  else
    match oldest l.entries.rows with
    | some oldest => { l with entries := l.entries.filter fun e => e.1 ≠ oldest.1 }
    | none => l

/-- Room for an address that is not tracked yet. -/
def makeRoom (ip : IpAddr) : MemoryRateLimiter :=
  if (l.entryOf ip).isSome then l else l.evictOldestIfFull

/-- `entries.entry(ip).or_insert(..)`. -/
def entryOrNew (ip : IpAddr) (now : Instant) : RateLimitEntry := (l.entryOf ip).getD ⟨0, now⟩

def store (ip : IpAddr) (e : RateLimitEntry) :
    MemoryRateLimiter := { l with entries := l.entries.put (ip, e) }

/-! ## The methods -/

/-- `check` after the sweep. -/
def allows (now : Instant) (ip : IpAddr) : Bool :=
  match l.entryOf ip with
  | some e => if l.elapsed now e then true else e.attempts < l.maxAttempts
  | none => true

/-- The entry after `record_attempt`. The addition wraps in a release build. -/
def recorded (now : Instant) (e : RateLimitEntry) : RateLimitEntry :=
  if l.elapsed now e then ⟨1, now⟩ else ⟨(e.attempts + 1) % 2 ^ 32, e.windowStart⟩

/-- `record_attempt` after the sweep. -/
def record (now : Instant) (ip : IpAddr) : MemoryRateLimiter :=
  let l := l.makeRoom ip
  l.store ip (l.recorded now (l.entryOrNew ip now))

/-- The answer of `try_check_and_record`, and the entry after it. -/
def tried (now : Instant) (e : RateLimitEntry) : Bool × RateLimitEntry :=
  if l.elapsed now e then (true, ⟨1, now⟩)
  else if e.attempts < l.maxAttempts then (true, ⟨e.attempts + 1, e.windowStart⟩)
  else (false, e)

/-- `try_check_and_record` after the sweep. -/
def tryRecord (now : Instant) (ip : IpAddr) : Bool × MemoryRateLimiter :=
  let l := l.makeRoom ip
  let r := l.tried now (l.entryOrNew ip now)
  (r.1, l.store ip r.2)

def check (cleanAt now : Instant) (ip : IpAddr) : Bool × MemoryRateLimiter :=
  ((l.cleanExpired cleanAt).allows now ip, l.cleanExpired cleanAt)

def recordAttempt (cleanAt now : Instant) (ip : IpAddr) : MemoryRateLimiter :=
  (l.cleanExpired cleanAt).record now ip

def tryCheckAndRecord (cleanAt now : Instant) (ip : IpAddr) : Bool × MemoryRateLimiter :=
  (l.cleanExpired cleanAt).tryRecord now ip

def remainingAttempts (now : Instant) (ip : IpAddr) : Nat :=
  match l.entryOf ip with
  | some e => if l.elapsed now e then l.maxAttempts else l.maxAttempts - e.attempts
  | none => l.maxAttempts

def reset (ip : IpAddr) :
    MemoryRateLimiter := { l with entries := l.entries.filter fun e => e.1 ≠ ip }

/-! ## What they leave for an address -/

variable {l}

theorem elapsed_eq_false_iff (hw : 0 < l.windowDuration) {now : Instant} {e : RateLimitEntry} :
    l.elapsed now e = false ↔ now < e.windowStart + l.windowDuration := by
  unfold elapsed durationSince
  rw [decide_eq_false_iff_not, not_le, max_lt_iff]
  constructor
  · intro h
    exact lt_add_of_sub_left_lt h.2
  · intro h
    exact ⟨hw, sub_left_lt_of_lt_add h⟩

theorem elapsed_eq_true_iff (hw : 0 < l.windowDuration) {now : Instant} {e : RateLimitEntry} :
    l.elapsed now e = true ↔ e.windowStart + l.windowDuration ≤ now := by
  rw [← not_lt, ← elapsed_eq_false_iff hw, Bool.not_eq_false]

theorem entryOf_cleanExpired (now : Instant) (ip : IpAddr) :
    (l.cleanExpired now).entryOf ip = (l.entryOf ip).filter fun e => !l.elapsed now e := by
  simp only [entryOf, cleanExpired, Table.find?_filter]
  cases l.entries.find? ip with
  | none => rfl
  | some e =>
      simp only [Option.filter_some, Option.map_some]
      split_ifs <;> rfl

theorem entryOf_store (ip ip' : IpAddr) (e : RateLimitEntry) :
    (l.store ip e).entryOf ip' = if ip = ip' then some e else l.entryOf ip' := by
  simp only [entryOf, store, Table.find?_put]
  split_ifs <;> rfl

theorem entryOf_reset (ip ip' : IpAddr) :
    (l.reset ip).entryOf ip' = if ip' = ip then none else l.entryOf ip' := by
  rw [entryOf, reset, Table.find?_erase]
  split_ifs <;> rfl

/-- Nothing is evicted while there is room. -/
theorem makeRoom_eq (hroom : l.entries.rows.length < maxEntries) (ip : IpAddr) :
    l.makeRoom ip = l := by
  rw [makeRoom, evictOldestIfFull, if_pos hroom, ite_self]

theorem entryOf_record (hroom : l.entries.rows.length < maxEntries) (now : Instant)
    (ip ip' : IpAddr) :
    (l.record now ip).entryOf ip' =
      if ip = ip' then some (l.recorded now (l.entryOrNew ip now)) else l.entryOf ip' := by
  simp only [record, makeRoom_eq hroom, entryOf_store]

theorem tryRecord_eq (hroom : l.entries.rows.length < maxEntries) (now : Instant) (ip : IpAddr) :
    l.tryRecord now ip =
      ((l.tried now (l.entryOrNew ip now)).1,
        l.store ip (l.tried now (l.entryOrNew ip now)).2) := by
  simp only [tryRecord, makeRoom_eq hroom]

theorem cleanExpired_length_le (now : Instant) :
    (l.cleanExpired now).entries.rows.length ≤ l.entries.rows.length := List.length_filter_le _ _

end MemoryRateLimiter

/-! ## Calls -/

inductive RateMethod where
  | check
  | recordAttempt
  | tryCheckAndRecord
  | remainingAttempts
  | reset
  deriving DecidableEq

/-- The methods that count an attempt. -/
def RateMethod.isAttempt : RateMethod → Bool
  | .recordAttempt => true
  | .tryCheckAndRecord => true
  | _ => false

inductive RateAnswer where
  | unit
  | allowed (b : Bool)
  | remaining (n : Nat)
  deriving DecidableEq

/-- A call of a method with the clock readings it makes, in order. -/
structure RateCall where
  method : RateMethod
  ip : IpAddr
  cleanAt : Instant
  now : Instant

/-- The attempts of an address in `[a, b)`. -/
def attemptsIn (calls : List RateCall) (ip : IpAddr) (a b : Instant) : Nat :=
  calls.countP fun c => c.method.isAttempt && c.ip = ip && a ≤ c.now && c.now < b

theorem attemptsIn_le_append (calls calls' : List RateCall) (ip : IpAddr) (a b : Instant) :
    attemptsIn calls ip a b ≤ attemptsIn (calls ++ calls') ip a b := by
  rw [attemptsIn, attemptsIn, List.countP_append]
  exact Nat.le_add_right _ _

theorem attemptsIn_append_attempt {calls : List RateCall} {c : RateCall} {a b : Instant}
    (hc : c.method.isAttempt = true) (ha : a ≤ c.now) (hb : c.now < b) :
    attemptsIn (calls ++ [c]) c.ip a b = attemptsIn calls c.ip a b + 1 := by
  simp [attemptsIn, List.countP_append, hc, ha, hb]

namespace MemoryRateLimiter

def call (l : MemoryRateLimiter) (c : RateCall) : RateAnswer × MemoryRateLimiter :=
  match c.method with
  | .check => (.allowed (l.check c.cleanAt c.now c.ip).1, (l.check c.cleanAt c.now c.ip).2)
  | .recordAttempt => (.unit, l.recordAttempt c.cleanAt c.now c.ip)
  | .tryCheckAndRecord =>
    (.allowed (l.tryCheckAndRecord c.cleanAt c.now c.ip).1,
      (l.tryCheckAndRecord c.cleanAt c.now c.ip).2)
  | .remainingAttempts => (.remaining (l.remainingAttempts c.now c.ip), l)
  | .reset => (.unit, l.reset c.ip)

def run (l : MemoryRateLimiter) (calls : List RateCall) : MemoryRateLimiter :=
  calls.foldl (fun l c => (l.call c).2) l

/-- The answers of a run, in order. -/
def answers (l : MemoryRateLimiter) : List RateCall → List RateAnswer
  | [] => []
  | c :: calls => (l.call c).1 :: answers (l.call c).2 calls

@[simp] theorem run_nil (l : MemoryRateLimiter) : l.run [] = l := rfl

@[simp] theorem run_cons (l : MemoryRateLimiter) (c : RateCall) (calls : List RateCall) :
    l.run (c :: calls) = (l.call c).2.run calls := rfl

/-! ## What no call changes -/

theorem new_windowDuration_pos (maxAttempts : Nat) {windowSeconds : Nat} (h : 1 ≤ windowSeconds) :
    0 < (new maxAttempts windowSeconds).windowDuration := by
  show 0 < (windowSeconds : Int) * 1000000000
  omega

theorem makeRoom_config (l : MemoryRateLimiter) (ip : IpAddr) :
    (l.makeRoom ip).windowDuration = l.windowDuration ∧
    (l.makeRoom ip).maxAttempts = l.maxAttempts := by
  unfold makeRoom evictOldestIfFull
  split_ifs
  · exact ⟨rfl, rfl⟩
  · exact ⟨rfl, rfl⟩
  · split <;> exact ⟨rfl, rfl⟩

theorem call_config (l : MemoryRateLimiter) (c : RateCall) :
    (l.call c).2.windowDuration = l.windowDuration ∧ (l.call c).2.maxAttempts = l.maxAttempts := by
  unfold call
  split
  · exact ⟨rfl, rfl⟩
  · exact makeRoom_config (l.cleanExpired c.cleanAt) c.ip
  · exact makeRoom_config (l.cleanExpired c.cleanAt) c.ip
  · exact ⟨rfl, rfl⟩
  · exact ⟨rfl, rfl⟩

theorem run_config (l : MemoryRateLimiter) (calls : List RateCall) :
    (l.run calls).windowDuration = l.windowDuration ∧
    (l.run calls).maxAttempts = l.maxAttempts := by
  induction calls generalizing l with
  | nil => exact ⟨rfl, rfl⟩
  | cons c calls ih =>
      obtain ⟨h1, h2⟩ := l.call_config c
      obtain ⟨h3, h4⟩ := ih (l.call c).2
      exact ⟨h3.trans h1, h4.trans h2⟩

/-! ## Which addresses are tracked -/

variable {l : MemoryRateLimiter}

theorem mem_makeRoom {ip : IpAddr} {r : IpAddr × RateLimitEntry}
    (h : r ∈ (l.makeRoom ip).entries.rows) :
    r ∈ l.entries.rows := by
  unfold makeRoom evictOldestIfFull at h
  split_ifs at h
  · exact h
  · exact h
  · split at h
    · exact (Table.mem_filter.mp h).1
    · exact h

theorem mem_store {ip : IpAddr} {e : RateLimitEntry} {r : IpAddr × RateLimitEntry}
    (h : r ∈ (l.store ip e).entries.rows) : r ∈ l.entries.rows ∨ r.1 = ip := by
  rcases Table.mem_put.mp h with rfl | h
  · exact Or.inr rfl
  · exact Or.inl h.1

/-- A call starts to track at most its own address. -/
theorem mem_call {c : RateCall} {r : IpAddr × RateLimitEntry} (h : r ∈ (l.call c).2.entries.rows) :
    r ∈ l.entries.rows ∨ r.1 = c.ip := by
  have hswept : ∀ {r}, r ∈ (l.cleanExpired c.cleanAt).entries.rows → r ∈ l.entries.rows :=
    fun hr => (Table.mem_filter.mp hr).1
  unfold call at h
  split at h
  · exact Or.inl (hswept h)
  · exact (mem_store h).imp_left fun h => hswept (mem_makeRoom h)
  · exact (mem_store h).imp_left fun h => hswept (mem_makeRoom h)
  · exact Or.inl h
  · exact Or.inl (Table.mem_filter.mp h).1

theorem mem_run {calls : List RateCall} {r : IpAddr × RateLimitEntry}
    (h : r ∈ (l.run calls).entries.rows) :
    r.1 ∈ l.entries.rows.map Prod.fst ∨ r.1 ∈ calls.map (·.ip) := by
  induction calls generalizing l with
  | nil => exact Or.inl (List.mem_map_of_mem h)
  | cons c calls ih =>
      rcases ih h with h | h
      · obtain ⟨r', hr', hk⟩ := List.mem_map.mp h
        rw [← hk]
        rcases mem_call hr' with hr' | hr'
        · exact Or.inl (List.mem_map_of_mem hr')
        · exact Or.inr (by rw [hr', List.map_cons]; exact List.mem_cons_self)
      · exact Or.inr (by rw [List.map_cons]; exact List.mem_cons_of_mem _ h)

theorem length_run_le (maxAttempts windowSeconds : Nat) (calls : List RateCall) :
    ((new maxAttempts windowSeconds).run calls).entries.rows.length ≤
      (calls.map (·.ip)).dedup.length := by
  rw [← List.length_map Prod.fst]
  refine (List.Nodup.subperm (Table.nodup _) fun ip hip => ?_).length_le
  obtain ⟨r, hr, rfl⟩ := List.mem_map.mp hip
  rcases mem_run hr with h | h
  · cases h
  · exact List.mem_dedup.mpr h

end MemoryRateLimiter

/-- The clock readings of the calls do not go back. -/
def Ordered (calls : List RateCall) : Prop :=
  (calls.flatMap fun c => [c.cleanAt, c.now]).Pairwise (· ≤ ·)

theorem Ordered.cons {c : RateCall} {calls : List RateCall} (h : Ordered (c :: calls)) :
    c.cleanAt ≤ c.now ∧ (∀ d ∈ calls, c.now ≤ d.cleanAt) ∧ Ordered calls := readings_cons h

end AppHome
