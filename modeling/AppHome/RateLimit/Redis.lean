import AppHome.Lib.Interleave
import AppHome.RateLimit.Memory

/-!
# `RedisRateLimiter`

Any number of instances over one Redis, each with its own in-memory shadow.

* `RedisCounter`, `Counters` : the keys `ratelimit:<prefix>:<ip>` of one prefix, an expired key
  being as good as gone; `incrWithExpire` and `tryScript` are the two scripts;
* `Fleet` : the clock, the counters, the shadows, the scripts that were reported as timed out and
  may still run, and, as a history variable, the calls that were let through and by which counter;
* `exec`, `move` : one atomic step of a call, and what happens around the calls;
* `check`, `recordAttempt`, `tryCheckAndRecord`, `remainingAttempts`, `reset` : the methods, step by
  step. A shadow method is two steps, its sweep and the rest; its lock is left out, which allows
  more interleavings than the source has.
-/

namespace AppHome.RateLimit

open Interleave

/-! ## The counters in Redis -/

/-- A key with its value and the instant it expires at, `none` for a key without a TTL. -/
structure RedisCounter where
  value : Nat
  expiresAt : Option Instant
  deriving DecidableEq

def RedisCounter.live (c : RedisCounter) (now : Instant) : Bool :=
  match c.expiresAt with
  | some e => now < e
  | none => true

abbrev Counters := Table (Prod.fst : IpAddr × RedisCounter → IpAddr)

/-- The server: the arguments `EXPIRE` takes. -/
structure RedisServer where
  expireAccepts : Nat → Instant → Bool

namespace Counters

/-- The key of an address, unless it is gone. -/
def live? (k : Counters) (now : Instant) (ip : IpAddr) : Option RedisCounter :=
  ((k.find? ip).map (·.2)).filter (·.live now)

/-- `INCR`. -/
def incr (k : Counters) (now : Instant) (ip : IpAddr) : RedisCounter :=
  match k.live? now ip with
  | some c => { c with value := c.value + 1 }
  | none => ⟨1, none⟩

/-- `INCR_WITH_EXPIRE_SCRIPT`. A refused `EXPIRE` raises an error, which leaves the
`INCR` in place. -/
def incrWithExpire (server : RedisServer) (windowSeconds : Nat) (k : Counters) (now : Instant)
    (ip : IpAddr) :
    Option Nat × Counters :=
  let c := k.incr now ip
  if c.value = 1 then
    if server.expireAccepts windowSeconds now then
      (some c.value, k.put (ip, { c with expiresAt := some (now + ofSecs windowSeconds) }))
    else (none, k.put (ip, c))
  else (some c.value, k.put (ip, c))

/-- `TRY_CHECK_AND_RECORD_SCRIPT`. -/
def tryScript (server : RedisServer) (windowSeconds maxAttempts : Nat) (k : Counters)
    (now : Instant) (ip : IpAddr) :
    Option Bool × Counters :=
  let r := incrWithExpire server windowSeconds k now ip
  (r.1.map fun current => decide (current ≤ maxAttempts), r.2)

/-- `GET` read as a `u32`: `none` is the error of a value that is none. -/
def get (k : Counters) (now : Instant) (ip : IpAddr) : Option (Option Nat) :=
  match k.live? now ip with
  | some c => if c.value < 2 ^ 32 then some (some c.value) else none
  | none => some none

def del (k : Counters) (ip : IpAddr) : Counters := k.filter fun e => e.1 ≠ ip

end Counters

theorem filter_eq_self {α : Type} {o : Option α} {p : α → Bool} (h : ∀ a, o = some a → p a = true) :
    o.filter p = o := by
  cases o with
  | none => rfl
  | some a => rw [Option.filter_some, if_pos (h a rfl)]

namespace Counters
variable {k : Counters} {now t : Instant} {ip ip' : IpAddr}

theorem live?_put {c : RedisCounter} (hc : c.live now = true) :
    live? (k.put (ip, c)) now ip' = if ip = ip' then some c else k.live? now ip' := by
  simp only [Counters.live?, Table.find?_put]
  split_ifs with h
  · simp [hc]
  · rfl

theorem live?_del : (k.del ip).live? now ip' = if ip' = ip then none else k.live? now ip' := by
  rw [Counters.live?, Counters.del, Table.find?_erase]
  split_ifs <;> rfl

theorem live?_later (h : now ≤ t) (ip : IpAddr) :
    k.live? t ip = (k.live? now ip).filter (·.live t) := by
  simp only [Counters.live?, Option.filter_filter]
  congr 1
  funext c
  unfold RedisCounter.live
  split
  · next e he =>
      by_cases hlt : t < e
      · simp [hlt, h.trans_lt hlt]
      · simp [hlt]
  · rfl

/-- The script leaves a live key that counts one more attempt and keeps its TTL, unless it starts a
window. -/
theorem incrWithExpire_spec (server : RedisServer) {windowSeconds : Nat}
    (hw : 0 < ofSecs windowSeconds) (k : Counters) (now : Instant) (ip : IpAddr) :
    ∃ c, (k.incrWithExpire server windowSeconds now ip).2 = k.put (ip, c) ∧
      c.live now = true ∧ c.value = ((k.live? now ip).map (·.value)).getD 0 + 1 ∧
      (∀ n, (k.incrWithExpire server windowSeconds now ip).1 = some n → n = c.value) ∧
      ∀ e, c.expiresAt = some e →
        e = now + ofSecs windowSeconds ∨ ∃ c', k.live? now ip = some c' ∧
        c'.expiresAt = some e := by
  have hincr : (k.incr now ip).live now = true ∧
      (k.incr now ip).value = ((k.live? now ip).map (·.value)).getD 0 + 1 ∧
      ∀ e, (k.incr now ip).expiresAt = some e →
        ∃ c', k.live? now ip = some c' ∧ c'.expiresAt = some e := by
    unfold incr
    cases hk : k.live? now ip with
    | none => exact ⟨rfl, rfl, fun e he => by cases he⟩
    | some c => exact ⟨(Option.filter_eq_some_iff.mp hk).2, rfl, fun e he => ⟨c, rfl, he⟩⟩
  obtain ⟨hlive, hvalue, hexp⟩ := hincr
  unfold incrWithExpire
  simp only
  split_ifs
  · refine ⟨_, rfl, decide_eq_true (lt_add_of_pos_right now hw), hvalue, fun n hn =>
      (Option.some.inj hn).symm, ?_⟩
    exact fun e he => Or.inl (Option.some.inj he).symm
  · exact ⟨_, rfl, hlive, hvalue, fun n hn => hn.elim, fun e he => Or.inr (hexp e he)⟩
  · exact ⟨_, rfl, hlive, hvalue, fun n hn => (Option.some.inj hn).symm, fun e he =>
      Or.inr (hexp e he)⟩

end Counters

/-! ## The state -/

structure RedisRateLimiter where
  maxAttempts : Nat
  windowSeconds : Nat

/-- What changes the counters. -/
inductive Write where
  | script (ip : IpAddr)
  | del (ip : IpAddr)

/-- Who let a call through: Redis, or the shadow of an instance. -/
inductive Source where
  | redis
  | shadow (inst : Nat)
  deriving DecidableEq

/-- Call `call` of `try_check_and_record` for `ip` was let through. -/
structure Grant where
  call : Nat
  ip : IpAddr
  source : Source
  deriving DecidableEq

structure Fleet where
  now : Instant
  counters : Counters
  shadow : Nat → MemoryRateLimiter
  late : List Write
  grants : List Grant

namespace Fleet

def setShadow (s : Fleet) (inst : Nat) (l : MemoryRateLimiter) : Fleet :=
  { s with shadow := Function.update s.shadow inst l }

@[simp] theorem setShadow_shadow (s : Fleet) (inst : Nat) (l : MemoryRateLimiter) :
    (s.setShadow inst l).shadow inst = l := by
  simp [setShadow]

theorem setShadow_shadow_of_ne (s : Fleet) {inst k : Nat} (l : MemoryRateLimiter) (h : k ≠ inst) :
    (s.setShadow inst l).shadow k = s.shadow k := by
  simp [setShadow, h]

def grantIf (s : Fleet) (b : Bool) (g : Grant) :
    Fleet := if b then { s with grants := s.grants ++ [g] } else s

end Fleet

/-! ## Steps -/

/-- A shadow method under its lock: the sweep, or what follows it. -/
inductive ShadowStep where
  | clean
  | allows (ip : IpAddr)
  | record (ip : IpAddr)
  | tryRecord (ip : IpAddr)
  | remaining (ip : IpAddr)
  | reset (ip : IpAddr)

inductive Op where
  | get (ip : IpAddr)
  | incrWithExpire (ip : IpAddr)
  | tryScript (ip : IpAddr)
  | del (ip : IpAddr)
  | shadow (inst : Nat) (step : ShadowStep)

abbrev ShadowStep.Res : ShadowStep → Type
  | .clean => Unit
  | .allows _ => Bool
  | .record _ => Unit
  | .tryRecord _ => Bool
  | .remaining _ => Nat
  | .reset _ => Unit

/-- `none` is an error or a timeout. -/
abbrev Res : Op → Type
  | .get _ => Option (Option Nat)
  | .incrWithExpire _ => Option Nat
  | .tryScript _ => Option Bool
  | .del _ => Option Unit
  | .shadow _ step => step.Res

/-- What becomes of a command sent to Redis. -/
inductive Fate where
  | done
  | failed
  | failedApplied
  | failedLate

section Exec
variable (server : RedisServer) (cfg : RedisRateLimiter)

def perform (s : Fleet) : Write → Fleet
  | .script ip =>
    { s with counters := (s.counters.incrWithExpire server cfg.windowSeconds s.now ip).2 }
  | .del ip => { s with counters := s.counters.del ip }

/-- A command that was not answered. -/
def unanswered (s : Fleet) (w : Write) : Fate → Fleet
  | .failedApplied => perform server cfg s w
  | .failedLate => { s with late := s.late ++ [w] }
  | _ => s

def shadowExec (s : Fleet) (i inst : Nat) (step : ShadowStep) : step.Res × Fleet :=
  let l := s.shadow inst
  match step with
  | .clean => ((), s.setShadow inst (l.cleanExpired s.now))
  | .allows ip => (l.allows s.now ip, s)
  | .record ip => ((), s.setShadow inst (l.record s.now ip))
  | .tryRecord ip =>
    ((l.tryRecord s.now ip).1,
      (s.setShadow inst (l.tryRecord s.now ip).2).grantIf (l.tryRecord s.now ip).1
        ⟨i, ip, .shadow inst⟩)
  | .remaining ip => (l.remainingAttempts s.now ip, s)
  | .reset ip => ((), s.setShadow inst (l.reset ip))

def exec (s : Fleet) (i : Nat) (o : Op) (f : Fate) : Res o × Fleet :=
  match o with
  | .get ip =>
    match f with
    | .done => (s.counters.get s.now ip, s)
    | _ => (none, s)
  | .incrWithExpire ip =>
    match f with
    | .done => ((s.counters.incrWithExpire server cfg.windowSeconds s.now ip).1,
      perform server cfg s (.script ip))
    | f => (none, unanswered server cfg s (.script ip) f)
  | .tryScript ip =>
    match f with
    | .done =>
      let r := s.counters.tryScript server cfg.windowSeconds cfg.maxAttempts s.now ip
      (r.1, (perform server cfg s (.script ip)).grantIf (r.1 = some true) ⟨i, ip, .redis⟩)
    | f => (none, unanswered server cfg s (.script ip) f)
  | .del ip =>
    match f with
    | .done => (some (), perform server cfg s (.del ip))
    | f => (none, unanswered server cfg s (.del ip) f)
  | .shadow inst step => shadowExec s i inst step

/-- What happens around the calls. -/
inductive Move where
  | tick (nanos : Nat)
  | takeEffect (n : Nat)

def move (s : Fleet) : Move → Fleet
  | .tick nanos => { s with now := s.now + nanos }
  | .takeEffect n =>
    match s.late[n]? with
    | some w => { perform server cfg s w with late := s.late.eraseIdx n }
    | none => s

def machine : Machine Fleet Op Res Fate Move := ⟨exec server cfg, move server cfg⟩

end Exec

/-! ## The methods -/

section Methods
variable (cfg : RedisRateLimiter) (inst : Nat) (ip : IpAddr)

abbrev Program := Prog Op Res

/-- A method of the shadow that sweeps first. -/
def swept (step : ShadowStep) : Program step.Res :=
  .op (.shadow inst .clean) fun _ => .op (.shadow inst step) .ret

def check : Program Bool :=
  .op (.get ip) fun
    | some (some count) => .ret (count < cfg.maxAttempts)
    | some none => .ret true
    | none => swept inst (.allows ip)

def recordAttempt : Program Unit :=
  .op (.incrWithExpire ip) fun
    | some _ => .ret ()
    | none => swept inst (.record ip)

def tryCheckAndRecord : Program Bool :=
  .op (.tryScript ip) fun
    | some allowed => .ret allowed
    | none => swept inst (.tryRecord ip)

def remainingAttempts : Program Nat :=
  .op (.get ip) fun
    | some (some count) => .ret (cfg.maxAttempts - count)
    | some none => .ret cfg.maxAttempts
    | none => .op (.shadow inst (.remaining ip)) .ret

/-- The shadow is cleared whatever becomes of the `DEL`. -/
def reset : Program Unit := .op (.del ip) fun _ => .op (.shadow inst (.reset ip)) .ret

def prog : RateMethod → Program RateAnswer
  | .check => check cfg inst ip >>= fun b => .ret (.allowed b)
  | .recordAttempt => recordAttempt inst ip >>= fun _ => .ret .unit
  | .tryCheckAndRecord => tryCheckAndRecord inst ip >>= fun b => .ret (.allowed b)
  | .remainingAttempts => remainingAttempts cfg inst ip >>= fun n => .ret (.remaining n)
  | .reset => reset inst ip >>= fun _ => .ret .unit

end Methods

/-- A call of a method on an instance. -/
structure Task where
  method : RateMethod
  inst : Nat
  ip : IpAddr

/-- Any number of calls, none of them begun. -/
def fleet (cfg : RedisRateLimiter) (tasks : Nat → Task) (s : Fleet) : Cfg Fleet Op Res RateAnswer :=
  ⟨s, fun i => prog cfg (tasks i).inst (tasks i).ip (tasks i).method⟩

/-- Nothing has been counted yet. -/
def Fleet.new (cfg : RedisRateLimiter) (now : Instant) : Fleet :=
  ⟨now, Table.empty, fun _ => .new cfg.maxAttempts cfg.windowSeconds, [], []⟩

end AppHome.RateLimit
