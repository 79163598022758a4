import AppHome.Lib.Table
import AppHome.Shared.Values

/-!
# The revocation lists in memory and in Redis

* `MemoryAccessTokenBlacklist` : the map of revoked tokens, with the sweep of `revoke` and the two
  lock phases of `is_revoked`;
* `Redis` : the keys `acl:revoked:<jti>`, each with the instant at which Redis lets it expire;
* `Blacklist` : either backend behind the port, when no call fails;
* `Blacklist.Covers` : every check up to an instant answers `true`; `covers_apply` says which calls
  of other requests keep that.
-/

namespace AppHome

/-- The only error of the `AccessTokenBlacklist` port. -/
structure BlacklistError where
  deriving DecidableEq

/-- `now.duration_since(start) < ttl`. -/
def withinTtl (now start : Instant) (ttl : Int) : Bool := durationSince now start < ttl

theorem withinTtl_of_lt {now start : Instant} {ttl : Int} (hpos : 0 < ttl) (h : now < start + ttl) :
    withinTtl now start ttl = true := by
  have h' : now - start < ttl := Int.sub_left_lt_of_lt_add h
  simpa [withinTtl, durationSince] using ⟨hpos, h'⟩

theorem end_le_of_not_withinTtl {now start : Instant} {ttl : Int}
    (h : withinTtl now start ttl = false) :
    start + ttl ≤ max now start := by
  have h' : ttl ≤ max 0 (now - start) := not_lt.mp (of_decide_eq_false h)
  rcases le_max_iff.mp h' with h0 | h1
  · exact le_max_of_le_right (by linarith)
  · exact le_max_of_le_left (by linarith)

theorem lt_end_of_withinTtl {now start : Instant} {ttl : Int} (h : withinTtl now start ttl = true) :
    now < start + ttl := by
  have h' : max 0 (now - start) < ttl := of_decide_eq_true h
  exact lt_add_of_sub_left_lt ((le_max_right _ _).trans_lt h')

/-! ## In memory -/

structure RevokedEntry where
  revokedAt : Instant
  ttl : Int

def RevokedEntry.live (e : RevokedEntry) (now : Instant) : Bool := withinTtl now e.revokedAt e.ttl

abbrev MemoryAccessTokenBlacklist := Table (Prod.fst : Uuid × RevokedEntry → Uuid)

namespace MemoryAccessTokenBlacklist

/-- `revoke` sweeps what has expired, then inserts. -/
def revoke (entries : MemoryAccessTokenBlacklist) (jti : Uuid) (ttlSecs : Nat) (now : Instant) :
    MemoryAccessTokenBlacklist :=
  (entries.filter fun e => e.2.live now).put (jti, ⟨now, ofSecs ttlSecs⟩)

/-- The fast path of `is_revoked` under the read lock; `none` falls through to `recheck`. -/
def lookup (entries : MemoryAccessTokenBlacklist) (jti : Uuid) (now : Instant) : Option Bool :=
  match entries.find? jti with
  | some e => if e.2.live now then some true else none
  | none => some false

/-- The slow path of `is_revoked` under the write lock: an expired entry is removed. -/
def recheck (entries : MemoryAccessTokenBlacklist) (jti : Uuid) (now : Instant) :
    Bool × MemoryAccessTokenBlacklist :=
  match entries.find? jti with
  | some e => if e.2.live now then (true, entries) else (false, entries.filter fun e => e.1 ≠ jti)
  | none => (false, entries)

def isRevoked (entries : MemoryAccessTokenBlacklist) (jti : Uuid) (now : Instant) :
    Bool × MemoryAccessTokenBlacklist :=
  match entries.lookup jti now with
  | some answer => (answer, entries)
  | none => entries.recheck jti now

/-- The entry of a token lives through every check up to `t`. -/
def Covers (entries : MemoryAccessTokenBlacklist) (jti : Uuid) (t : Instant) : Prop :=
  ∃ e, entries.find? jti = some (jti, e) ∧ ∀ now ≤ t, e.live now = true

variable {entries : MemoryAccessTokenBlacklist} {jti jti' : Uuid} {t now : Instant} {ttlSecs : Nat}

theorem Covers.isRevoked (h : entries.Covers jti t) (hnow : now ≤ t) :
    (entries.isRevoked jti now).1 = true := by
  obtain ⟨e, he, hlive⟩ := h
  simp [MemoryAccessTokenBlacklist.isRevoked, lookup, he, hlive now hnow]

theorem covers_revoke_self (hpos : 0 < ofSecs ttlSecs) (h : t < now + ofSecs ttlSecs) :
    (entries.revoke jti ttlSecs now).Covers jti t := by
  refine ⟨⟨now, ofSecs ttlSecs⟩, by simp [MemoryAccessTokenBlacklist.revoke, Table.find?_put],
    fun n hn => ?_⟩
  exact withinTtl_of_lt hpos (lt_of_le_of_lt hn h)

theorem Covers.revoke (h : entries.Covers jti t) (hnow : now ≤ t) (hne : jti' ≠ jti) :
    (entries.revoke jti' ttlSecs now).Covers jti t := by
  obtain ⟨e, he, hlive⟩ := h
  refine ⟨e, ?_, hlive⟩
  simp [MemoryAccessTokenBlacklist.revoke, Table.find?_put, Table.find?_filter, he, hne,
    hlive now hnow]

theorem Covers.recheck (h : entries.Covers jti t) (hnow : now ≤ t) :
    (entries.recheck jti' now).2.Covers jti t := by
  unfold MemoryAccessTokenBlacklist.recheck
  split
  · next e' he' =>
      split_ifs with hl
      · exact h
      · obtain ⟨e, he, hlive⟩ := h
        have hne : jti ≠ jti' := by
          rintro rfl
          rw [he] at he'
          cases he'
          exact hl (hlive now hnow)
        exact ⟨e, by simp [Table.find?_filter, he, hne], hlive⟩
  · exact h

end MemoryAccessTokenBlacklist

/-! ## In Redis -/

/-- The keys Redis holds, each with the instant it expires at. -/
abbrev Redis := Table (Prod.fst : Uuid × Instant → Uuid)

namespace Redis

/-- `SET acl:revoked:<jti> 1 EX ttl`. -/
def setEx (keys : Redis) (jti : Uuid) (ttlSecs : Nat) (now : Instant) : Redis :=
  keys.put (jti, now + ofSecs ttlSecs)

/-- `EXISTS acl:revoked:<jti>`, more than zero. -/
def holds (keys : Redis) (jti : Uuid) (now : Instant) : Bool :=
  match keys.find? jti with
  | some key => now < key.2
  | none => false

/-- `RedisAccessTokenBlacklist::revoke` when Redis answers: a zero TTL is never sent. -/
def revoke (keys : Redis) (jti : Uuid) (ttlSecs : Nat) (now : Instant) : Redis :=
  if ttlSecs = 0 then keys else keys.setEx jti ttlSecs now

variable {keys : Redis} {jti : Uuid} {now : Instant}

theorem holds_of_find? {e : Instant} (h : keys.find? jti = some (jti, e)) :
    keys.holds jti now = decide (now < e) := by
  simp only [holds, h]

theorem find?_setEx (keys : Redis) (jti jti' : Uuid) (ttlSecs : Nat) (now : Instant) :
    (keys.setEx jti' ttlSecs now).find? jti =
      if jti' = jti then some (jti', now + ofSecs ttlSecs) else keys.find? jti :=
  Table.find?_put ..

end Redis

/-! ## Behind the port -/

/-- The revocation backend of a service whose calls to it do not fail. -/
inductive Blacklist where
  | memory (entries : MemoryAccessTokenBlacklist)
  | redis (keys : Redis)

inductive Backend where
  | memory
  | redis

namespace Blacklist

/-- Nothing is revoked when the service starts. -/
def new : Backend → Blacklist
  | .memory => .memory Table.empty
  | .redis => .redis Table.empty

def revoke (jti : Uuid) (ttlSecs : Nat) (now : Instant) : Blacklist → Blacklist
  | .memory entries => .memory (entries.revoke jti ttlSecs now)
  | .redis keys => .redis (keys.revoke jti ttlSecs now)

def isRevoked (jti : Uuid) (now : Instant) : Blacklist → Bool
  | .memory entries => (entries.isRevoked jti now).1
  | .redis keys => keys.holds jti now

/-- What another request does to the backend. Of a check only the removal of an expired entry is
left, which takes its own lock and so may come at any time after the lookup. -/
inductive Access where
  | revoke (jti : Uuid) (ttlSecs : Nat) (now : Instant)
  | recheck (jti : Uuid) (now : Instant)

def Access.now : Access → Instant
  | .revoke _ _ now => now
  | .recheck _ now => now

def apply : Blacklist → Access → Blacklist
  | b, .revoke jti ttlSecs now => b.revoke jti ttlSecs now
  | .memory entries, .recheck jti now => .memory (entries.recheck jti now).2
  | .redis keys, .recheck _ _ => .redis keys

/-- The revocation of a token lives through every check up to `t`. -/
def Covers (jti : Uuid) (t : Instant) : Blacklist → Prop
  | .memory entries => entries.Covers jti t
  | .redis keys => ∃ e, keys.find? jti = some (jti, e) ∧ t < e

variable {b : Blacklist} {jti : Uuid} {t : Instant}

theorem Covers.isRevoked (h : b.Covers jti t) : b.isRevoked jti t = true := by
  cases b with
  | memory entries => exact MemoryAccessTokenBlacklist.Covers.isRevoked h le_rfl
  | redis keys =>
      obtain ⟨e, he, hlt⟩ := h
      simpa only [Blacklist.isRevoked, Redis.holds_of_find? he, decide_eq_true_eq] using hlt

theorem covers_revoke_self {ttlSecs : Nat} {now : Instant} (hpos : 0 < ttlSecs)
    (h : t < now + ofSecs ttlSecs) : (b.revoke jti ttlSecs now).Covers jti t := by
  cases b with
  | memory entries =>
      exact MemoryAccessTokenBlacklist.covers_revoke_self
        (ofSecs_pos (Nat.pos_iff_ne_zero.mp hpos)) h
  | redis keys =>
      refine ⟨now + ofSecs ttlSecs, ?_, h⟩
      rw [Redis.revoke, if_neg (Nat.pos_iff_ne_zero.mp hpos), Redis.find?_setEx, if_pos rfl]

/-- The revocation of a token that was never revoked before lasts for its TTL and no longer. -/
theorem isRevoked_new_revoke (k : Backend) (jti : Uuid) (ttlSecs : Nat) {now t : Instant}
    (h : now + ofSecs ttlSecs ≤ t) : ((new k).revoke jti ttlSecs now).isRevoked jti t = false := by
  cases k with
  | memory =>
      have hdead : withinTtl t now (ofSecs ttlSecs) = false := by
        refine decide_eq_false (not_lt.mpr (le_max_of_le_right ?_))
        exact Int.le_sub_left_of_add_le h
      simp [new, Blacklist.isRevoked, Blacklist.revoke, MemoryAccessTokenBlacklist.isRevoked,
        MemoryAccessTokenBlacklist.lookup, MemoryAccessTokenBlacklist.recheck,
        MemoryAccessTokenBlacklist.revoke, Table.find?_put, RevokedEntry.live, hdead]
  | redis =>
      simp only [new, Blacklist.isRevoked, Blacklist.revoke, Redis.revoke]
      split_ifs with h0
      · rfl
      · have hfind := Redis.find?_setEx Table.empty jti jti ttlSecs now
        rw [if_pos rfl] at hfind
        rw [Redis.holds_of_find? hfind]
        exact decide_eq_false (not_lt.mpr h)

/-- The calls of other requests keep a token covered, unless they revoke it for a shorter time. -/
theorem covers_apply {a : Access} (h : b.Covers jti t) (hnow : a.now ≤ t)
    (hself : ∀ ttlSecs now, a = .revoke jti ttlSecs now → (b.apply a).Covers jti t) :
    (b.apply a).Covers jti t := by
  cases a with
  | recheck jti' now =>
      cases b with
      | memory entries => exact MemoryAccessTokenBlacklist.Covers.recheck h hnow
      | redis keys => exact h
  | revoke jti' ttlSecs now =>
      by_cases hne : jti' = jti
      · subst hne
        exact hself ttlSecs now rfl
      · cases b with
        | memory entries => exact MemoryAccessTokenBlacklist.Covers.revoke h hnow hne
        | redis keys =>
            obtain ⟨e, he, hlt⟩ := h
            refine ⟨e, ?_, hlt⟩
            simp only [Redis.revoke]
            split_ifs
            · exact he
            · rw [Redis.find?_setEx, if_neg hne, he]

end Blacklist

end AppHome
