import AppHome.Revocation.Backends

/-!
# The two revocation lists agree

Both lists answer from the deadline of the latest revocation of a token, as long as no token is
revoked for zero seconds while it is still revoked: in memory that ends the revocation, and Redis is
not told.

* `Deadlines` : the latest revocation of each token, and whether it is in force;
* `PortCall`, `Blacklist.call`, `Blacklist.answers` : sequences of calls on a list;
* `Blacklist.Shows` : the list answers from these deadlines; `call_shows` : every call keeps that;
* `backends_agree` : the lists give the same answers.
-/

namespace AppHome

/-! ## Deadlines -/

/-- The deadline of the latest revocation of each token. -/
def Deadlines := Uuid → Option Instant

namespace Deadlines

def empty : Deadlines := fun _ => none

def revoke (d : Deadlines) (jti : Uuid) (ttlSecs : Nat) (now : Instant) : Deadlines := fun jti' =>
  if jti = jti' then some (now + ofSecs ttlSecs) else d jti'

/-- The latest revocation of the token has not reached its deadline. -/
def inForce (d : Deadlines) (jti : Uuid) (now : Instant) : Bool :=
  match d jti with
  | some deadline => now < deadline
  | none => false

variable {d : Deadlines} {jti jti' : Uuid} {now t t' : Instant} {ttlSecs : Nat}

theorem inForce_revoke : (d.revoke jti ttlSecs now).inForce jti' t =
    if jti = jti' then decide (t < now + ofSecs ttlSecs) else d.inForce jti' t := by
  unfold inForce revoke
  split_ifs <;> rfl

theorem inForce_mono (h : d.inForce jti t = false) (ht : t ≤ t') : d.inForce jti t' = false := by
  unfold inForce at h ⊢
  split at h
  · exact decide_eq_false (not_lt.mpr ((not_lt.mp (of_decide_eq_false h)).trans ht))
  · rfl

end Deadlines

/-! ## Calls -/

/-- A call on the `AccessTokenBlacklist` port with the clock readings it makes. The second reading
of `is_revoked` is that of the slow path. -/
inductive PortCall where
  | revoke (jti : Uuid) (ttlSecs : Nat) (now : Instant)
  | isRevoked (jti : Uuid) (now recheckAt : Instant)

namespace PortCall

def now : PortCall → Instant
  | .revoke _ _ now => now
  | .isRevoked _ now _ => now

/-- The last reading of the call. -/
def last : PortCall → Instant
  | .revoke _ _ now => now
  | .isRevoked _ _ recheckAt => recheckAt

/-- The clock readings of the calls do not go back. -/
def Ordered (calls : List PortCall) : Prop :=
  (calls.flatMap fun c => [c.now, c.last]).Pairwise (· ≤ ·)

theorem Ordered.cons {c : PortCall} {calls : List PortCall} (h : Ordered (c :: calls)) :
    c.now ≤ c.last ∧ (∀ d ∈ calls, c.last ≤ d.now) ∧ Ordered calls := readings_cons h

end PortCall

namespace Deadlines

/-- The latest revocations after a call. -/
def after (d : Deadlines) : PortCall → Deadlines
  | .revoke jti ttlSecs now => d.revoke jti ttlSecs now
  | .isRevoked _ _ _ => d

/-- The answer of `is_revoked`. -/
def answer (d : Deadlines) : PortCall → Option Bool
  | .revoke _ _ _ => none
  | .isRevoked jti now _ => some (d.inForce jti now)

def answers (d : Deadlines) : List PortCall → List (Option Bool)
  | [] => []
  | c :: calls => d.answer c :: (d.after c).answers calls

/-- The call does not revoke a token for zero seconds while an earlier revocation of it
is in force. -/
def EndsNone (d : Deadlines) : PortCall → Prop
  | .revoke jti ttlSecs now => ttlSecs = 0 → d.inForce jti now = false
  | .isRevoked _ _ _ => True

def NoneEnded (d : Deadlines) : List PortCall → Prop
  | [] => True
  | c :: calls => d.EndsNone c ∧ (d.after c).NoneEnded calls

end Deadlines

namespace Blacklist

/-- The answer of `is_revoked`, and the list after the call. -/
def call : Blacklist → PortCall → Option Bool × Blacklist
  | b, .revoke jti ttlSecs now => (none, b.revoke jti ttlSecs now)
  | .memory entries, .isRevoked jti now recheckAt =>
    match entries.lookup jti now with
    | some answer => (some answer, .memory entries)
    | none => (some (entries.recheck jti recheckAt).1, .memory (entries.recheck jti recheckAt).2)
  | .redis keys, .isRevoked jti now _ => (some (keys.holds jti now), .redis keys)

def answers (b : Blacklist) : List PortCall → List (Option Bool)
  | [] => []
  | c :: calls => (b.call c).1 :: answers (b.call c).2 calls

/-- From `now` on, the list answers from the deadlines. -/
def Shows (b : Blacklist) (d : Deadlines) (now : Instant) : Prop :=
  ∀ jti t, now ≤ t → b.isRevoked jti t = d.inForce jti t

end Blacklist

/-! ## In memory -/

theorem RevokedEntry.live_mono {e : RevokedEntry} {t t' : Instant} (h : e.live t = false)
    (ht : t ≤ t') :
    e.live t' = false := by
  have hdead : e.ttl ≤ durationSince t e.revokedAt := not_lt.mp (of_decide_eq_false h)
  refine decide_eq_false (not_lt.mpr (hdead.trans ?_))
  exact max_le_max le_rfl (sub_le_sub_right ht _)

theorem live_of_le {now t : Instant} (h : now ≤ t) (ttlSecs : Nat) :
    (⟨now, ofSecs ttlSecs⟩ : RevokedEntry).live t = decide (t < now + ofSecs ttlSecs) := by
  show decide (max 0 (t - now) < ofSecs ttlSecs) = _
  rw [max_eq_right (sub_nonneg.mpr h)]
  exact decide_eq_decide.mpr sub_lt_iff_lt_add'

namespace MemoryAccessTokenBlacklist

variable {entries : MemoryAccessTokenBlacklist} {jti jti' : Uuid} {now t : Instant}

theorem isRevoked_eq :
    (entries.isRevoked jti t).1 = (entries.find? jti).any fun e => e.2.live t := by
  unfold isRevoked lookup recheck
  cases entries.find? jti with
  | none => rfl
  | some e => cases hlive : e.2.live t <;> simp [hlive]

theorem isRevoked_revoke (h : now ≤ t) (ttlSecs : Nat) :
    ((entries.revoke jti ttlSecs now).isRevoked jti' t).1 =
    if jti = jti' then decide (t < now + ofSecs ttlSecs) else (entries.isRevoked jti' t).1 := by
  rw [isRevoked_eq, revoke, Table.find?_put]
  by_cases heq : jti = jti'
  · rw [if_pos heq, if_pos heq, Option.any_some]
    exact live_of_le h ttlSecs
  · rw [if_neg heq, if_neg heq, isRevoked_eq, Table.find?_filter]
    cases entries.find? jti' with
    | none => rfl
    | some e =>
        cases hlive : e.2.live now with
        | true => simp [hlive]
        | false => simp [hlive, RevokedEntry.live_mono hlive h]

theorem recheck_of_lookup (h : entries.lookup jti now = none) (ht : now ≤ t) :
    (entries.recheck jti t).1 = false := by
  unfold lookup at h
  unfold recheck
  split at h
  · split_ifs at h with hlive
    rw [RevokedEntry.live_mono (Bool.eq_false_iff.mpr hlive) ht]
    rfl
  · cases h

/-- The slow path takes out what has expired. -/
theorem isRevoked_recheck (h : now ≤ t) :
    ((entries.recheck jti now).2.isRevoked jti' t).1 = (entries.isRevoked jti' t).1 := by
  unfold recheck
  split
  · next e he =>
      split_ifs with hlive
      · rfl
      · rw [isRevoked_eq, isRevoked_eq, Table.find?_erase]
        split_ifs with heq
        · subst heq
          rw [he, Option.any_none, Option.any_some]
          exact (RevokedEntry.live_mono (Bool.eq_false_iff.mpr hlive) h).symm
        · rfl
  · rfl

end MemoryAccessTokenBlacklist

/-! ## In Redis -/

theorem Redis.holds_revoke {keys : Redis} {jti jti' : Uuid} {now t : Instant} {ttlSecs : Nat}
    (hpos : ttlSecs ≠ 0) :
    (keys.revoke jti ttlSecs now).holds jti' t =
      if jti = jti' then decide (t < now + ofSecs ttlSecs) else keys.holds jti' t := by
  unfold Redis.holds
  rw [Redis.revoke, if_neg hpos, Redis.find?_setEx]
  split_ifs <;> rfl

/-! ## Both -/

namespace Blacklist

variable {b : Blacklist} {d : Deadlines} {now now' : Instant}

theorem new_shows (k : Backend) (now : Instant) : (new k).Shows .empty now := by
  intro jti t _
  cases k <;> rfl

/-- A revocation counts from the time it is made, unless Redis is not told that it ends an earlier
one. -/
theorem Shows.revoke (h : b.Shows d now) (hnow : now ≤ now') {jti : Uuid} {ttlSecs : Nat}
    (hzero : ttlSecs = 0 → d.inForce jti now' = false) :
    (b.revoke jti ttlSecs now').Shows (d.revoke jti ttlSecs now') now' := by
  intro jti' t ht
  have hold := h jti' t (hnow.trans ht)
  rw [Deadlines.inForce_revoke, ← hold]
  cases b with
  | memory entries => exact MemoryAccessTokenBlacklist.isRevoked_revoke ht ttlSecs
  | redis keys =>
      by_cases h0 : ttlSecs = 0
      · subst h0
        show (keys.revoke jti 0 now').holds jti' t = _
        rw [Redis.revoke, if_pos rfl]
        split_ifs with heq
        · subst heq
          have hdone : keys.holds jti t = false :=
            hold.trans (Deadlines.inForce_mono (hzero rfl) ht)
          rw [hdone]
          exact (decide_eq_false (by simpa [ofSecs] using ht)).symm
        · rfl
      · exact Redis.holds_revoke h0

/-- **One call** is answered from the deadlines, and the list goes on answering from them. -/
theorem call_shows (h : b.Shows d now) {c : PortCall} (hnow : now ≤ c.now) (hlast : c.now ≤ c.last)
    (hends : d.EndsNone c) : (b.call c).1 = d.answer c ∧ (b.call c).2.Shows (d.after c) c.last := by
  cases c with
  | revoke jti ttlSecs now' => exact ⟨rfl, h.revoke hnow hends⟩
  | isRevoked jti now' recheckAt =>
      have hlater : ∀ {t}, recheckAt ≤ t → now ≤ t := fun ht => (hnow.trans hlast).trans ht
      have hanswer := h jti now' hnow
      cases b with
      | redis keys => exact ⟨congrArg some hanswer, fun jti' t ht => h jti' t (hlater ht)⟩
      | memory entries =>
          show ((memory entries).call (.isRevoked jti now' recheckAt)).1 =
              some (d.inForce jti now') ∧ _
          rw [← hanswer]
          simp only [Blacklist.isRevoked, MemoryAccessTokenBlacklist.isRevoked, call]
          cases hlookup : entries.lookup jti now' with
          | some answer => exact ⟨rfl, fun jti' t ht => h jti' t (hlater ht)⟩
          | none =>
              refine ⟨congrArg some ?_, fun jti' t ht => ?_⟩
              · exact (MemoryAccessTokenBlacklist.recheck_of_lookup hlookup hlast).trans
                  (MemoryAccessTokenBlacklist.recheck_of_lookup hlookup le_rfl).symm
              · exact (MemoryAccessTokenBlacklist.isRevoked_recheck ht).trans (h jti' t (hlater ht))

/-- Every sequence of calls is answered from the deadlines. -/
theorem answers_eq (h : b.Shows d now) {calls : List PortCall} (hnow : ∀ c ∈ calls, now ≤ c.now)
    (hord : PortCall.Ordered calls) (hended : d.NoneEnded calls) :
    b.answers calls = d.answers calls := by
  induction calls generalizing b d now with
  | nil => rfl
  | cons c calls ih =>
      obtain ⟨hlast, hnext, hord⟩ := hord.cons
      obtain ⟨hanswer, hshows⟩ := call_shows h (hnow c List.mem_cons_self) hlast hended.1
      show (b.call c).1 :: (b.call c).2.answers calls = d.answer c :: (d.after c).answers calls
      rw [hanswer, ih hshows hnext hord hended.2]

/-- **The lists agree** on every sequence of calls that revokes no token for zero seconds while it
is revoked. -/
theorem backends_agree (calls : List PortCall) (hord : PortCall.Ordered calls)
    (hended : Deadlines.empty.NoneEnded calls) :
    (new .memory).answers calls = (new .redis).answers calls := by
  obtain ⟨start, hstart⟩ := exists_start PortCall.now calls
  rw [answers_eq (new_shows .memory start) hstart hord hended,
    answers_eq (new_shows .redis start) hstart hord hended]

/-- A token is revoked, revoked again for a shorter time, and for zero seconds once that is over. -/
def shortened : List PortCall :=
  [.revoke 1 10 0, .revoke 1 5 (ofSecs 1), .isRevoked 1 (ofSecs 5) (ofSecs 5),
    .revoke 1 0 (ofSecs 6), .isRevoked 1 (ofSecs 6) (ofSecs 7)]

theorem backends_agree_shortened :
    PortCall.Ordered shortened ∧ Deadlines.empty.NoneEnded shortened ∧
    (new .memory).answers shortened = (new .redis).answers shortened := by
  have hord : PortCall.Ordered shortened := by
    unfold PortCall.Ordered
    decide
  have hended : Deadlines.empty.NoneEnded shortened :=
    ⟨fun h => absurd h (by decide), fun h => absurd h (by decide), trivial, fun _ => by
      decide, trivial, trivial⟩
  exact ⟨hord, hended, backends_agree shortened hord hended⟩

/-- A token is revoked for ten seconds, and at the same time for zero. -/
def ended : List PortCall := [.revoke 1 10 0, .revoke 1 0 0, .isRevoked 1 0 0]

theorem zero_ttl_disagrees :
    PortCall.Ordered ended ∧ (new .memory).answers ended = [none, none, some false] ∧
    (new .redis).answers ended = [none, none, some true] := by
  refine ⟨?_, ?_, ?_⟩
  · unfold PortCall.Ordered
    decide
  · decide
  · decide

end Blacklist

end AppHome
