import AppHome.Auth.Jwt
import AppHome.Lib.Decimal
import AppHome.Revocation.Logout

/-!
# The lifetimes of tokens and sessions

`ACCESS_TOKEN_EXPIRY_MINUTES` and `REFRESH_TOKEN_EXPIRY_DAYS` are read as `i64` and not checked
further. Four computations use them, each with a range of its own. A result out of range is `none`
here: it panics, or wraps around in a build without overflow checks. The rest of the development
computes with integers of any size.

* `fromEnv` : the two settings;
* `accessExp`, `refreshExp`, `sessionExpiry`, `checkedTtl` : the computations;
* `NoOverflow` : all of them give the values of the unbounded ones;
* `noOverflow_iff` : the settings with which they always do.
-/

namespace AppHome.Expiry

/-! ## The settings -/

def InI64 (n : Int) : Prop := -2 ^ 63 ≤ n ∧ n < 2 ^ 63

instance decidableInI64 (n : Int) : Decidable (InI64 n) := inferInstanceAs (Decidable (_ ∧ _))

structure Settings where
  accessTokenExpiryMinutes : Int
  refreshTokenExpiryDays : Int
  minutes_inI64 : InI64 accessTokenExpiryMinutes
  days_inI64 : InI64 refreshTokenExpiryDays

def parseI64 (raw error : String) : Except String { n : Int // InI64 n } :=
  match h : Decimal.signed (-2 ^ 63) (2 ^ 63 - 1) raw.toList with
  | some n => .ok ⟨n, (Decimal.signed_mem h).1, Int.lt_of_le_sub_one (Decimal.signed_mem h).2⟩
  | none => .error error

/-- The part of `AuthSettings::from_env` that reads the two settings. -/
def fromEnv (accessMinutes refreshDays : Option String) : Except String Settings := do
  let minutes ← parseI64 (accessMinutes.getD "15")
      "ACCESS_TOKEN_EXPIRY_MINUTES must be a valid number"
  let days ← parseI64 (refreshDays.getD "7") "REFRESH_TOKEN_EXPIRY_DAYS must be a valid number"
  return ⟨minutes.1, days.1, minutes.2, days.2⟩

/-! ## The computations -/

/-- The value of an `i64` expression. -/
def i64 (n : Int) : Option Int := if InI64 n then some n else none

/-- `now + lifetime * unit`. -/
def tokenExp (unit now lifetime : Int) : Option Int :=
  (i64 (lifetime * unit)).bind fun secs => i64 (now + secs)

def accessExp : Int → Int → Option Int := tokenExp 60

def refreshExp : Int → Int → Option Int := tokenExp 86400

/-- The seconds of `chrono::Duration::days`, which has a range of `i64::MAX`
milliseconds both ways. -/
def durationDays (n : Int) : Option Int :=
  (i64 (n * 86400)).filter fun secs => -(2 ^ 63 - 1) ≤ secs * 1000 ∧ secs * 1000 ≤ 2 ^ 63 - 1

/-- The last second of the year 262142, the last that a `DateTime` reaches. -/
def maxTimestamp : Int := 8210266876799

/-- The first second of the year -262143. -/
def minTimestamp : Int := -8334601228800

/-- `DateTime + Duration`. -/
def addDuration (t : Instant) (secs : Int) : Option Instant :=
  if minTimestamp ≤ timestamp (t + ofSecs secs) ∧ timestamp (t + ofSecs secs) ≤ maxTimestamp then
    some (t + ofSecs secs)
  else none

/-- `Utc::now() + chrono::Duration::days(refresh_token_expiry_days)`. -/
def sessionExpiry (now : Instant) (days : Int) : Option Instant :=
  (durationDays days).bind (addDuration now)

/-- `(exp + JWT_EXP_LEEWAY_SECS - now).max(0) as u64`. -/
def checkedTtl (exp now : Int) : Option Nat :=
  (i64 (exp + jwtExpLeewaySecs)).bind fun n => (i64 (n - now)).map Int.toNat

/-- Every computation for a token pair minted at `minted`, for a session whose expiry is computed at
`base` and for a logout at `logout` is exact. -/
structure NoOverflow (s : Settings) (minted base logout : Instant) : Prop where
  access : accessExp (timestamp minted) s.accessTokenExpiryMinutes =
    some (timestamp minted + s.accessTokenExpiryMinutes * 60)
  refresh : refreshExp (timestamp minted) s.refreshTokenExpiryDays =
    some (timestamp minted + s.refreshTokenExpiryDays * 86400)
  session : sessionExpiry base s.refreshTokenExpiryDays =
    some (base + days s.refreshTokenExpiryDays)
  revocation : checkedTtl (timestamp minted + s.accessTokenExpiryMinutes * 60) (timestamp logout) =
    some (revocationTtlSecs (timestamp minted + s.accessTokenExpiryMinutes * 60) (timestamp logout))

/-! ## Their ranges -/

theorem i64_eq_some_iff {n m : Int} : i64 n = some m ↔ InI64 n ∧ n = m := by
  by_cases h : InI64 n
  · rw [i64, if_pos h, Option.some.injEq]
    exact ⟨fun e => ⟨h, e⟩, fun e => e.2⟩
  · rw [i64, if_neg h]
    exact ⟨fun e => (by cases e), fun e => absurd e.1 h⟩

theorem tokenExp_exact_iff {unit now lifetime : Int} :
    tokenExp unit now lifetime = some (now + lifetime * unit) ↔
      InI64 (lifetime * unit) ∧ InI64 (now + lifetime * unit) := by
  simp only [tokenExp, Option.bind_eq_some_iff, i64_eq_some_iff]
  constructor
  · rintro ⟨secs, ⟨hmul, rfl⟩, hadd, -⟩
    exact ⟨hmul, hadd⟩
  · rintro ⟨hmul, hadd⟩
    exact ⟨_, ⟨hmul, rfl⟩, hadd, rfl⟩

theorem checkedTtl_exact_iff {exp now : Int} :
    checkedTtl exp now = some (revocationTtlSecs exp now) ↔
      InI64 (exp + 60) ∧ InI64 (exp + 60 - now) := by
  simp only [checkedTtl, Option.bind_eq_some_iff, Option.map_eq_some_iff, i64_eq_some_iff]
  constructor
  · rintro ⟨n, ⟨hadd, rfl⟩, m, ⟨hsub, rfl⟩, -⟩
    exact ⟨hadd, hsub⟩
  · rintro ⟨hadd, hsub⟩
    exact ⟨_, ⟨hadd, rfl⟩, _, ⟨hsub, rfl⟩, rfl⟩

theorem timestamp_add_ofSecs (t : Instant) (n : Int) :
    timestamp (t + ofSecs n) = timestamp t + n := by
  unfold timestamp ofSecs nanosPerSec
  omega

theorem durationDays_eq_some_iff {n secs : Int} : durationDays n = some secs ↔
    (-(2 ^ 63 - 1) ≤ secs * 1000 ∧ secs * 1000 ≤ 2 ^ 63 - 1) ∧ n * 86400 = secs := by
  simp only [durationDays, Option.filter_eq_some_iff, i64_eq_some_iff, decide_eq_true_eq]
  constructor
  · rintro ⟨⟨-, rfl⟩, hrange⟩
    exact ⟨hrange, rfl⟩
  · rintro ⟨hrange, rfl⟩
    refine ⟨⟨?_, rfl⟩, hrange⟩
    unfold InI64
    omega

theorem addDuration_eq_some_iff {t t' : Instant} {secs : Int} : addDuration t secs = some t' ↔
    (minTimestamp ≤ timestamp t + secs ∧ timestamp t + secs ≤ maxTimestamp) ∧
    t + ofSecs secs = t' := by
  rw [addDuration, timestamp_add_ofSecs]
  split_ifs with h
  · simp only [Option.some.injEq, h, true_and]
  · simp only [h, false_and]

theorem sessionExpiry_exact_iff {now : Instant} {n : Int} :
    sessionExpiry now n = some (now + days n) ↔
    (-(2 ^ 63 - 1) ≤ n * 86400 * 1000 ∧ n * 86400 * 1000 ≤ 2 ^ 63 - 1) ∧
      minTimestamp ≤ timestamp now + n * 86400 ∧ timestamp now + n * 86400 ≤ maxTimestamp := by
  simp only [sessionExpiry, Option.bind_eq_some_iff, durationDays_eq_some_iff,
    addDuration_eq_some_iff]
  constructor
  · rintro ⟨secs, ⟨hrange, rfl⟩, hdate, -⟩
    exact ⟨hrange, hdate⟩
  · rintro ⟨hrange, hdate⟩
    exact ⟨_, ⟨hrange, rfl⟩, hdate, rfl⟩

/-! ## The settings that are safe -/

/-- From the start of 2020 to the end of 2099. -/
def PresentDay (t : Instant) : Prop := 1577836800 ≤ timestamp t ∧ timestamp t ≤ 4102444799

structure Settings.InRange (s : Settings) : Prop where
  minutes_le : 4102444799 + s.accessTokenExpiryMinutes * 60 + 60 < 2 ^ 63
  le_minutes : -2 ^ 63 ≤ 1577836800 + s.accessTokenExpiryMinutes * 60 + 60 - 4102444799
  days_le : 4102444799 + s.refreshTokenExpiryDays * 86400 ≤ maxTimestamp
  le_days : minTimestamp ≤ 1577836800 + s.refreshTokenExpiryDays * 86400

theorem timestamp_ofSecs (n : Int) : timestamp (ofSecs n) = n := by
  unfold timestamp ofSecs nanosPerSec
  omega

theorem InRange.noOverflow {s : Settings} (h : s.InRange) {minted base logout : Instant}
    (hminted : PresentDay minted) (hbase : PresentDay base) (hlogout : PresentDay logout) :
    NoOverflow s minted base logout := by
  obtain ⟨hminutes, hminutes', hdays, hdays'⟩ := h
  unfold PresentDay at hminted hbase hlogout
  unfold maxTimestamp at hdays
  unfold minTimestamp at hdays'
  refine ⟨tokenExp_exact_iff.mpr ?_, tokenExp_exact_iff.mpr ?_, sessionExpiry_exact_iff.mpr ?_,
    checkedTtl_exact_iff.mpr ?_⟩
  · unfold InI64
    omega
  · unfold InI64
    omega
  · unfold minTimestamp maxTimestamp
    omega
  · unfold InI64
    omega

/-- The first and the last second are enough to see it. -/
theorem inRange_of_noOverflow {s : Settings}
    (h : ∀ minted base logout, PresentDay minted → PresentDay base → PresentDay logout →
      NoOverflow s minted base logout) :
    s.InRange := by
  have hfirst : PresentDay (ofSecs 1577836800) := by
    rw [PresentDay, timestamp_ofSecs]
    decide
  have hlast : PresentDay (ofSecs 4102444799) := by
    rw [PresentDay, timestamp_ofSecs]
    decide
  have hlow := h _ _ _ hfirst hfirst hlast
  have hhigh := h _ _ _ hlast hlast hlast
  have hminutes := (checkedTtl_exact_iff.mp hhigh.revocation).1.2
  have hminutes' := (checkedTtl_exact_iff.mp hlow.revocation).2.1
  have hdays := (sessionExpiry_exact_iff.mp hhigh.session).2.2
  have hdays' := (sessionExpiry_exact_iff.mp hlow.session).2.1
  simp only [timestamp_ofSecs] at hminutes hminutes' hdays hdays'
  exact ⟨hminutes, hminutes', hdays, hdays'⟩

/-- A configuration that is accepted is exact at all readings of these years exactly if both
lifetimes are in range. -/
theorem noOverflow_iff (accessMinutes refreshDays : Option String) :
    (∀ s, fromEnv accessMinutes refreshDays = .ok s → ∀ minted base logout,
      PresentDay minted → PresentDay base → PresentDay logout → NoOverflow s minted base logout) ↔
    ∀ s, fromEnv accessMinutes refreshDays = .ok s → s.InRange := by
  constructor
  · intro h s hs
    exact inRange_of_noOverflow (h s hs)
  · intro h s hs minted base logout hminted hbase hlogout
    exact InRange.noOverflow (h s hs) hminted hbase hlogout

/-- Settings that are accepted: with the first, no token pair can be minted; with the second, no
session gets an expiry. -/
theorem unchecked_lifetimes :
    (∃ s, fromEnv (some "9223372036854775807") none = .ok s ∧
      accessExp 1800000000 s.accessTokenExpiryMinutes = none) ∧
    ∃ s, fromEnv none (some "100000000") = .ok s ∧
      sessionExpiry (ofSecs 1800000000) s.refreshTokenExpiryDays = none := by
  constructor
  · exact ⟨⟨9223372036854775807, 7, by decide, by decide⟩, by rfl, by decide⟩
  · exact ⟨⟨15, 100000000, by decide, by decide⟩, by rfl, by decide⟩

/-- The defaults are in range. -/
example : ∃ s, fromEnv none none = .ok s ∧ s.InRange :=
  ⟨⟨15, 7, by decide, by decide⟩, by rfl, by constructor <;> decide⟩

end AppHome.Expiry
