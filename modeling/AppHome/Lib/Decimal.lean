import Mathlib

/-!
# Decimal numbers in texts

`str::parse` for the integer types: an optional sign, then at least one ASCII digit and nothing
else, with a value in the range of the type. Leading zeros are allowed.

* `natural` : digits alone;
* `unsigned`, `signed` : with the signs that an unsigned or a signed type takes, and a range;
* `unsigned_le`, `signed_mem`, `unsigned_twoDigits` : what is read is in the range; two digits are
  read back.
-/

namespace Decimal

def digit (c : Char) : Option Nat := if '0' ≤ c ∧ c ≤ '9' then some (c.toNat - 48) else none

/-- The digits after a first part with the value `n`. -/
def digits : Nat → List Char → Option Nat
  | n, [] => some n
  | n, c :: cs => (digit c).bind fun d => digits (10 * n + d) cs

def natural (cs : List Char) : Option Nat := if cs.isEmpty then none else digits 0 cs

/-- A type that holds the numbers up to `max`. -/
def unsigned (max : Nat) : List Char → Option Nat
  | '+' :: cs => (natural cs).filter (· ≤ max)
  | cs => (natural cs).filter (· ≤ max)

/-- A type that holds the numbers from `lo` to `hi`. -/
def signed (lo hi : Int) : List Char → Option Int
  | '+' :: cs => ((natural cs).map Int.ofNat).filter fun n => lo ≤ n ∧ n ≤ hi
  | '-' :: cs => ((natural cs).map fun n => -(n : Int)).filter fun n => lo ≤ n ∧ n ≤ hi
  | cs => ((natural cs).map Int.ofNat).filter fun n => lo ≤ n ∧ n ≤ hi

theorem unsigned_le {max n : Nat} {cs : List Char} (h : unsigned max cs = some n) : n ≤ max := by
  unfold unsigned at h
  split at h <;> simpa using (Option.filter_eq_some_iff.mp h).2

theorem signed_mem {lo hi n : Int} {cs : List Char} (h : signed lo hi cs = some n) :
    lo ≤ n ∧ n ≤ hi := by
  unfold signed at h
  split at h <;> simpa using (Option.filter_eq_some_iff.mp h).2

theorem digit_digitChar {d : Nat} (h : d < 10) : digit (Nat.digitChar d) = some d := by
  interval_cases d <;> rfl

/-- Two digits, the first of which may be a zero. -/
def twoDigits (n : Nat) : List Char := [Nat.digitChar (n / 10), Nat.digitChar (n % 10)]

theorem natural_twoDigits {n : Nat} (h : n < 100) : natural (twoDigits n) = some n := by
  have htens : n / 10 < 10 := by omega
  have hones : n % 10 < 10 := by omega
  show (digit _).bind (fun d => (digit _).bind fun d' => some (10 * (10 * 0 + d) + d')) = some n
  rw [digit_digitChar htens, digit_digitChar hones]
  simp only [Option.bind_some, Option.some.injEq]
  omega

theorem unsigned_twoDigits {max n : Nat} (h : n < 100) (hmax : n ≤ max) :
    unsigned max (twoDigits n) = some n := by
  rw [twoDigits, unsigned]
  · rw [← twoDigits, natural_twoDigits h]
    simpa using hmax
  · simp

end Decimal
