import Mathlib

/-!
# Unpadded base64

`encode` writes three bytes as four characters of an alphabet, and a rest of one or two bytes as two
or three. A text is encoded group by group, so what comes first is written first (`encode_append`).
`decode` reads it back (`decode_encode`) and refuses a last character with bits that belong to no
byte.

`urlSafe` is the alphabet of base64url, and `bcrypt` the one bcrypt hashes are written in.
-/

namespace Base64
variable {α : Type}

section Encode
variable (alphabet : Nat → α)

def encode : List UInt8 → List α
  | [] => []
  | [a] => [alphabet (a.toNat / 4), alphabet (a.toNat % 4 * 16)]
  | [a, b] =>
    [alphabet (a.toNat / 4), alphabet (a.toNat % 4 * 16 + b.toNat / 16),
      alphabet (b.toNat % 16 * 4)]
  | a :: b :: c :: s =>
    alphabet (a.toNat / 4) :: alphabet (a.toNat % 4 * 16 + b.toNat / 16) ::
      alphabet (b.toNat % 16 * 4 + c.toNat / 64) :: alphabet (c.toNat % 64) :: encode s

variable {alphabet}

theorem encode_append {s : List UInt8} (h : 3 ∣ s.length) (t : List UInt8) :
    encode alphabet (s ++ t) = encode alphabet s ++ encode alphabet t := by
  induction s using encode.induct with
  | case1 => rfl
  | case2 a => simp at h
  | case3 a b => simp at h
  | case4 a b c s ih =>
      have hs : 3 ∣ s.length := by
        simp only [List.length_cons] at h
        omega
      simp only [List.cons_append, encode, ih hs]

theorem length_encode {s : List UInt8} (h : 3 ∣ s.length) :
    (encode alphabet s).length = s.length / 3 * 4 := by
  induction s using encode.induct with
  | case1 => rfl
  | case2 a => simp at h
  | case3 a b => simp at h
  | case4 a b c s ih =>
      simp only [List.length_cons] at h
      simp only [encode, List.length_cons, ih (by omega)]
      omega

theorem mem_encode {s : List UInt8} {x : α} (h : x ∈ encode alphabet s) :
    ∃ n < 64, x = alphabet n := by
  induction s using encode.induct with
  | case1 => cases h
  | case2 a =>
      have ha := a.toNat_lt
      simp only [encode, List.mem_cons, List.not_mem_nil, or_false] at h
      rcases h with rfl | rfl
      · exact ⟨_, by omega, rfl⟩
      · exact ⟨_, by omega, rfl⟩
  | case3 a b =>
      have ha := a.toNat_lt
      have hb := b.toNat_lt
      simp only [encode, List.mem_cons, List.not_mem_nil, or_false] at h
      rcases h with rfl | rfl | rfl
      · exact ⟨_, by omega, rfl⟩
      · exact ⟨_, by omega, rfl⟩
      · exact ⟨_, by omega, rfl⟩
  | case4 a b c s ih =>
      have ha := a.toNat_lt
      have hb := b.toNat_lt
      have hc := c.toNat_lt
      simp only [encode, List.mem_cons] at h
      rcases h with rfl | rfl | rfl | rfl | h
      · exact ⟨_, by omega, rfl⟩
      · exact ⟨_, by omega, rfl⟩
      · exact ⟨_, by omega, rfl⟩
      · exact ⟨_, by omega, rfl⟩
      · exact ih h

end Encode

section Decode
variable (value : α → Option Nat)

def decode : List α → Option (List UInt8)
  | [] => some []
  | [_] => none
  | [a, b] => do
    let x ← value a
    let y ← value b
    if y % 16 = 0 then some [.ofNat (x * 4 + y / 16)] else none
  | [a, b, c] => do
    let x ← value a
    let y ← value b
    let z ← value c
    if z % 4 = 0 then some [.ofNat (x * 4 + y / 16), .ofNat (y % 16 * 16 + z / 4)] else none
  | a :: b :: c :: d :: s => do
    let x ← value a
    let y ← value b
    let z ← value c
    let w ← value d
    let rest ← decode s
    some (.ofNat (x * 4 + y / 16) :: .ofNat (y % 16 * 16 + z / 4) :: .ofNat
      (z % 4 * 64 + w) :: rest)

variable {value} {alphabet : Nat → α}

theorem ofNat_eq {a : UInt8} {n : Nat} (h : n = a.toNat) : UInt8.ofNat n = a := by
  rw [h, UInt8.ofNat_toNat]

theorem decode_encode (h : ∀ n < 64, value (alphabet n) = some n) (s : List UInt8) :
    decode value (encode alphabet s) = some s := by
  induction s using encode.induct with
  | case1 => rfl
  | case2 a =>
      have ha := a.toNat_lt
      rw [encode, decode, h _ (by omega), h _ (by omega)]
      simp only [Option.bind_eq_bind, Option.bind_some]
      rw [if_pos (by omega), ofNat_eq (a := a) (by omega)]
  | case3 a b =>
      have ha := a.toNat_lt
      have hb := b.toNat_lt
      rw [encode, decode, h _ (by omega), h _ (by omega), h _ (by omega)]
      simp only [Option.bind_eq_bind, Option.bind_some]
      rw [if_pos (by omega), ofNat_eq (a := a) (by omega), ofNat_eq (a := b) (by omega)]
  | case4 a b c s ih =>
      have ha := a.toNat_lt
      have hb := b.toNat_lt
      have hc := c.toNat_lt
      rw [encode, decode, h _ (by omega), h _ (by omega), h _ (by omega), h _ (by omega), ih]
      simp only [Option.bind_eq_bind, Option.bind_some]
      rw [ofNat_eq (a := a) (by omega), ofNat_eq (a := b) (by omega), ofNat_eq (a := c) (by omega)]

end Decode

/-! ## Alphabets -/

/-- `A-Za-z0-9-_`. -/
def urlSafe (n : Nat) : UInt8 :=
  if n < 26 then .ofNat (n + 65)
  else if n < 52 then .ofNat (n + 71)
  else if n < 62 then .ofNat (n - 4)
  else if n = 62 then 45
  else 95

def urlSafeValue (b : UInt8) : Option Nat :=
  if 65 ≤ b ∧ b ≤ 90 then some (b.toNat - 65)
  else if 97 ≤ b ∧ b ≤ 122 then some (b.toNat - 71)
  else if 48 ≤ b ∧ b ≤ 57 then some (b.toNat + 4)
  else if b = 45 then some 62
  else if b = 95 then some 63
  else none

theorem urlSafeValue_urlSafe : ∀ n < 64, urlSafeValue (urlSafe n) = some n := by decide

/-- `./A-Za-z0-9`. -/
def bcrypt (n : Nat) : Char :=
  if n < 2 then Char.ofNat (n + 46)
  else if n < 28 then Char.ofNat (n + 63)
  else if n < 54 then Char.ofNat (n + 69)
  else Char.ofNat (n - 6)

/-- `foobar`, and `fo`. -/
example : encode urlSafe [102, 111, 111, 98, 97, 114] = [90, 109, 57, 118, 89, 109, 70, 121] ∧
    encode urlSafe [102, 111] = [90, 109, 56] := by decide

/-- `Zg` is `f`, and `Zh`, whose last four bits are not zero, is nothing. -/
example : decode urlSafeValue [90, 103] = some [102] ∧ decode urlSafeValue
    [90, 104] = none := by decide

end Base64
