import Mathlib

/-!
# UTF-8, read leniently

`encode` is the UTF-8 form of a text and `lossy` reads any bytes back: what is not UTF-8 becomes
replacement characters, one for each longest piece that could have begun a character. `lossy_encode`
: a text is read back from its own bytes. `ascii` is the text of bytes that are ASCII
(`encode_ascii`).
-/

namespace Utf8

/-- `U+FFFD`. -/
def replacement : Char := Char.ofNat 0xFFFD

/-- The bytes that continue a character. -/
def isCont (b : Nat) : Bool := 0x80 ≤ b && b < 0xC0

/-- The bytes that may come second in a character of three or four: no overlong form, no surrogate,
nothing past `U+10FFFF`. -/
def isSecond (first b : Nat) : Bool :=
  if first = 0xE0 then 0xA0 ≤ b && b < 0xC0
  else if first = 0xED then 0x80 ≤ b && b < 0xA0
  else if first = 0xF0 then 0x90 ≤ b && b < 0xC0
  else if first = 0xF4 then 0x80 ≤ b && b < 0x90
  else isCont b

/-- The character that begins with the byte `first`, and how many of the bytes after it belong to
it. A byte past the end reads as zero. -/
def next (first : Nat) (rest : List UInt8) : Char × Nat :=
  let b1 := (rest.getD 0 0).toNat
  let b2 := (rest.getD 1 0).toNat
  let b3 := (rest.getD 2 0).toNat
  if first < 0x80 then (Char.ofNat first, 0)
  else if first < 0xC2 then (replacement, 0)
  else if first < 0xE0 then
    if isCont b1 then (Char.ofNat ((first - 0xC0) * 64 + (b1 - 0x80)), 1) else (replacement, 0)
  else if first < 0xF0 then
    if !isSecond first b1 then (replacement, 0)
    else if !isCont b2 then (replacement, 1)
    else (Char.ofNat ((first - 0xE0) * 4096 + (b1 - 0x80) * 64 + (b2 - 0x80)), 2)
  else if first < 0xF5 then
    if !isSecond first b1 then (replacement, 0)
    else if !isCont b2 then (replacement, 1)
    else if !isCont b3 then (replacement, 2)
    else
      (Char.ofNat ((first - 0xF0) * 262144 + (b1 - 0x80) * 4096 + (b2 - 0x80) * 64 + (b3 - 0x80)),
        3)
  else (replacement, 0)

/-- The characters after the first `skip` bytes. -/
def decode : (skip : Nat) → List UInt8 → List Char
  | _, [] => []
  | 0, b :: rest => (next b.toNat rest).1 :: decode (next b.toNat rest).2 rest
  | skip + 1, _ :: rest => decode skip rest

/-- `String::from_utf8_lossy`. -/
def lossy (bytes : List UInt8) : String := String.ofList (decode 0 bytes)

def encode (s : String) : List UInt8 := s.toList.flatMap String.utf8EncodeChar

/-! ## A text is read back from its bytes -/

theorem decode_skip (l rest : List UInt8) : decode l.length (l ++ rest) = decode 0 rest := by
  induction l with
  | nil => rfl
  | cons b l ih => exact ih

theorem toNat_ofNat_of_lt {n : Nat} (h : n < 256) : (UInt8.ofNat n).toNat = n := by
  rw [UInt8.toNat_ofNat', Nat.mod_eq_of_lt h]

theorem ofNat_eq {c : Char} {n : Nat} (h : n = c.toNat) : Char.ofNat n = c := by
  rw [h, Char.ofNat_toNat]

section Next
variable {first : Nat} {b1 b2 b3 : UInt8} (rest : List UInt8)

theorem next_two (hlo : 0xC2 ≤ first) (hhi : first < 0xE0) (h1 : isCont b1.toNat = true) :
    next first (b1 :: rest) = (Char.ofNat ((first - 0xC0) * 64 + (b1.toNat - 0x80)), 1) := by
  unfold next
  rw [if_neg (by omega), if_neg (by omega), if_pos hhi]
  exact if_pos h1

theorem next_three (hlo : 0xE0 ≤ first) (hhi : first < 0xF0) (h1 : isSecond first b1.toNat = true)
    (h2 : isCont b2.toNat = true) :
    next first (b1 :: b2 :: rest) =
      (Char.ofNat ((first - 0xE0) * 4096 + (b1.toNat - 0x80) * 64 + (b2.toNat - 0x80)), 2) := by
  unfold next
  rw [if_neg (by omega), if_neg (by omega), if_neg (by omega), if_pos hhi]
  simp [h1, h2]

theorem next_four (hlo : 0xF0 ≤ first) (hhi : first < 0xF5) (h1 : isSecond first b1.toNat = true)
    (h2 : isCont b2.toNat = true) (h3 : isCont b3.toNat = true) :
    next first (b1 :: b2 :: b3 :: rest) =
      (Char.ofNat ((first - 0xF0) * 262144 + (b1.toNat - 0x80) * 4096 + (b2.toNat - 0x80) * 64 +
        (b3.toNat - 0x80)), 3) := by
  unfold next
  rw [if_neg (by omega), if_neg (by omega), if_neg (by omega), if_neg (by omega), if_pos hhi]
  simp [h1, h2, h3]

end Next

theorem isCont_add (n : Nat) : isCont (n % 64 + 128) = true := by
  simp only [isCont, Bool.and_eq_true, decide_eq_true_eq]
  omega

/-- The second byte of a character that is long enough for its first byte, and no surrogate. -/
theorem isSecond_add {first n : Nat} (h0 : first = 0xE0 → 32 ≤ n % 64)
    (h1 : first = 0xED → n % 64 < 32) (h2 : first = 0xF0 → 16 ≤ n % 64)
    (h3 : first = 0xF4 → n % 64 < 16) :
    isSecond first (n % 64 + 128) = true := by
  have hlt := Nat.mod_lt n (show 0 < 64 by decide)
  unfold isSecond
  split_ifs with e0 e1 e2 e3
  · have := h0 e0
    simp only [Bool.and_eq_true, decide_eq_true_eq]
    omega
  · have := h1 e1
    simp only [Bool.and_eq_true, decide_eq_true_eq]
    omega
  · have := h2 e2
    simp only [Bool.and_eq_true, decide_eq_true_eq]
    omega
  · have := h3 e3
    simp only [Bool.and_eq_true, decide_eq_true_eq]
    omega
  · exact isCont_add n

theorem next_encodeChar (c : Char) (rest : List UInt8) :
    ∃ first tail, String.utf8EncodeChar c = first :: tail ∧
      next first.toNat (tail ++ rest) = (c, tail.length) := by
  have hvalid : c.toNat < 55296 ∨ 57343 < c.toNat ∧ c.toNat < 1114112 := c.valid
  unfold String.utf8EncodeChar
  rw [show c.val.toNat = c.toNat from rfl]
  simp only
  split_ifs with h1 h2 h3
  · refine ⟨_, [], rfl, ?_⟩
    rw [toNat_ofNat_of_lt (by omega)]
    unfold next
    rw [if_pos (by omega), Char.ofNat_toNat]
    rfl
  · refine ⟨_, _, rfl, ?_⟩
    have hb1 : (UInt8.ofNat (c.toNat % 64 + 128)).toNat = c.toNat % 64 + 128 :=
      toNat_ofNat_of_lt (by omega)
    rw [toNat_ofNat_of_lt (by omega)]
    refine (next_two rest (by omega) (by omega) (by rw [hb1]; exact isCont_add _)).trans ?_
    rw [hb1, ofNat_eq (c := c) (by omega)]
    rfl
  · refine ⟨_, _, rfl, ?_⟩
    have hb1 : (UInt8.ofNat (c.toNat / 64 % 64 + 128)).toNat = c.toNat / 64 % 64 + 128 :=
      toNat_ofNat_of_lt (by omega)
    have hb2 : (UInt8.ofNat (c.toNat % 64 + 128)).toNat = c.toNat % 64 + 128 :=
      toNat_ofNat_of_lt (by omega)
    have hsecond : isSecond (c.toNat / 4096 % 16 + 224) (c.toNat / 64 % 64 + 128) = true :=
      isSecond_add (by omega) (by omega) (by omega) (by omega)
    rw [toNat_ofNat_of_lt (by omega)]
    refine (next_three rest (by omega) (by omega) (by rw [hb1]; exact hsecond)
      (by rw [hb2]; exact isCont_add _)).trans ?_
    rw [hb1, hb2, ofNat_eq (c := c) (by omega)]
    rfl
  · refine ⟨_, _, rfl, ?_⟩
    have hb1 : (UInt8.ofNat (c.toNat / 4096 % 64 + 128)).toNat = c.toNat / 4096 % 64 + 128 :=
      toNat_ofNat_of_lt (by omega)
    have hb2 : (UInt8.ofNat (c.toNat / 64 % 64 + 128)).toNat = c.toNat / 64 % 64 + 128 :=
      toNat_ofNat_of_lt (by omega)
    have hb3 : (UInt8.ofNat (c.toNat % 64 + 128)).toNat = c.toNat % 64 + 128 :=
      toNat_ofNat_of_lt (by omega)
    have hsecond : isSecond (c.toNat / 262144 % 8 + 240) (c.toNat / 4096 % 64 + 128) = true :=
      isSecond_add (by omega) (by omega) (by omega) (by omega)
    rw [toNat_ofNat_of_lt (by omega)]
    refine (next_four rest (by omega) (by omega) (by rw [hb1]; exact hsecond)
      (by rw [hb2]; exact isCont_add _) (by rw [hb3]; exact isCont_add _)).trans ?_
    rw [hb1, hb2, hb3, ofNat_eq (c := c) (by omega)]
    rfl

theorem decode_encode (cs : List Char) : decode 0 (cs.flatMap String.utf8EncodeChar) = cs := by
  induction cs with
  | nil => rfl
  | cons c cs ih =>
      obtain ⟨first, tail, henc, hnext⟩ := next_encodeChar c (cs.flatMap String.utf8EncodeChar)
      rw [List.flatMap_cons, henc, List.cons_append, decode, hnext, decode_skip, ih]

theorem lossy_encode (s : String) : lossy (encode s) = s := by
  rw [lossy, encode, decode_encode, String.ofList_toList]

theorem encode_injective {s t : String} (h : encode s = encode t) : s = t := by
  rw [← lossy_encode s, h, lossy_encode]

/-! ## ASCII -/

def ascii (bytes : List UInt8) : String := String.ofList (bytes.map fun b => Char.ofNat b.toNat)

theorem encodeChar_ascii {b : UInt8} (h : b < 128) :
    String.utf8EncodeChar (Char.ofNat b.toNat) = [b] := by
  have hlt : b.toNat < 128 := h
  have hvalid : b.toNat.isValidChar := Or.inl (by omega)
  have hval : (Char.ofNat b.toNat).val.toNat = b.toNat := (Char.toNat_ofNat _).trans (if_pos hvalid)
  unfold String.utf8EncodeChar
  rw [hval]
  simp only
  rw [if_pos (by omega), UInt8.ofNat_toNat]

theorem encode_ascii {bytes : List UInt8} (h : ∀ b ∈ bytes, b < 128) :
    encode (ascii bytes) = bytes := by
  rw [encode, ascii, String.toList_ofList]
  induction bytes with
  | nil => rfl
  | cons b bytes ih =>
      rw [List.map_cons, List.flatMap_cons, encodeChar_ascii (h b List.mem_cons_self),
        ih fun b hb => h b (List.mem_cons_of_mem _ hb)]
      rfl

end Utf8
