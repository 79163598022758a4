import Mathlib.Tactic

/-!
# `application/x-www-form-urlencoded`

Lists of pairs of byte strings as one byte string. `serialize` writes letters, digits and `*-._` as
they are, a blank as `+` and every other byte as `%XX`; `parse` is lenient: it skips empty pieces,
lets a piece without `=` be a name with no value, and leaves a `%` that is not followed by two
hexadecimal digits as it is.

`parse_serialize` : what was written is read back. `serialize_ascii` : only ASCII is written.
-/

namespace FormUrlencoded

/-! ## Writing -/

def unreserved (b : UInt8) : Bool :=
  b = 42 || b = 45 || b = 46 || b = 95 || (48 ≤ b && b ≤ 57) || (65 ≤ b && b ≤ 90) ||
    (97 ≤ b && b ≤ 122)

def hexDigit (n : Nat) : UInt8 := UInt8.ofNat (if n < 10 then 48 + n else 55 + n)

def encodeByte (b : UInt8) : List UInt8 :=
  if unreserved b then [b]
  else if b = 32 then [43]
  else [37, hexDigit (b.toNat / 16), hexDigit (b.toNat % 16)]

/-- `byte_serialize`. -/
def encode (bytes : List UInt8) : List UInt8 := bytes.flatMap encodeByte

def encodePair (p : List UInt8 × List UInt8) : List UInt8 := encode p.1 ++ 61 :: encode p.2

/-- `Serializer::extend_pairs` on an empty target. -/
def serialize (pairs : List (List UInt8 × List UInt8)) : List UInt8 :=
  [38].intercalate (pairs.map encodePair)

/-! ## Reading -/

/-- `to_digit(16)`. -/
def hexValue (b : UInt8) : Option Nat :=
  if 48 ≤ b && b ≤ 57 then some (b.toNat - 48)
  else if 65 ≤ b && b ≤ 70 then some (b.toNat - 55)
  else if 97 ≤ b && b ≤ 102 then some (b.toNat - 87)
  else none

/-- The byte two hexadecimal digits stand for. -/
def hexByte (high low : UInt8) : Option UInt8 := do
  let h ← hexValue high
  let l ← hexValue low
  return UInt8.ofNat (h * 16 + l)

def percentDecode : List UInt8 → List UInt8
  | [] => []
  | [b] => [b]
  | [b, b'] => [b, b']
  | b :: high :: low :: rest =>
    match if b = 37 then hexByte high low else none with
    | some byte => byte :: percentDecode rest
    | none => b :: percentDecode (high :: low :: rest)

def replacePlus (bytes : List UInt8) : List UInt8 := bytes.map fun b => if b = 43 then 32 else b

def decode (bytes : List UInt8) : List UInt8 := percentDecode (replacePlus bytes)

/-- A piece between two `&`: the name up to the first `=`, and the value after it. -/
def decodePair (piece : List UInt8) : List UInt8 × List UInt8 :=
  (decode (piece.takeWhile (· ≠ 61)), decode ((piece.dropWhile (· ≠ 61)).drop 1))

/-- `form_urlencoded::parse`, before its bytes are read as text. -/
def parse (bytes : List UInt8) : List (List UInt8 × List UInt8) :=
  ((bytes.splitOn 38).filter (· ≠ [])).map decodePair

/-! ## The bytes that are written -/

/-- Neither a separator nor anything the reader treats specially, but for `+` and `%`. -/
structure Written (b : UInt8) : Prop where
  ascii : b < 128
  ne_and : b ≠ 38
  ne_eq : b ≠ 61

theorem unreserved_written {b : UInt8} (h : unreserved b = true) : Written b ∧ b ≠ 37 ∧ b ≠ 43 := by
  have hlt : b < 128 := by
    simp only [unreserved, Bool.or_eq_true, Bool.and_eq_true, decide_eq_true_eq,
      UInt8.le_iff_toNat_le, ← UInt8.toNat_inj] at h
    rw [UInt8.lt_iff_toNat_lt]
    simp only [UInt8.reduceToNat] at h ⊢
    omega
  refine ⟨⟨hlt, ?_, ?_⟩, ?_, ?_⟩
  all_goals
    rintro rfl
    revert h
    decide

theorem hexDigit_written {n : Nat} (h : n < 16) : Written (hexDigit n) ∧ hexDigit n ≠ 43 := by
  refine ⟨⟨?_, ?_, ?_⟩, ?_⟩
  all_goals
    interval_cases n <;> decide

theorem encodeByte_written (b : UInt8) : ∀ x ∈ encodeByte b, Written x := by
  have hb := b.toNat_lt
  unfold encodeByte
  split_ifs with h1 h2
  · exact List.forall_mem_singleton.mpr (unreserved_written h1).1
  · exact List.forall_mem_singleton.mpr ⟨by decide, by decide, by decide⟩
  · intro x hx
    simp only [List.mem_cons, List.not_mem_nil, or_false] at hx
    rcases hx with rfl | rfl | rfl
    · exact ⟨by decide, by decide, by decide⟩
    · exact (hexDigit_written (by omega)).1
    · exact (hexDigit_written (by omega)).1

theorem encode_written (bytes : List UInt8) : ∀ x ∈ encode bytes, Written x := by
  intro x hx
  obtain ⟨b, -, hx⟩ := List.mem_flatMap.mp hx
  exact encodeByte_written b x hx

/-! ## A string is read back -/

theorem hexByte_hexDigit (b : UInt8) :
    hexByte (hexDigit (b.toNat / 16)) (hexDigit (b.toNat % 16)) = some b := by
  have hb := b.toNat_lt
  have hvalue : ∀ n, n < 16 → hexValue (hexDigit n) = some n := by
    intro n hn
    interval_cases n <;> rfl
  have hbyte : b.toNat / 16 * 16 + b.toNat % 16 = b.toNat := by omega
  rw [hexByte, hvalue _ (by omega), hvalue _ (by omega)]
  show some (UInt8.ofNat (b.toNat / 16 * 16 + b.toNat % 16)) = some b
  rw [hbyte, UInt8.ofNat_toNat]

theorem percentDecode_cons {b : UInt8} (h : b ≠ 37) (rest : List UInt8) :
    percentDecode (b :: rest) = b :: percentDecode rest := by
  match rest with
  | [] => rfl
  | [_] => rfl
  | _ :: _ :: _ => rw [percentDecode, if_neg h]

theorem percentDecode_encodeByte (b : UInt8) (rest : List UInt8) :
    percentDecode (replacePlus (encodeByte b) ++ rest) = b :: percentDecode rest := by
  have hb := b.toNat_lt
  unfold encodeByte
  split_ifs with h1 h2
  · obtain ⟨-, hpercent, hplus⟩ := unreserved_written h1
    simp only [replacePlus, List.map_cons, List.map_nil, if_neg hplus, List.singleton_append]
    exact percentDecode_cons hpercent rest
  · subst h2
    exact percentDecode_cons (by decide) rest
  · have hhigh := (hexDigit_written (show b.toNat / 16 < 16 by omega)).2
    have hlow := (hexDigit_written (show b.toNat % 16 < 16 by omega)).2
    simp only [replacePlus, List.map_cons, List.map_nil, if_neg hhigh, if_neg hlow,
      List.cons_append, List.nil_append]
    rw [if_neg (by decide), percentDecode, if_pos rfl, hexByte_hexDigit]

theorem decode_encode (bytes : List UInt8) : decode (encode bytes) = bytes := by
  unfold decode encode
  induction bytes with
  | nil => rfl
  | cons b bytes ih =>
      rw [List.flatMap_cons, replacePlus, List.map_append, ← replacePlus, ← replacePlus,
        percentDecode_encodeByte, ih]

/-! ## A list of pairs is read back -/

theorem takeWhile_dropWhile_encode (name value : List UInt8) :
    (encode name ++ 61 :: value).takeWhile (· ≠ 61) = encode name ∧
    (encode name ++ 61 :: value).dropWhile (· ≠ 61) = 61 :: value := by
  have hname : ∀ b ∈ encode name, decide (b ≠ 61) = true :=
    fun b hb => decide_eq_true (encode_written name b hb).ne_eq
  constructor
  · rw [List.takeWhile_append_of_pos hname]
    simp
  · rw [List.dropWhile_append_of_pos hname]
    simp

theorem decodePair_encodePair (p : List UInt8 × List UInt8) : decodePair (encodePair p) = p := by
  obtain ⟨htake, hdrop⟩ := takeWhile_dropWhile_encode p.1 (encode p.2)
  unfold decodePair encodePair
  rw [htake, hdrop, List.drop_succ_cons, List.drop_zero, decode_encode, decode_encode]

theorem encodePair_bytes (p : List UInt8 × List UInt8) : ∀ b ∈ encodePair p, b < 128 ∧ b ≠ 38 := by
  intro b hb
  rcases List.mem_append.mp hb with hb | hb
  · exact ⟨(encode_written p.1 b hb).ascii, (encode_written p.1 b hb).ne_and⟩
  · rcases List.mem_cons.mp hb with rfl | hb
    · exact ⟨by decide, by decide⟩
    · exact ⟨(encode_written p.2 b hb).ascii, (encode_written p.2 b hb).ne_and⟩

/-- **What was written is read back.** -/
theorem parse_serialize (pairs : List (List UInt8 × List UInt8)) :
    parse (serialize pairs) = pairs := by
  unfold parse serialize
  by_cases hnil : pairs = []
  · subst hnil
    rfl
  · have hsep : ∀ piece ∈ pairs.map encodePair, (38 : UInt8) ∉ piece := by
      intro piece hpiece hmem
      obtain ⟨p, -, rfl⟩ := List.mem_map.mp hpiece
      exact (encodePair_bytes p 38 hmem).2 rfl
    have hsplit := List.splitOn_intercalate (38 : UInt8) hsep (by simpa using hnil)
    have hkeep : (pairs.map encodePair).filter (· ≠ []) = pairs.map encodePair := by
      rw [List.filter_eq_self]
      intro piece hpiece
      obtain ⟨p, -, rfl⟩ := List.mem_map.mp hpiece
      simp [encodePair]
    rw [hsplit, hkeep, List.map_map]
    calc pairs.map (decodePair ∘ encodePair) = pairs.map id :=
          List.map_congr_left fun p _ => decodePair_encodePair p
      _ = pairs := List.map_id _

theorem serialize_ascii (pairs : List (List UInt8 × List UInt8)) :
    ∀ b ∈ serialize pairs, b < 128 := by
  unfold serialize
  induction pairs with
  | nil =>
      intro b hb
      cases hb
  | cons p pairs ih =>
      have hp : ∀ b ∈ encodePair p, b < 128 := fun b hb => (encodePair_bytes p b hb).1
      cases pairs with
      | nil =>
          intro b hb
          exact hp b (by simpa [List.intercalate] using hb)
      | cons q pairs =>
          intro b hb
          rw [List.map_cons, List.map_cons, List.intercalate_cons_cons] at hb
          simp only [List.mem_append, List.mem_singleton] at hb
          rcases hb with (hb | rfl) | hb
          · exact hp b hb
          · decide
          · exact ih b hb

end FormUrlencoded
