import Mathlib.Data.List.DropRight

/-!
# Texts

What the program uses of `str`: `trim`, over the Unicode white space, lower case and the `{:?}`
form.
-/

namespace AppHome.Text

/-- `char::is_whitespace`. -/
def isWhitespace (c : Char) : Bool :=
  (0x9 ≤ c.toNat && c.toNat ≤ 0xD) || (0x2000 ≤ c.toNat && c.toNat ≤ 0x200A) ||
    c.toNat ∈ [0x20, 0x85, 0xA0, 0x1680, 0x2028, 0x2029, 0x202F, 0x205F, 0x3000]

/-- `str::trim`. -/
def trim (s : String) : String :=
  String.ofList ((s.toList.dropWhile isWhitespace).rdropWhile isWhitespace)

section List
variable {α : Type} {p : α → Bool}

/-- What is cut off at the end is not needed to stop at the front. -/
theorem dropWhile_rdropWhile (l : List α) :
    ((l.dropWhile p).rdropWhile p).dropWhile p = (l.dropWhile p).rdropWhile p := by
  rw [List.dropWhile_eq_self_iff]
  intro hlen
  have hpre : (l.dropWhile p).rdropWhile p <+: l.dropWhile p := List.rdropWhile_prefix p _
  rw [List.IsPrefix.getElem hpre hlen]
  exact List.dropWhile_get_zero_not p l (hlen.trans_le hpre.length_le)

end List

theorem trim_trim (s : String) : trim (trim s) = trim s := by
  rw [trim, trim, String.toList_ofList, dropWhile_rdropWhile, List.rdropWhile_idempotent]

/-! ## Lower case -/

/-- `str::to_ascii_lowercase`. -/
def toAsciiLowercase (s : String) : String := String.ofList (s.toList.map Char.toLower)

def eqIgnoreAsciiCase (s t : String) : Bool := toAsciiLowercase s = toAsciiLowercase t

/-- `char::to_lowercase`. Only two letters outside ASCII have ASCII in their lower case. The others
stand for themselves: the program compares lower case with ASCII words alone. -/
def lowerChar (c : Char) : List Char :=
  if c.toNat = 0x130 then ['i', Char.ofNat 0x307]
  else if c.toNat = 0x212A then ['k']
  else [c.toLower]

/-- `str::to_lowercase`. -/
def toLowercase (s : String) : String := String.ofList (s.toList.flatMap lowerChar)

theorem toLower_of_large {c : Char} (h : 128 ≤ c.toNat) : c.toLower = c := by
  unfold Char.toLower
  split
  · next hu =>
      have hle : c.toNat ≤ 90 := UInt32.le_iff_toNat_le.mp hu.2
      omega
  · rfl

/-- On a text whose ASCII lower case is ASCII the two lower cases agree. -/
theorem toLowercase_of_ascii {s : String} (h : ∀ c ∈ (toAsciiLowercase s).toList, c.toNat < 128) :
    toLowercase s = toAsciiLowercase s := by
  rw [toAsciiLowercase, String.toList_ofList, List.forall_mem_map] at h
  have hchar : ∀ c ∈ s.toList, lowerChar c = [c.toLower] := by
    intro c hc
    have hsmall : c.toNat < 128 := by
      by_contra hlarge
      have hlower := h c hc
      rw [toLower_of_large (by omega)] at hlower
      omega
    rw [lowerChar, if_neg (by omega), if_neg (by omega)]
  rw [toLowercase, toAsciiLowercase, List.flatMap_congr hchar, List.map_eq_flatMap]

/-! ## `{:?}` -/

def escapeDebug (c : Char) : List Char :=
  if c = '"' then ['\\', '"']
  else if c = '\\' then ['\\', '\\']
  else if c = '\t' then ['\\', 't']
  else if c = '\r' then ['\\', 'r']
  else if c = '\n' then ['\\', 'n']
  else [c]

/-- A text of printable characters in its `{:?}` form. -/
def debug (s : String) : String := String.ofList ('"' :: s.toList.flatMap escapeDebug ++ ['"'])

def debugOption : Option String → String
  | none => "None"
  | some s => "Some(" ++ debug s ++ ")"

end AppHome.Text
