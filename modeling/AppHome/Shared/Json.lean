import AppHome.Lib.Utf8
import AppHome.Shared.Values

/-!
# Flat JSON objects

The JSON the service writes for the claims of a token: an object whose fields are strings and
integers, without blanks. Strings are UTF-8, so they are escaped byte by byte.

* `jsonString`, `intText`, `jsonField`, `jsonObject` : the text of a string, a number, a field and
  an object;
* `readString`, `readInt`, `readObject` : what is read from them;
* `readObject_jsonObject` : an object is read back from its text.
-/

namespace AppHome

/-! ## Writing -/

def hexDigit (n : Nat) : UInt8 := if n < 10 then .ofNat (n + 48) else .ofNat (n + 87)

/-- A byte of a JSON string. -/
def jsonEscape (b : UInt8) : Bytes :=
  if b = 34 then [92, 34]
  else if b = 92 then [92, 92]
  else if b = 8 then [92, 98]
  else if b = 9 then [92, 116]
  else if b = 10 then [92, 110]
  else if b = 12 then [92, 102]
  else if b = 13 then [92, 114]
  else if b < 32 then [92, 117, 48, 48, hexDigit (b.toNat / 16), hexDigit (b.toNat % 16)]
  else [b]

def jsonString (s : Bytes) : Bytes := 34 :: s.flatMap jsonEscape ++ [34]

def natText (n : Nat) : Bytes := (Nat.toDigits 10 n).map fun c => .ofNat c.toNat

def intText : Int → Bytes
  | .ofNat n => natText n
  | .negSucc n => 45 :: natText (n + 1)

/-- `"name":value`. -/
def jsonField (name value : Bytes) : Bytes := jsonString name ++ 58 :: value

/-- An object with its fields in order. -/
def jsonObject (fields : List Bytes) : Bytes := 123 :: [44].intercalate fields ++ [125]

inductive JsonScalar where
  | number (n : Int)
  | text (s : Bytes)

def JsonScalar.json : JsonScalar → Bytes
  | .number n => intText n
  | .text s => jsonString s

def scalarField (f : Bytes × JsonScalar) : Bytes := jsonField f.1 f.2.json

/-! ## Reading -/

def hexValue (b : UInt8) : Option Nat :=
  if 48 ≤ b ∧ b ≤ 57 then some (b.toNat - 48)
  else if 97 ≤ b ∧ b ≤ 102 then some (b.toNat - 87)
  else if 65 ≤ b ∧ b ≤ 70 then some (b.toNat - 55)
  else none

/-- Hexadecimal digits after a first part with the value `n`. -/
def hexNumber : Nat → Bytes → Option Nat
  | n, [] => some n
  | n, b :: s => (hexValue b).bind fun d => hexNumber (n * 16 + d) s

/-- What is escaped by the text after a backslash, and what follows. -/
def readEscape : Bytes → Option (Bytes × Bytes)
  | [] => none
  | e :: s =>
    if e = 34 ∨ e = 92 ∨ e = 47 then some ([e], s)
    else if e = 98 then some ([8], s)
    else if e = 116 then some ([9], s)
    else if e = 110 then some ([10], s)
    else if e = 102 then some ([12], s)
    else if e = 114 then some ([13], s)
    else if e = 117 ∧ 4 ≤ s.length then
      ((hexNumber 0 (s.take 4)).filter fun n => n.isValidChar).map fun n =>
        (String.utf8EncodeChar (Char.ofNat n), s.drop 4)
    else none

/-- The rest of a string, up to `fuel` characters of it. -/
def readChars : (fuel : Nat) → Bytes → Option (Bytes × Bytes)
  | 0, _ => none
  | _, [] => none
  | fuel + 1, b :: s =>
    if b = 34 then some ([], s)
    else if b = 92 then
      (readEscape s).bind fun c => (readChars fuel c.2).map fun p => (c.1 ++ p.1, p.2)
    else if b < 32 then none
    else (readChars fuel s).map fun p => (b :: p.1, p.2)

def readString : Bytes → Option (Bytes × Bytes)
  | [] => none
  | b :: s => if b = 34 then readChars s.length s else none

def isDigit (b : UInt8) : Bool := 48 ≤ b && b ≤ 57

def readNat (s : Bytes) : Option (Nat × Bytes) :=
  if (s.takeWhile isDigit).isEmpty then none
  else some ((s.takeWhile isDigit).foldl (fun n b => n * 10 + (b.toNat - 48)) 0,
    s.dropWhile isDigit)

def readInt : Bytes → Option (Int × Bytes)
  | [] => none
  | b :: s =>
    if b = 45 then (readNat s).map fun p => (-(p.1 : Int), p.2)
    else (readNat (b :: s)).map fun p => ((p.1 : Int), p.2)

def readScalar : Bytes → Option (JsonScalar × Bytes)
  | [] => none
  | b :: s =>
    if b = 34 then (readString (b :: s)).map fun p => (.text p.1, p.2)
    else (readInt (b :: s)).map fun p => (.number p.1, p.2)

def readField (s : Bytes) : Option ((Bytes × JsonScalar) × Bytes) :=
  (readString s).bind fun name =>
    match name.2 with
    | [] => none
    | b :: s => if b = 58 then (readScalar s).map fun value =>
      ((name.1, value.1), value.2) else none

/-- The fields of an object and its closing brace, up to `fuel` fields. -/
def readFields : (fuel : Nat) → Bytes → Option (List (Bytes × JsonScalar) × Bytes)
  | 0, _ => none
  | fuel + 1, s =>
    (readField s).bind fun field =>
      match field.2 with
      | [] => none
      | b :: s =>
        if b = 44 then (readFields fuel s).map fun p => (field.1 :: p.1, p.2)
        else if b = 125 then some ([field.1], s)
        else none

/-- An object of one field or more, and nothing after it. -/
def readObject : Bytes → Option (List (Bytes × JsonScalar))
  | [] => none
  | b :: s =>
    if b = 123 then
      match readFields s.length s with
      | some (fields, []) => some fields
      | _ => none
    else none

/-! ## Strings -/

theorem hexValue_hexDigit : ∀ n < 16, hexValue (hexDigit n) = some n := by decide

theorem hexNumber_map (ds : List Nat) (hds : ∀ d ∈ ds, d < 16) (n : Nat) :
    hexNumber n (ds.map hexDigit) = some (ds.foldl (fun n d => n * 16 + d) n) := by
  induction ds generalizing n with
  | nil => rfl
  | cons d ds ih =>
      obtain ⟨hd, hds⟩ := List.forall_mem_cons.mp hds
      rw [List.map_cons, hexNumber, hexValue_hexDigit d hd]
      exact ih hds _

theorem utf8EncodeChar_control :
    ∀ n < 32, n.isValidChar ∧ String.utf8EncodeChar (Char.ofNat n) = [UInt8.ofNat n] := by
  decide

theorem readEscape_control {b : UInt8} (h : b < 32) (s : Bytes) :
    readEscape (117 :: 48 :: 48 :: hexDigit (b.toNat / 16) :: hexDigit (b.toNat % 16) :: s) =
      some ([b], s) := by
  have hb : b.toNat < 32 := h
  obtain ⟨hvalid, hchar⟩ := utf8EncodeChar_control b.toNat hb
  have hdigits : hexNumber 0 [48, 48, hexDigit (b.toNat / 16), hexDigit (b.toNat % 16)] =
      some b.toNat := by
    have hmap := hexNumber_map [0, 0, b.toNat / 16, b.toNat % 16] (by simp; omega) 0
    refine hmap.trans (congrArg some ?_)
    show ((0 * 16 + 0) * 16 + b.toNat / 16) * 16 + b.toNat % 16 = b.toNat
    omega
  have htake : (48 :: 48 :: hexDigit (b.toNat / 16) :: hexDigit (b.toNat % 16) :: s).take 4 =
      [48, 48, hexDigit (b.toNat / 16), hexDigit (b.toNat % 16)] := rfl
  simp only [readEscape]
  rw [htake, hdigits, Option.filter_some]
  simp [hvalid, hchar]

/-- The text of a byte is read back as that byte. -/
theorem readChars_escape (fuel : Nat) (b : UInt8) (s : Bytes) :
    readChars (fuel + 1) (jsonEscape b ++ s) = (readChars fuel s).map fun p => (b :: p.1, p.2) := by
  unfold jsonEscape
  split_ifs with h₁ h₂ h₃ h₄ h₅ h₆ h₇ h₈
  · simp [readChars, readEscape, h₁]
  · simp [readChars, readEscape, h₂]
  · simp [readChars, readEscape, h₃]
  · simp [readChars, readEscape, h₄]
  · simp [readChars, readEscape, h₅]
  · simp [readChars, readEscape, h₆]
  · simp [readChars, readEscape, h₇]
  · simp [readChars, readEscape_control h₈]
  · simp [readChars, h₁, h₂, h₈]

theorem readChars_string (s rest : Bytes) (fuel : Nat) (h : s.length < fuel) :
    readChars fuel (s.flatMap jsonEscape ++ 34 :: rest) = some (s, rest) := by
  induction s generalizing fuel with
  | nil =>
      obtain ⟨fuel, rfl⟩ := Nat.exists_eq_succ_of_ne_zero (Nat.ne_of_gt h)
      simp [readChars]
  | cons b s ih =>
      obtain ⟨fuel, rfl⟩ :=
        Nat.exists_eq_succ_of_ne_zero (Nat.ne_of_gt ((Nat.zero_le _).trans_lt h))
      rw [List.flatMap_cons, List.append_assoc, readChars_escape,
        ih fuel (Nat.lt_of_succ_lt_succ h)]
      rfl

theorem length_le_flatMap (s : Bytes) : s.length ≤ (s.flatMap jsonEscape).length := by
  induction s with
  | nil => exact le_rfl
  | cons b s ih =>
      have hb : 1 ≤ (jsonEscape b).length := by
        unfold jsonEscape
        split_ifs <;> simp
      rw [List.flatMap_cons, List.length_append, List.length_cons]
      omega

theorem readString_jsonString (s rest : Bytes) :
    readString (jsonString s ++ rest) = some (s, rest) := by
  have htext : jsonString s ++ rest = 34 :: (s.flatMap jsonEscape ++ 34 :: rest) := by
    simp [jsonString]
  have hfuel : s.length < (s.flatMap jsonEscape ++ 34 :: rest).length := by
    have hle := length_le_flatMap s
    rw [List.length_append, List.length_cons]
    omega
  rw [htext, readString, if_pos rfl, readChars_string s rest _ hfuel]

/-! ## Numbers -/

/-- Not the beginning of a text that goes on with a digit. -/
def Stops (rest : Bytes) : Prop := ∀ b ∈ rest.head?, isDigit b = false

theorem natText_of_lt {n : Nat} (h : n < 10) : natText n = [.ofNat (n + 48)] := by
  interval_cases n <;> decide

theorem natText_step {n : Nat} (h : 10 ≤ n) :
    natText n = natText (n / 10) ++ [.ofNat (n % 10 + 48)] := by
  have hdigits : Nat.toDigits 10 n = Nat.toDigits 10 (n / 10) ++ [Nat.digitChar (n % 10)] :=
    Nat.toDigits_of_base_le (by decide) h
  have hlast : UInt8.ofNat (Nat.digitChar (n % 10)).toNat = .ofNat (n % 10 + 48) := by
    have hlt : n % 10 < 10 := Nat.mod_lt _ (by decide)
    generalize n % 10 = d at hlt ⊢
    interval_cases d <;> rfl
  rw [natText, hdigits, List.map_append, List.map_singleton, hlast]
  rfl

theorem digit_byte {d : Nat} (h : d < 10) :
    isDigit (.ofNat (d + 48)) = true ∧ (UInt8.ofNat (d + 48)).toNat - 48 = d := by
  interval_cases d <;> decide

theorem natText_spec (n : Nat) : (∀ b ∈ natText n, isDigit b = true) ∧ natText n ≠ [] ∧
    (natText n).foldl (fun m b => m * 10 + (b.toNat - 48)) 0 = n := by
  induction n using Nat.strong_induction_on with
  | _ n ih =>
      by_cases hn : n < 10
      · rw [natText_of_lt hn]
        obtain ⟨hdigit, hvalue⟩ := digit_byte hn
        exact ⟨List.forall_mem_singleton.mpr hdigit, List.cons_ne_nil _ _, by simpa using hvalue⟩
      · obtain ⟨hall, -, hvalue⟩ := ih (n / 10) (by omega)
        obtain ⟨hdigit, hlast⟩ := digit_byte (Nat.mod_lt n (by decide : 0 < 10))
        rw [natText_step (by omega)]
        refine ⟨fun b hb => ?_, by simp, ?_⟩
        · rcases List.mem_append.mp hb with hb | hb
          · exact hall b hb
          · rw [List.mem_singleton.mp hb]
            exact hdigit
        · rw [List.foldl_append, hvalue, List.foldl_cons, List.foldl_nil, hlast]
          omega

theorem takeWhile_digits {s rest : Bytes} (hs : ∀ b ∈ s, isDigit b = true) (hrest : Stops rest) :
    (s ++ rest).takeWhile isDigit = s ∧ (s ++ rest).dropWhile isDigit = rest := by
  have hstop : rest.takeWhile isDigit = [] ∧ rest.dropWhile isDigit = rest := by
    cases rest with
    | nil => exact ⟨rfl, rfl⟩
    | cons b rest =>
        have hb : isDigit b = false := hrest b rfl
        exact ⟨List.takeWhile_cons_of_neg (by simp [hb]), List.dropWhile_cons_of_neg (by simp [hb])⟩
  rw [List.takeWhile_append_of_pos hs, List.dropWhile_append_of_pos hs, hstop.1, hstop.2,
    List.append_nil]
  exact ⟨rfl, rfl⟩

theorem readNat_natText (n : Nat) {rest : Bytes} (hrest : Stops rest) :
    readNat (natText n ++ rest) = some (n, rest) := by
  obtain ⟨hall, hne, hvalue⟩ := natText_spec n
  obtain ⟨htake, hdrop⟩ := takeWhile_digits hall hrest
  rw [readNat, htake, hdrop, if_neg (by simpa using hne), hvalue]

theorem natText_cons (n : Nat) : ∃ b s, natText n = b :: s ∧ isDigit b = true := by
  obtain ⟨hall, hne, -⟩ := natText_spec n
  obtain ⟨b, s, hs⟩ := List.exists_cons_of_ne_nil hne
  exact ⟨b, s, hs, hall b (hs ▸ List.mem_cons_self)⟩

theorem ne_of_isDigit {b c : UInt8} (h : isDigit b = true) (hc : isDigit c = false) : b ≠ c := by
  rintro rfl
  rw [h] at hc
  cases hc

theorem readInt_intText (n : Int) {rest : Bytes} (hrest : Stops rest) :
    readInt (intText n ++ rest) = some (n, rest) := by
  cases n with
  | ofNat n =>
      obtain ⟨b, s, hs, hb⟩ := natText_cons n
      have hread := readNat_natText n hrest
      rw [intText]
      rw [hs, List.cons_append] at hread ⊢
      rw [readInt, if_neg (ne_of_isDigit hb rfl), hread]
      rfl
  | negSucc n =>
      rw [intText, List.cons_append, readInt, if_pos rfl, readNat_natText (n + 1) hrest]
      rfl

/-! ## Objects -/

theorem readScalar_json (v : JsonScalar) {rest : Bytes} (hrest : Stops rest) :
    readScalar (v.json ++ rest) = some (v, rest) := by
  cases v with
  | text s =>
      have hread := readString_jsonString s rest
      rw [JsonScalar.json]
      have hcons : jsonString s ++ rest = 34 :: (s.flatMap jsonEscape ++ [34] ++ rest) := by
        simp [jsonString]
      rw [hcons] at hread ⊢
      rw [readScalar, if_pos rfl, hread]
      rfl
  | number n =>
      have hread := readInt_intText n hrest
      have hfirst : ∃ b s, intText n = b :: s ∧ b ≠ 34 := by
        cases n with
        | ofNat n =>
            obtain ⟨b, s, hs, hb⟩ := natText_cons n
            exact ⟨b, s, hs, ne_of_isDigit hb rfl⟩
        | negSucc n => exact ⟨45, natText (n + 1), rfl, by decide⟩
      obtain ⟨b, s, hs, hb⟩ := hfirst
      rw [JsonScalar.json]
      rw [hs, List.cons_append] at hread ⊢
      rw [readScalar, if_neg hb, hread]
      rfl

theorem readField_scalarField (f : Bytes × JsonScalar) {rest : Bytes} (hrest : Stops rest) :
    readField (scalarField f ++ rest) = some (f, rest) := by
  rw [scalarField, jsonField, List.append_assoc, List.cons_append, readField, readString_jsonString,
    Option.bind_some]
  show (if (58 : UInt8) = 58 then _ else _) = _
  rw [if_pos rfl, readScalar_json f.2 hrest]
  rfl

theorem readFields_intercalate (fields : List (Bytes × JsonScalar)) (hne : fields ≠ [])
    (rest : Bytes) (fuel : Nat) (hfuel : fields.length ≤ fuel) :
    readFields fuel ([44].intercalate (fields.map scalarField) ++ 125 :: rest) =
      some (fields, rest) := by
  induction fields generalizing fuel with
  | nil => exact absurd rfl hne
  | cons f fields ih =>
      obtain ⟨fuel, rfl⟩ :=
        Nat.exists_eq_succ_of_ne_zero (Nat.ne_of_gt ((Nat.zero_lt_succ _).trans_le hfuel))
      cases fields with
      | nil =>
          have hstops : Stops (125 :: rest) := fun b hb => by cases hb; rfl
          have hread := readField_scalarField f hstops
          simp only [List.map_cons, List.map_nil, List.intercalate_singleton, readFields, hread,
            Option.bind_some]
          rfl
      | cons g fields =>
          have hstops :
              Stops (44 :: ([44].intercalate ((g :: fields).map scalarField) ++ 125 :: rest)) :=
            fun b hb => by cases hb; rfl
          have hread := readField_scalarField f hstops
          have hsplit : [44].intercalate ((f :: g :: fields).map scalarField) ++ 125 :: rest =
              scalarField f ++
                44 :: ([44].intercalate ((g :: fields).map scalarField) ++ 125 :: rest) := by
            simp [List.intercalate]
          rw [hsplit, readFields, hread, Option.bind_some]
          show (if (44 : UInt8) = 44 then _ else _) = _
          rw [if_pos rfl, ih (List.cons_ne_nil _ _) fuel (Nat.le_of_succ_le_succ hfuel)]
          rfl

theorem length_le_intercalate (fields : List (Bytes × JsonScalar)) :
    fields.length ≤ ([44].intercalate (fields.map scalarField)).length := by
  have hpos : ∀ f : Bytes × JsonScalar, 1 ≤ (scalarField f).length := by
    intro f
    simp [scalarField, jsonField, jsonString]
  induction fields with
  | nil => exact Nat.zero_le _
  | cons f fields ih =>
      cases fields with
      | nil => simpa using hpos f
      | cons g fields =>
          have hf := hpos f
          simp only [List.map_cons, List.intercalate_cons_cons, List.length_append,
            List.length_cons] at ih ⊢
          omega

/-- **An object is read back from its text.** -/
theorem readObject_jsonObject (fields : List (Bytes × JsonScalar)) (hne : fields ≠ []) :
    readObject (jsonObject (fields.map scalarField)) = some fields := by
  have hfuel : fields.length ≤
      ([44].intercalate (fields.map scalarField) ++ [125]).length := by
    rw [List.length_append]
    exact (length_le_intercalate fields).trans (Nat.le_add_right _ _)
  rw [jsonObject, List.cons_append, readObject, if_pos rfl,
    readFields_intercalate fields hne [] _ hfuel]

end AppHome
