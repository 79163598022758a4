import Mathlib

/-!
# `{:?}` and `{:#?}`

The builders of `core::fmt` that a `Debug` implementation writes with, over texts as lists of
characters. A value is given as its own text, written in the same mode.

* `quoted` : a text between quotes, with the characters that have to be escaped. Which characters
  are printable is a matter of the Unicode tables, which are a parameter;
* `entries`, `debugStruct`, `debugTuple`, `debugList` : the builders, on one line or (`alternate`)
  with a line for each entry, indented by `pad`;
* `Apart` : two texts that are told apart whatever follows them, like any two quoted texts
  (`quoted_apart`). The indentation keeps them so (`Apart.of_pad`), and the entries can be read off
  the whole (`entries_append_inj`, `debugStruct_inj`).
-/

namespace DebugFmt

/-! ## Quoted texts -/

/-- The tables behind `is_grapheme_extended` and `is_printable`. -/
structure CharTables where
  graphemeExtended : Char → Bool
  printable : Char → Bool

def lowerHex (n : Nat) : List Char := Nat.toDigits 16 n

/-- The characters that have an escape of one letter. -/
def letterEscape : Char → Option Char
  | '\x00' => some '0'
  | '\t' => some 't'
  | '\r' => some 'r'
  | '\n' => some 'n'
  | '\\' => some '\\'
  | '"' => some '"'
  | _ => none

def unicodeEscape (c : Char) : List Char := '\\' :: 'u' :: '{' :: (lowerHex c.toNat ++ ['}'])

/-- `char::escape_debug_ext`, with the arguments that `str` calls it with. -/
def escape (tables : CharTables) (c : Char) : List Char :=
  match letterEscape c with
  | some e => ['\\', e]
  | none => if tables.graphemeExtended c || !tables.printable c then unicodeEscape c else [c]

def quoted (tables : CharTables) (s : List Char) : List Char :=
  '"' :: (s.flatMap (escape tables) ++ ['"'])

/-! ## Builders -/

/-- `PadAdapter`: four blanks at the beginning of each line. -/
def pad : Bool → List Char → List Char
  | _, [] => []
  | onNewline, c :: cs => (if onNewline then "    ".toList else []) ++ c :: pad (c == '\n') cs

/-- An entry on lines of its own. -/
def entryLines (entry : List Char) : List Char := pad true (entry ++ ",\n".toList)

def entries (alternate : Bool) : List (List Char) → List Char
  | [] => []
  | v :: vs =>
    if alternate then '\n' :: (v :: vs).flatMap entryLines
    else v ++ vs.flatMap fun w => ", ".toList ++ w

/-- A field with its name. -/
def fieldText (field : String × List Char) : List Char := field.1.toList ++ ": ".toList ++ field.2

/-- `DebugStruct`. -/
def debugStruct (alternate : Bool) (name : List Char) (fields : List (String × List Char)) :
    List Char :=
  if fields.isEmpty then name
  else if alternate then name ++ " \x7b".toList ++ entries alternate
    (fields.map fieldText) ++ "\x7d".toList
  else name ++ " \x7b ".toList ++ entries alternate (fields.map fieldText) ++ " \x7d".toList

/-- `DebugTuple`, for a variant with a name. -/
def debugTuple (alternate : Bool) (name : List Char) (fields : List (List Char)) : List Char :=
  if fields.isEmpty then name else name ++ "(".toList ++ entries alternate fields ++ ")".toList

/-- `DebugList`. -/
def debugList (alternate : Bool) (items : List (List Char)) : List Char :=
  "[".toList ++ entries alternate items ++ "]".toList

/-- The derived `Debug` of `Option`. -/
def debugOption (alternate : Bool) : Option (List Char) → List Char
  | none => "None".toList
  | some value => debugTuple alternate "Some".toList [value]

/-! ## Texts that are told apart -/

/-- The two texts are told apart whatever follows them. -/
def Apart (v w : List Char) : Prop := ∀ x y, v ++ x = w ++ y → v = w

theorem Apart.refl (v : List Char) : Apart v v := fun _ _ _ => rfl

theorem Apart.append_left {v w : List Char} (h : Apart v w) (u : List Char) :
    Apart (u ++ v) (u ++ w) := by
  intro x y heq
  rw [List.append_assoc, List.append_assoc] at heq
  rw [h x y (List.append_cancel_left heq)]

theorem Apart.append_right {v w : List Char} (h : Apart v w) (u : List Char) :
    Apart (v ++ u) (w ++ u) := by
  intro x y heq
  rw [List.append_assoc, List.append_assoc] at heq
  rw [h _ _ heq]

theorem pad_prefix {onNewline : Bool} {v w x y : List Char}
    (h : pad onNewline v ++ x = pad onNewline w ++ y) :
    v <+: w ∨ w <+: v := by
  induction v generalizing onNewline w with
  | nil => exact .inl List.nil_prefix
  | cons c v ih =>
      cases w with
      | nil => exact .inr List.nil_prefix
      | cons d w =>
          simp only [pad, List.append_assoc, List.append_cancel_left_eq, List.cons_append,
            List.cons.injEq] at h
          obtain ⟨rfl, htail⟩ := h
          simpa only [List.prefix_cons_inj] using ih htail

theorem Apart.of_pad {onNewline : Bool} {v w x y : List Char} (h : Apart v w)
    (heq : pad onNewline v ++ x = pad onNewline w ++ y) : v = w := by
  obtain ⟨z, hz⟩ | ⟨z, hz⟩ := pad_prefix heq
  · exact h z [] (by rw [hz, List.append_nil])
  · exact h [] z (by rw [hz, List.append_nil])

/-- Entries of one text, each in the form `g`, when `g` tells them apart. -/
theorem flatMap_append_inj {g : List Char → List Char} {vs ws : List (List Char)} {x y : List Char}
    (h : List.Forall₂ (fun v w => ∀ x y, g v ++ x = g w ++ y → v = w) vs ws)
    (heq : vs.flatMap g ++ x = ws.flatMap g ++ y) : vs = ws := by
  induction h with
  | nil => rfl
  | cons hvw _ ih =>
      rw [List.flatMap_cons, List.flatMap_cons, List.append_assoc, List.append_assoc] at heq
      obtain rfl := hvw _ _ heq
      rw [ih (List.append_cancel_left heq)]

theorem entries_append_inj {alternate : Bool} {vs ws : List (List Char)} {x y : List Char}
    (h : List.Forall₂ Apart vs ws) (heq : entries alternate vs ++ x = entries alternate ws ++ y) :
    vs = ws := by
  cases h with
  | nil => rfl
  | @cons v w vs ws hvw hrest =>
      cases alternate with
      | true =>
          have hlines : ∀ v w, Apart v w →
              ∀ x y, entryLines v ++ x = entryLines w ++ y → v = w := by
            intro v w hvw x y hxy
            exact List.append_cancel_right ((hvw.append_right _).of_pad hxy)
          exact flatMap_append_inj ((List.Forall₂.cons hvw hrest).imp hlines) (List.cons.inj heq).2
      | false =>
          have hcomma : ∀ v w, Apart v w →
              ∀ x y, (", ".toList ++ v) ++ x = (", ".toList ++ w) ++ y → v = w := by
            intro v w hvw x y hxy
            exact List.append_cancel_left ((hvw.append_left _) x y hxy)
          simp only [entries, Bool.false_eq_true, if_false, List.append_assoc] at heq
          obtain rfl := hvw _ _ heq
          rw [flatMap_append_inj (hrest.imp hcomma) (List.append_cancel_left heq)]

/-! ## Reading a quoted text -/

/-- The character that a letter after a backslash stands for. -/
def letterMeaning : Char → Char
  | '0' => '\x00'
  | 't' => '\t'
  | 'r' => '\r'
  | 'n' => '\n'
  | e => e

theorem letterMeaning_of_letterEscape {c e : Char} (h : letterEscape c = some e) :
    letterMeaning e = c ∧ e ≠ 'u' := by
  unfold letterEscape at h
  split at h <;> cases h <;> exact ⟨rfl, by decide⟩

theorem escape_cases (tables : CharTables) (c : Char) :
    (∃ e, letterEscape c = some e ∧ escape tables c = ['\\', e]) ∨
      escape tables c = unicodeEscape c ∨ (c ≠ '\\' ∧ c ≠ '"' ∧ escape tables c = [c]) := by
  unfold escape
  cases h : letterEscape c with
  | some e => exact .inl ⟨e, rfl, rfl⟩
  | none =>
      refine .inr ?_
      dsimp only
      split_ifs
      · exact .inl rfl
      · refine .inr ⟨?_, ?_, rfl⟩
        · rintro rfl
          exact nomatch h
        · rintro rfl
          exact nomatch h

/-- The value of a digit that `lowerHex` writes. -/
def hexValue (c : Char) : Nat := if c ≤ '9' then c.toNat - 48 else c.toNat - 87

theorem hexValue_digitChar {d : Nat} (h : d < 16) : hexValue (Nat.digitChar d) = d := by
  interval_cases d <;> rfl

theorem lowerHex_rec {motive : Nat → Prop} (digit : ∀ d, d < 16 → motive d)
    (more : ∀ n d, 0 < n → d < 16 → motive n → motive (16 * n + d)) (n : Nat) : motive n := by
  induction n using Nat.strongRecOn with
  | ind n ih =>
      by_cases h : n < 16
      · exact digit n h
      · have hn := more (n / 16) (n % 16) (by omega) (by omega) (ih (n / 16) (by omega))
        rwa [Nat.div_add_mod] at hn

theorem lowerHex_more {n d : Nat} (hn : 0 < n) (hd : d < 16) :
    lowerHex (16 * n + d) = lowerHex n ++ [Nat.digitChar d] := by
  rw [lowerHex, ← Nat.toDigits_append_toDigits (by decide) hn hd, Nat.toDigits_of_lt_base hd]
  rfl

theorem value_lowerHex (n : Nat) :
    (lowerHex n).foldl (fun acc c => 16 * acc + hexValue c) 0 = n := by
  induction n using lowerHex_rec with
  | digit d hd =>
      rw [lowerHex, Nat.toDigits_of_lt_base hd]
      simp [hexValue_digitChar hd]
  | more n d hn hd ih =>
      rw [lowerHex_more hn hd, List.foldl_append, ih]
      simp [hexValue_digitChar hd]

theorem brace_not_mem_lowerHex (n : Nat) : '}' ∉ lowerHex n := by
  have hdigit : ∀ d, d < 16 → '}' ≠ Nat.digitChar d := by decide
  induction n using lowerHex_rec with
  | digit d hd =>
      rw [lowerHex, Nat.toDigits_of_lt_base hd, List.mem_singleton]
      exact hdigit d hd
  | more n d hn hd ih =>
      rw [lowerHex_more hn hd, List.mem_append, List.mem_singleton]
      exact not_or.mpr ⟨ih, hdigit d hd⟩

/-- The character that the first escape of a text stands for. -/
def meaning : List Char → Char
  | '\\' :: 'u' :: cs =>
    Char.ofNat ((cs.tail.takeWhile (· ≠ '}')).foldl (fun acc c => 16 * acc + hexValue c) 0)
  | '\\' :: e :: _ => letterMeaning e
  | c :: _ => c
  | [] => '\\'

theorem meaning_unicodeEscape (c : Char) (x : List Char) : meaning (unicodeEscape c ++ x) = c := by
  have hbrace : ∀ d ∈ lowerHex c.toNat, decide (d ≠ '}') = true := by
    intro d hd
    refine decide_eq_true fun heq => brace_not_mem_lowerHex c.toNat ?_
    rwa [← heq]
  show Char.ofNat ((((lowerHex c.toNat ++ ['}']) ++ x).takeWhile (· ≠ '}')).foldl _ 0) = c
  rw [List.append_assoc, List.takeWhile_append_of_pos hbrace]
  simp [value_lowerHex]

theorem meaning_escape (tables : CharTables) (c : Char) (x : List Char) :
    meaning (escape tables c ++ x) = c := by
  obtain ⟨e, hc, hescape⟩ | hescape | ⟨hc, -, hescape⟩ := escape_cases tables c
  · obtain ⟨hmeaning, hu⟩ := letterMeaning_of_letterEscape hc
    rw [hescape, ← hmeaning]
    show meaning ('\\' :: e :: x) = letterMeaning e
    rw [meaning]
    exact hu
  · rw [hescape, meaning_unicodeEscape]
  · rw [hescape]
    show meaning (c :: x) = c
    rw [meaning]
    · exact fun _ h _ => hc h
    · exact fun _ _ h _ => hc h

/-- No escape begins with the quote that ends a text. -/
theorem escape_append_ne_quote (tables : CharTables) (c : Char) (x y : List Char) :
    escape tables c ++ x ≠ '"' :: y := by
  obtain ⟨e, -, hescape⟩ | hescape | ⟨-, hc, hescape⟩ := escape_cases tables c
  · rw [hescape]
    exact fun h => absurd (List.cons.inj h).1 (by decide)
  · rw [hescape]
    exact fun h => absurd (List.cons.inj h).1 (by decide)
  · rw [hescape]
    exact fun h => hc (List.cons.inj h).1

/-- The closing quote is the first character that begins no escape, so the text ends there. -/
theorem escaped_append_inj {tables : CharTables} {s t x y : List Char}
    (h : s.flatMap (escape tables) ++ '"' :: x = t.flatMap (escape tables) ++ '"' :: y) :
    s = t := by
  induction s generalizing t with
  | nil =>
      cases t with
      | nil => rfl
      | cons d t =>
          rw [List.flatMap_cons, List.append_assoc] at h
          exact absurd h.symm (escape_append_ne_quote tables d _ x)
  | cons c s ih =>
      cases t with
      | nil =>
          rw [List.flatMap_cons, List.append_assoc] at h
          exact absurd h (escape_append_ne_quote tables c _ y)
      | cons d t =>
          rw [List.flatMap_cons, List.append_assoc, List.flatMap_cons, List.append_assoc] at h
          obtain rfl : c = d := by rw [← meaning_escape tables c, h, meaning_escape]
          rw [ih (List.append_cancel_left h)]

/-- **Quoted texts are told apart** whatever follows them. -/
theorem quoted_append_inj {tables : CharTables} {s t x y : List Char}
    (h : quoted tables s ++ x = quoted tables t ++ y) : s = t := by
  simp only [quoted, List.cons_append, List.append_assoc, List.cons.injEq, true_and] at h
  exact escaped_append_inj h

theorem quoted_injective (tables : CharTables) : Function.Injective (quoted tables) := by
  intro s t h
  exact quoted_append_inj (congrArg (· ++ []) h)

theorem quoted_apart (tables : CharTables) (s t : List Char) :
    Apart (quoted tables s) (quoted tables t) := by
  intro x y h
  rw [quoted_append_inj h]

theorem debugOption_append_inj {tables : CharTables} {alternate : Bool} {o p : Option (List Char)}
    {x y : List Char}
    (h : debugOption alternate (o.map (quoted tables)) ++ x =
      debugOption alternate (p.map (quoted tables)) ++ y) :
    o = p := by
  cases o with
  | none =>
      cases p with
      | none => rfl
      | some t => exact absurd (List.cons.inj h).1 (by decide)
  | some s =>
      cases p with
      | none => exact absurd (List.cons.inj h).1 (by decide)
      | some t =>
          simp only [debugOption, debugTuple, Option.map_some, List.isEmpty_cons,
            Bool.false_eq_true, if_false, List.append_assoc, List.append_cancel_left_eq] at h
          have hentries := entries_append_inj (.cons (quoted_apart tables s t) .nil) h
          rw [quoted_injective tables (List.cons.inj hentries).1]

theorem fieldTexts_inj {alternate : Bool} {fields fields' : List (String × List Char)}
    (hfields : List.Forall₂ (fun p q => p.1 = q.1 ∧ Apart p.2 q.2) fields fields')
    (h : entries alternate (fields.map fieldText) = entries alternate (fields'.map fieldText)) :
    fields = fields' := by
  have hapart : List.Forall₂ Apart (fields.map fieldText) (fields'.map fieldText) := by
    rw [List.forall₂_map_left_iff, List.forall₂_map_right_iff]
    refine hfields.imp fun p q hpq => ?_
    rw [fieldText, fieldText, hpq.1]
    exact hpq.2.append_left _
  have htexts : fields.map fieldText = fields'.map fieldText :=
    entries_append_inj hapart (congrArg (· ++ []) h)
  clear h hapart
  induction hfields with
  | nil => rfl
  | @cons p q ps qs hpq _ ih =>
      obtain ⟨hhead, htail⟩ := List.cons.inj htexts
      rw [fieldText, fieldText, hpq.1] at hhead
      rw [ih htail, Prod.ext hpq.1 (List.append_cancel_left hhead)]

/-- **The fields of a struct can be read off its text** if each is told apart from the one it is
compared with. -/
theorem debugStruct_inj {alternate : Bool} {name : List Char}
    {fields fields' : List (String × List Char)}
    (hfields : List.Forall₂ (fun p q => p.1 = q.1 ∧ Apart p.2 q.2) fields fields')
    (h : debugStruct alternate name fields = debugStruct alternate name fields') :
    fields = fields' := by
  have hempty : fields.isEmpty = fields'.isEmpty := by cases hfields <;> rfl
  unfold debugStruct at h
  rw [hempty] at h
  split_ifs at h with hnil
  · rw [List.isEmpty_iff.mp hnil, List.isEmpty_iff.mp (hempty.trans hnil)]
  · exact fieldTexts_inj hfields (List.append_cancel_left (List.append_cancel_right h))
  · exact fieldTexts_inj hfields (List.append_cancel_left (List.append_cancel_right h))

end DebugFmt
