import AppHome.Lib.Reader
import AppHome.Shared.Values

/-!
# IP addresses and their text form

`parseIp` is `str::parse::<IpAddr>`: the standard library's reader for dotted IPv4 addresses and for
IPv6 addresses with their `::` and their trailing IPv4 part. `parseIp_ipChar` says which bytes an
accepted text can have: no comma, no blank, nothing outside visible ASCII.
-/

namespace AppHome

inductive IpAddr where
  | v4 (bits : BitVec 32)
  | v6 (bits : BitVec 128)
  deriving DecidableEq

/-- `to_digit`. -/
def toDigit (radix : Nat) (b : UInt8) : Option Nat :=
  if 48 ≤ b ∧ b ≤ 57 ∧ b.toNat - 48 < radix then some (b.toNat - 48)
  else if 97 ≤ b ∧ b ≤ 122 ∧ b.toNat - 87 < radix then some (b.toNat - 87)
  else if 65 ≤ b ∧ b ≤ 90 ∧ b.toNat - 55 < radix then some (b.toNat - 55)
  else none

/-- The digit loop of `read_number`, with the value and the number of digits so far. -/
def readDigits (radix maxDigits : Nat) (result count : Nat) : Reader UInt8 (Nat × Nat)
  | [] => some ((result, count), [])
  | b :: s =>
    match toDigit radix b with
    | none => some ((result, count), b :: s)
    | some digit =>
      if count + 1 > maxDigits then none
      else readDigits radix maxDigits (result * radix + digit) (count + 1) s

/-- `read_number`, for a type of the values below `bound`. -/
def readNumber (radix maxDigits : Nat) (allowZeroStart : Bool) (bound : Nat) : Reader UInt8 Nat :=
  fun s =>
  match readDigits radix maxDigits 0 0 s with
  | none => none
  | some ((result, count), rest) =>
    if count = 0 then none
    else if !allowZeroStart && s.head? = some 48 && count > 1 then none
    else if result < bound then some (result, rest)
    else none

/-- `read_separator`: the separator comes before every item but the first. -/
def readSeparated {α : Type} (sep : UInt8) (index : Nat) (inner : Reader UInt8 α) :
    Reader UInt8 α :=
  if index > 0 then Reader.given sep >>= fun _ => inner else inner

/-- The value of a sequence of digits in base `base`. -/
def ofDigits (base : Nat) (digits : List Nat) : Nat := digits.foldl (fun acc d => acc * base + d) 0

def readOctet : Reader UInt8 Nat := readNumber 10 3 false 256

def readIpv4Addr : Reader UInt8 (BitVec 32) := do
  let a ← readSeparated 46 0 readOctet
  let b ← readSeparated 46 1 readOctet
  let c ← readSeparated 46 2 readOctet
  let d ← readSeparated 46 3 readOctet
  return BitVec.ofNat 32 (ofDigits 256 [a, b, c, d])

/-- `read_groups`: up to `n` more groups after those read, and whether a trailing IPv4 address was
one of them. It never fails. -/
def readGroups (groups : List Nat) : Nat → Bytes → (List Nat × Bool) × Bytes
  | 0, s => ((groups, false), s)
  | n + 1, s =>
    match if n = 0 then none else readSeparated 58 groups.length readIpv4Addr s with
    | some (v4, rest) => ((groups ++ [v4.toNat / 65536, v4.toNat % 65536], true), rest)
    | none =>
      match readSeparated 58 groups.length (readNumber 16 4 true 65536) s with
      | some (group, rest) => readGroups (groups ++ [group]) n rest
      | none => ((groups, false), s)

/-- The part after `::`, which stands for at least one group. -/
def readIpv6Tail (head : List Nat) : Reader UInt8 (BitVec 128) := fun s =>
  let ((tail, _), rest) := readGroups [] (7 - head.length) s
  some (BitVec.ofNat 128
    (ofDigits 65536 (head ++ List.replicate (8 - head.length - tail.length) 0 ++ tail)), rest)

def readIpv6Addr : Reader UInt8 (BitVec 128) := fun s =>
  let ((head, headIpv4), rest) := readGroups [] 8 s
  if head.length = 8 then some (BitVec.ofNat 128 (ofDigits 65536 head), rest)
  else if headIpv4 then none
  else (Reader.given 58 >>= fun _ => Reader.given 58 >>= fun _ => readIpv6Tail head) rest

def readIpAddr : Reader UInt8 IpAddr :=
  Reader.orElse (readIpv4Addr >>= fun bits => pure (.v4 bits))
    (readIpv6Addr >>= fun bits => pure (.v6 bits))

/-- `parse::<IpAddr>()`. -/
def parseIp (s : Bytes) : Option IpAddr := Reader.whole readIpAddr s

/-- "203.0.113.9", and the text form of a mapped address with its `::`. -/
example : parseIp [50, 48, 51, 46, 48, 46, 49, 49, 51, 46, 57] = some (.v4 0xCB007109) ∧
    parseIp [58, 58, 102, 70, 102, 102, 58, 49, 46, 50, 46, 51, 46, 52] =
      some (.v6 0xFFFF01020304) ∧
    parseIp [49, 46, 50, 46, 51, 46, 48, 52] = none := by
  refine ⟨rfl, rfl, rfl⟩

/-! ## What an accepted text looks like -/

/-- A hexadecimal digit, a dot or a colon. -/
def IpChar (b : UInt8) : Prop :=
  (48 ≤ b ∧ b ≤ 57) ∨ (97 ≤ b ∧ b ≤ 102) ∨ (65 ≤ b ∧ b ≤ 70) ∨ b = 46 ∨ b = 58

theorem toDigit_ipChar {radix digit : Nat} (hr : radix ≤ 16) {b : UInt8}
    (h : toDigit radix b = some digit) :
    IpChar b := by
  unfold toDigit at h
  unfold IpChar
  simp only [UInt8.le_iff_toNat_le, UInt8.reduceToNat] at h ⊢
  split_ifs at h with h0 h1 h2
  · exact Or.inl ⟨h0.1, h0.2.1⟩
  · exact Or.inr (Or.inl ⟨h1.1, by omega⟩)
  · exact Or.inr (Or.inr (Or.inl ⟨h2.1, by omega⟩))

open Reader

theorem over_readDigits {radix maxDigits : Nat} (hr : radix ≤ 16) (result count : Nat) :
    Over IpChar (readDigits radix maxDigits result count) := by
  intro s
  induction s generalizing result count with
  | nil =>
      intro a rest h
      cases h
      exact .refl []
  | cons b s ih =>
      intro a rest h
      unfold readDigits at h
      split at h
      · cases h
        exact .refl _
      · next digit hd =>
          split_ifs at h
          exact .cons (toDigit_ipChar hr hd) (ih _ _ a rest h)

theorem over_readNumber {radix maxDigits bound : Nat} (hr : radix ≤ 16) (allowZeroStart : Bool) :
    Over IpChar (readNumber radix maxDigits allowZeroStart bound) := by
  intro s a rest h
  unfold readNumber at h
  split at h
  · cases h
  · next result count rest' hd =>
      split_ifs at h
      cases h
      exact over_readDigits hr 0 0 s _ _ hd

theorem over_readSeparated {α : Type} {sep : UInt8} {inner : Reader UInt8 α} (hsep : IpChar sep)
    (hi : Over IpChar inner) (index : Nat) : Over IpChar (readSeparated sep index inner) := by
  unfold readSeparated
  split_ifs
  · exact (over_given hsep).bind fun _ => hi
  · exact hi

theorem over_readIpv4Addr : Over IpChar readIpv4Addr := by
  have hoctet : ∀ index, Over IpChar (readSeparated 46 index readOctet) :=
    over_readSeparated (by unfold IpChar; decide) (over_readNumber (by decide) false)
  exact (hoctet 0).bind fun a => (hoctet 1).bind fun b => (hoctet 2).bind fun c =>
    (hoctet 3).bind fun d =>
    over_pure _

theorem readGroups_taken (groups : List Nat) (n : Nat) (s : Bytes) :
    Taken IpChar s (readGroups groups n s).2 := by
  have hcolon : IpChar 58 := by
    unfold IpChar
    decide
  induction n generalizing groups s with
  | zero => exact .refl s
  | succ n ih =>
      unfold readGroups
      split
      · next v4 rest hv4 =>
          split_ifs at hv4
          exact over_readSeparated hcolon over_readIpv4Addr _ s v4 rest hv4
      · split
        · next group rest hgroup =>
            exact (over_readSeparated hcolon
              (over_readNumber (by decide) true) _ s group rest hgroup).trans
              (ih _ rest)
        · exact .refl s

theorem over_readIpv6Addr : Over IpChar readIpv6Addr := by
  have hcolon : IpChar 58 := by
    unfold IpChar
    decide
  have htail : ∀ head, Over IpChar (readIpv6Tail head) := by
    intro head s a rest h
    cases h
    exact readGroups_taken ..
  intro s a rest h
  have hhead := readGroups_taken [] 8 s
  simp only [readIpv6Addr] at h
  split_ifs at h
  · cases h
    exact hhead
  · refine hhead.trans (Over.bind (over_given hcolon) (fun _ => ?_) _ a rest h)
    exact (over_given hcolon).bind fun _ => htail _

theorem parseIp_ipChar {s : Bytes} {ip : IpAddr} (h : parseIp s = some ip) : ∀ b ∈ s, IpChar b := by
  refine Over.whole (Over.orElse ?_ ?_) h
  · exact over_readIpv4Addr.bind fun _ => over_pure _
  · exact over_readIpv6Addr.bind fun _ => over_pure _

end AppHome
