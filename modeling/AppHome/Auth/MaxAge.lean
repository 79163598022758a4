import AppHome.Auth.Jwks
import AppHome.Lib.Decimal
import AppHome.Shared.Http
import AppHome.Shared.Text

/-!
# The lifetime of a fetched key set

`fetch_jwks_from_google` reads the lifetime of a key set from the `Cache-Control` header of the
response, as a `u64` of seconds, and `get_or_fetch` adds it to the clock, whose seconds are an
`i64`.

* `parseMaxAge`, `fetchJwksFromGoogle` : from the header lines to what the fetch returns;
* `IsMaxAge`, `Lifetime` : what a directive says, and the lifetime that the header lines ask for
  (`ttl_secs_iff`);
* `stored_iff` : when a key set with that lifetime can be stored.
-/

namespace AppHome.Jwks

open Interleave

/-! ## The header -/

/-- `str::split_once`. -/
def splitOnce (sep : Char) (s : String) : Option (String × String) :=
  match s.toList.dropWhile (· ≠ sep) with
  | [] => none
  | _ :: value => some (String.ofList (s.toList.takeWhile (· ≠ sep)), String.ofList value)

/-- `str::parse::<u64>`. -/
def parseU64 (s : String) : Option UInt64 :=
  (Decimal.unsigned (2 ^ 64 - 1) s.toList).map UInt64.ofNat

/-- What one directive says of the lifetime. -/
def directiveMaxAge (directive : String) : Option Duration :=
  (splitOnce '=' (Text.trim directive)).bind fun (name, value) =>
    if Text.eqIgnoreAsciiCase name "max-age" then
      (parseU64 (Text.trim value)).map Duration.fromSecs else none

/-- The parts of a text between its commas. -/
def directives (cacheControl : String) : List String :=
  (cacheControl.toList.splitOn ',').map String.ofList

def parseMaxAge (cacheControl : String) : Option Duration :=
  (directives cacheControl).findSome? directiveMaxAge

def defaultJwksTtl : Duration := .fromSecs 3600

def cacheControl : HeaderName := .other "cache-control"

/-- A value that `to_str` has accepted, as a text. -/
def asciiText (value : Bytes) : String := String.ofList (value.map fun b => Char.ofNat b.toNat)

def jwksTtl (headers : HeaderMap) : Duration :=
  (((headers.get cacheControl).bind toStr).bind fun value => parseMaxAge (asciiText value)).getD
    defaultJwksTtl

/-- An answer of the certs endpoint: its header lines, and the key set its body is read as. -/
structure Response (K : Type) where
  headers : HeaderMap
  json : Option K

/-- A request that fails or times out has no response. -/
def fetchJwksFromGoogle {K : Type} (response : Option (Response K)) : Fetched K :=
  match response with
  | none => .error .tokenVerificationFailed
  | some response =>
    match response.json with
    | none => .error .tokenVerificationFailed
    | some jwks => .ok (jwks, jwksTtl response.headers)

/-! ## What the header asks for -/

/-- The directive reads `max-age=secs`: in any case, with blanks around it and around the number,
which is one of `u64`. -/
def IsMaxAge (directive : String) (secs : Nat) : Prop :=
  ∃ name value, Text.trim directive = name ++ "=" ++ value ∧ '=' ∉ name.toList ∧
    Text.eqIgnoreAsciiCase name "max-age" = true ∧
    Decimal.unsigned (2 ^ 64 - 1) (Text.trim value).toList = some secs

/-- The lifetime that the header lines ask for: that of the first directive that has one, and an
hour if there is none. -/
inductive Lifetime (headers : HeaderMap) : Nat → Prop
  | maxAge {value : Bytes} {before after : List String} {directive : String} {secs : Nat}
      (hvalue : (headers.get cacheControl).bind toStr = some value)
      (hsplit : directives (asciiText value) = before ++ directive :: after)
      (hsecs : IsMaxAge directive secs)
      (hfirst : ∀ d ∈ before, ∀ n, ¬ IsMaxAge d n) : Lifetime headers secs
  | default (hnone : ∀ value, (headers.get cacheControl).bind toStr = some value →
      ∀ d ∈ directives (asciiText value), ∀ n, ¬ IsMaxAge d n) : Lifetime headers 3600

theorem splitOnce_eq_some_iff {sep : Char} {s name value : String} :
    splitOnce sep s = some (name, value) ↔ s.toList = name.toList ++ sep :: value.toList ∧
    sep ∉ name.toList := by
  have hparts := List.takeWhile_append_dropWhile (p := (· ≠ sep)) (l := s.toList)
  constructor
  · intro h
    unfold splitOnce at h
    split at h
    · exact nomatch h
    · next c rest hdrop =>
        have hc : c = sep := by
          have hhead := List.head?_dropWhile_not (· ≠ sep) s.toList
          rw [hdrop] at hhead
          simpa using hhead
        simp only [Option.some.injEq, Prod.mk.injEq] at h
        rw [← h.1, ← h.2, String.toList_ofList, String.toList_ofList, ← hc, ← hdrop, hc]
        refine ⟨hparts.symm, fun hmem => ?_⟩
        simpa using List.mem_takeWhile_imp hmem
  · rintro ⟨hs, hname⟩
    have hall : ∀ c ∈ name.toList, decide (c ≠ sep) = true := by
      intro c hc
      exact decide_eq_true fun heq => hname (heq ▸ hc)
    unfold splitOnce
    rw [hs, List.dropWhile_append_of_pos hall, List.takeWhile_append_of_pos hall]
    simp

theorem isMaxAge_iff {directive : String} {secs : Nat} :
    IsMaxAge directive secs ↔ ∃ ttl, directiveMaxAge directive = some ttl ∧
    ttl.secs.toNat = secs := by
  simp only [directiveMaxAge, Option.bind_eq_some_iff, Prod.exists, splitOnce_eq_some_iff, parseU64,
    Option.ite_none_right_eq_some, Option.map_eq_some_iff]
  constructor
  · rintro ⟨name, value, htrim, hname, hcase, hvalue⟩
    have hlt : secs < 2 ^ 64 := Nat.lt_of_le_pred (by decide) (Decimal.unsigned_le hvalue)
    refine ⟨.fromSecs (.ofNat secs),
      ⟨name, value, ⟨?_, hname⟩, hcase, _, ⟨secs, hvalue, rfl⟩, rfl⟩, ?_⟩
    · rw [htrim]
      simp
    · exact UInt64.toNat_ofNat_of_lt hlt
  · rintro ⟨_, ⟨name, value, ⟨htrim, hname⟩, hcase, _, ⟨n, hvalue, rfl⟩, rfl⟩, rfl⟩
    have hlt : n < 2 ^ 64 := Nat.lt_of_le_pred (by decide) (Decimal.unsigned_le hvalue)
    refine ⟨name, value, ?_, hname, hcase, ?_⟩
    · apply String.toList_injective
      rw [htrim]
      simp
    · rw [hvalue]
      exact congrArg some (UInt64.toNat_ofNat_of_lt hlt).symm

theorem directiveMaxAge_eq_none_iff {directive : String} :
    directiveMaxAge directive = none ↔ ∀ n, ¬ IsMaxAge directive n := by
  simp only [isMaxAge_iff, Option.eq_none_iff_forall_ne_some]
  constructor
  · rintro h n ⟨ttl, httl, _⟩
    exact h ttl httl
  · intro h ttl httl
    exact h _ ⟨ttl, httl, rfl⟩

/-- The lifetime that is read is the one that the header lines ask for. -/
theorem ttl_secs_iff {headers : HeaderMap} {secs : Nat} :
    Lifetime headers secs ↔ (jwksTtl headers).secs.toNat = secs := by
  constructor
  · intro h
    cases h with
    | maxAge hvalue hsplit hsecs hfirst =>
        obtain ⟨ttl, hdirective, hsecs⟩ := isMaxAge_iff.mp hsecs
        have hparse := List.findSome?_eq_some_iff.mpr
          ⟨_, _, _, hsplit, hdirective, fun d hd => directiveMaxAge_eq_none_iff.mpr (hfirst d hd)⟩
        rw [jwksTtl, hvalue, Option.bind_some, parseMaxAge, hparse, Option.getD_some, hsecs]
    | default hnone =>
        have hparse : ((headers.get cacheControl).bind toStr).bind
            (fun value => parseMaxAge (asciiText value)) =
            none := by
          refine Option.bind_eq_none_iff.mpr fun value hvalue =>
            List.findSome?_eq_none_iff.mpr fun d hd => ?_
          exact directiveMaxAge_eq_none_iff.mpr (hnone value hvalue d hd)
        rw [jwksTtl, hparse]
        rfl
  · rintro rfl
    unfold jwksTtl
    cases hvalue : (headers.get cacheControl).bind toStr with
    | none => exact .default fun value h => nomatch hvalue.symm.trans h
    | some value =>
        rw [Option.bind_some]
        cases hparse : parseMaxAge (asciiText value) with
        | none =>
            refine .default fun value' h d hd => directiveMaxAge_eq_none_iff.mp ?_
            obtain rfl : value = value' := Option.some.inj (hvalue.symm.trans h)
            exact List.findSome?_eq_none_iff.mp hparse d hd
        | some ttl =>
            obtain ⟨before, directive, after, hsplit, hdirective, hfirst⟩ :=
              List.findSome?_eq_some_iff.mp hparse
            refine .maxAge hvalue hsplit (isMaxAge_iff.mpr ⟨ttl, hdirective, rfl⟩) fun d hd => ?_
            exact directiveMaxAge_eq_none_iff.mp (hfirst d hd)

theorem parseMaxAge_nanos {value : String} {ttl : Duration} (h : parseMaxAge value = some ttl) :
    ttl.nanos = 0 := by
  obtain ⟨directive, _, hdirective⟩ := List.exists_of_findSome?_eq_some h
  simp only [directiveMaxAge, Option.bind_eq_some_iff, Option.ite_none_right_eq_some,
    Option.map_eq_some_iff]
    at hdirective
  obtain ⟨_, _, _, secs, _, rfl⟩ := hdirective
  rfl

theorem jwksTtl_nanos (headers : HeaderMap) : (jwksTtl headers).nanos = 0 := by
  unfold jwksTtl
  cases hparse : ((headers.get cacheControl).bind toStr).bind fun value =>
    parseMaxAge (asciiText value) with
  | none => rfl
  | some ttl =>
      obtain ⟨value, _, hvalue⟩ := Option.bind_eq_some_iff.mp hparse
      exact parseMaxAge_nanos hvalue

/-! ## Storing the key set -/

/-- A lifetime of whole seconds can be added as long as the seconds stay in their range. -/
theorem checkedAdd_isSome_iff (now : StdInstant) {ttl : Duration} (h : ttl.nanos = 0) :
    (now.checkedAdd ttl).isSome ↔ now.secs + ttl.secs.toNat < 2 ^ 63 := by
  have hcarry : (now.nanos + ttl.nanos) / 10 ^ 9 = 0 := by
    rw [h]
    exact Nat.div_eq_of_lt now.nanos_lt
  unfold StdInstant.checkedAdd
  split_ifs with hlt
  · simp only [Option.isSome_some, true_iff]
    omega
  · simp only [Option.isSome_none, Bool.false_eq_true, false_iff]
    omega

section Store
variable {K : Type}

theorem refresh_panicked_iff (s : Shared K) (i : Nat) (headers : HeaderMap) (jwks : K) :
    (machine.alone i refresh s fun _ => fetchJwksFromGoogle (some ⟨headers, some jwks⟩)).1 =
      .panicked ↔
      s.now.checkedAdd (jwksTtl headers) = none := by
  have hfetch : fetchJwksFromGoogle (some ⟨headers, some jwks⟩) = .ok (jwks, jwksTtl headers) := rfl
  rw [hfetch, refresh, alone_op]
  simp only [machine, exec, storeFetched, alone_op, Shared.fetched]
  cases s.now.checkedAdd (jwksTtl headers) with
  | none => exact iff_of_true rfl rfl
  | some expiresAt => simp [writeCached, alone_op, Machine.alone]

/-- **When a fetched key set can be stored.** A call that fetches a key set panics unless the
lifetime that the header lines ask for ends within the range of the clock. -/
theorem stored_iff (s : Shared K) (i : Nat) (headers : HeaderMap) (jwks : K) :
    (machine.alone i refresh s fun _ => fetchJwksFromGoogle (some ⟨headers, some jwks⟩)).1 ≠
      .panicked ↔
      ∀ secs, Lifetime headers secs → s.now.secs + secs < 2 ^ 63 := by
  rw [ne_eq, refresh_panicked_iff, ← ne_eq, ← Option.isSome_iff_ne_none,
    checkedAdd_isSome_iff s.now (jwksTtl_nanos headers)]
  simp only [ttl_secs_iff, forall_eq']

end Store

/-- `max-age=18446744073709551615`, the largest number that is read. -/
def longestMaxAge : HeaderMap := [(cacheControl, "max-age=18446744073709551615".toUTF8.toList)]

/-- The parser takes every number of `u64`, and the clock cannot be moved that far. -/
theorem longestMaxAge_panics :
    (machine.alone 0 refresh (⟨zeroClock, none, []⟩ : Shared Unit) fun _ =>
      fetchJwksFromGoogle (some ⟨longestMaxAge, some ()⟩)).1 = .panicked := by
  have httl : zeroClock.checkedAdd (jwksTtl longestMaxAge) = none := by decide +kernel
  exact (refresh_panicked_iff _ 0 longestMaxAge ()).mpr httl

end AppHome.Jwks
