import AppHome.Lib.Base64
import AppHome.Shared.Json

/-!
# Signed tokens as text

The parts of a JSON web token the service relies on: the text form of identifiers, the compact
serialization `header.claims.signature`, and the check of `exp` with the library's default leeway.
-/

namespace AppHome

/-! ## Identifiers -/

/-- The 32 digits of an identifier. -/
def uuidDigits (u : Uuid) : Bytes :=
  (List.range 32).map fun i => hexDigit (u.toNat / 16 ^ (31 - i) % 16)

/-- The hyphenated form, in lower case. -/
def uuidText (u : Uuid) : Bytes :=
  let d := uuidDigits u
  d.take 8 ++ 45 :: (d.drop 8).take 4 ++ 45 :: (d.drop 12).take 4 ++ 45 :: (d.drop 16).take 4 ++
    45 :: d.drop 20

theorem length_uuidText (u : Uuid) : (uuidText u).length = 36 := by
  simp [uuidText, uuidDigits]

/-- `67e55044-10b1-426f-9247-bb680e5fe0c8`. -/
example : uuidText 0x67e5504410b1426f9247bb680e5fe0c8 =
    [54, 55, 101, 53, 53, 48, 52, 52, 45, 49, 48, 98, 49, 45, 52, 50, 54, 102, 45, 57, 50, 52, 55,
      45, 98, 98, 54, 56, 48, 101, 53, 102, 101, 48, 99, 56] := by decide +kernel

/-! ## The compact serialization -/

/-- `{"typ":"JWT","alg":"HS256"}`, the default header. -/
def defaultHeader : Bytes :=
  jsonObject [jsonField [116, 121, 112] (jsonString [74, 87, 84]),
    jsonField [97, 108, 103] (jsonString [72, 83, 50, 53, 54])]

def base64url (s : Bytes) : Bytes := Base64.encode Base64.urlSafe s

/-- The part of a token that is signed. -/
def signingInput (claims : Bytes) : Bytes := base64url defaultHeader ++ 46 :: base64url claims

/-- `header.claims.signature`. -/
def compact (claims signature : Bytes) : Bytes := signingInput claims ++ 46 :: signature

theorem length_base64url {s : Bytes} (h : 3 ∣ s.length) : (base64url s).length = s.length / 3 * 4 :=
  Base64.length_encode h

theorem length_encoded_header : (base64url defaultHeader).length = 36 := by decide +kernel

/-- The first 73 bytes of a token depend on the first 27 bytes of its claims only. -/
theorem take_compact {claims : Bytes} (h : 27 ≤ claims.length) (signature : Bytes) :
    (compact claims signature).take 73 =
      base64url defaultHeader ++ 46 :: base64url (claims.take 27) := by
  have hlen : (claims.take 27).length = 27 := by simp [h]
  have hdvd : 3 ∣ (claims.take 27).length := by
    rw [hlen]
    decide
  have hsplit : base64url claims = base64url (claims.take 27) ++ base64url (claims.drop 27) := by
    simp only [base64url]
    rw [← Base64.encode_append hdvd, List.take_append_drop]
  have hfirst : (base64url defaultHeader ++ 46 :: base64url (claims.take 27)).length = 73 := by
    simp [length_encoded_header, length_base64url hdvd, hlen]
  have hwhole : compact claims signature =
      (base64url defaultHeader ++ 46 :: base64url (claims.take 27)) ++
        (base64url (claims.drop 27) ++ 46 :: signature) := by
    simp [compact, signingInput, hsplit]
  rw [hwhole, ← hfirst, List.take_left]

/-! ## Expiry -/

/-- The leeway of the library's default validation, in seconds. -/
def defaultLeeway : Int := 60

/-- Whether `exp` is still accepted. -/
def expAccepted (exp : Int) (now : Instant) : Bool := !decide (exp < timestamp now - defaultLeeway)

end AppHome
