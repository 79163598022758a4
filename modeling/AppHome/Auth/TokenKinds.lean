import AppHome.Auth.Jwt
import AppHome.Revocation.Logout

/-!
# Access tokens and refresh tokens

Both kinds of token are signed with one key and checked against one validation. What keeps them
apart are the fields their claims have: three structures are read from a token, and each of them
fails on a token that lacks one of its fields.

* `ClaimSet` : the JSON object a token carries, and `ClaimSet.Minted` : those the service writes;
* `Jsonwebtoken` : what is taken from the library, signing and the check of a signature;
* `JwtConfig.accepts` : the validation `JwtVerification::validation` configures, but for the expiry
  itself;
* `Jsonwebtoken.accessTokenClaims`, `Jsonwebtoken.refreshTokenClaims`, `Jsonwebtoken.accessClaims` :
  the three structures, read from a claim set;
* `Jsonwebtoken.service`, `Jsonwebtoken.verification` : the service and the extractor's verification
  over the library;
* `token_kinds` : round trips, and which tokens are refused;
* `compactLibrary` : the compact serialization, written and read, is such a library.
-/

namespace AppHome

/-! ## Claim sets -/

inductive ClaimName where
  | sub
  | jti
  | sessionId
  | iss
  | aud
  | exp
  | iat
  | other (name : Bytes)
  deriving DecidableEq

/-- A JSON value: an integer, a string, an array of strings, or anything else as its text. -/
inductive ClaimValue where
  | number (n : Int)
  | text (s : Bytes)
  | texts (ss : List Bytes)
  | other (json : Bytes)
  deriving DecidableEq

abbrev ClaimSet := List (ClaimName × ClaimValue)

namespace ClaimSet

/-- The value of a field, which must be there once. -/
def field (cs : ClaimSet) (name : ClaimName) : Option ClaimValue :=
  match cs.filter fun f => f.1 = name with
  | [f] => some f.2
  | _ => none

def text (cs : ClaimSet) (name : ClaimName) : Option Bytes :=
  match cs.field name with
  | some (.text s) => some s
  | _ => none

/-- A field of type `i64`. -/
def int64 (cs : ClaimSet) (name : ClaimName) : Option Int :=
  match cs.field name with
  | some (.number n) => if -2 ^ 63 ≤ n ∧ n < 2 ^ 63 then some n else none
  | _ => none

end ClaimSet

def AccessTokenClaims.claims (c : AccessTokenClaims) : ClaimSet :=
  [(.sub, .text (uuidText c.sub)), (.jti, .text (uuidText c.jti)), (.iss, .text c.iss),
    (.aud, .text c.aud), (.exp, .number c.exp), (.iat, .number c.iat)]

def RefreshTokenClaims.claims (c : RefreshTokenClaims) : ClaimSet :=
  [(.sub, .text (uuidText c.sub)), (.sessionId, .text (uuidText c.sessionId)), (.iss, .text c.iss),
    (.aud, .text c.aud), (.exp, .number c.exp), (.iat, .number c.iat)]

/-- The value fits an `i64`. -/
def Int64 (n : Int) : Prop := -2 ^ 63 ≤ n ∧ n < 2 ^ 63

/-- The claim sets that the service mints: `iss` and `aud` are texts, `exp` and `iat` numbers of
type `i64`. -/
inductive ClaimSet.Minted : ClaimSet → Prop
  | access (c : AccessTokenClaims) {iss aud : String} (hiss : c.iss = Utf8.encode iss)
    (haud : c.aud = Utf8.encode aud)
      (hexp : Int64 c.exp) (hiat : Int64 c.iat) : Minted c.claims
  | refresh (c : RefreshTokenClaims) {iss aud : String} (hiss : c.iss = Utf8.encode iss)
    (haud : c.aud = Utf8.encode aud)
      (hexp : Int64 c.exp) (hiat : Int64 c.iat) : Minted c.claims

/-! ## The library -/

/-- `jsonwebtoken` with HS256, and the reader of identifiers. -/
structure Jsonwebtoken where
  encode : (secret : Bytes) → ClaimSet → Option Bytes
  verified : (secret token : Bytes) → Option ClaimSet
  parseUuid : Bytes → Option Uuid

/-- Minted claims can be signed, a signature made with the key is accepted, and no key makes a token
carry other claims than it was made with. An identifier is read from its text. -/
structure Jsonwebtoken.Sound (lib : Jsonwebtoken) : Prop where
  encodes : ∀ {claims : ClaimSet}, claims.Minted →
    ∀ secret, ∃ token, lib.encode secret claims = some token
  verified_encode : ∀ {claims : ClaimSet}, claims.Minted →
    ∀ {secret token}, lib.encode secret claims = some token →
    lib.verified secret token = some claims
  verified_other : ∀ {claims : ClaimSet}, claims.Minted →
    ∀ {secret token}, lib.encode secret claims = some token →
    ∀ {secret' claims'}, lib.verified secret' token = some claims' → claims' = claims
  parseUuid_text : ∀ u, lib.parseUuid (uuidText u) = some u

/-- The settings of `JwtServiceImpl::new`. -/
structure JwtConfig where
  secret : Bytes
  issuer : String
  audience : String
  accessExpiryMinutes : Int
  refreshExpiryDays : Int

/-- An `iss` or `aud` claim that names `expected`. -/
def ClaimSet.names (cs : ClaimSet) (name : ClaimName) (expected : Bytes) : Bool :=
  match cs.field name with
  | some (.text s) => s = expected
  | some (.texts ss) => ss.contains expected
  | _ => false

/-- The checks of `JwtVerification::validation` that do not depend on the time: `exp` is a `u64`,
and `iss` and `aud` name this service. -/
def JwtConfig.accepts (cfg : JwtConfig) (cs : ClaimSet) : Bool :=
  (match cs.field .exp with
    | some (.number n) => 0 ≤ n && n < 2 ^ 64
    | _ => false) &&
  cs.names .iss (Utf8.encode cfg.issuer) && cs.names .aud (Utf8.encode cfg.audience)

namespace Jsonwebtoken
variable (lib : Jsonwebtoken) (cfg : JwtConfig)

def uuid (cs : ClaimSet) (name : ClaimName) : Option Uuid := (cs.text name).bind lib.parseUuid

def accessTokenClaims (cs : ClaimSet) : Option AccessTokenClaims := do
  let sub ← lib.uuid cs .sub
  let jti ← lib.uuid cs .jti
  let iss ← cs.text .iss
  let aud ← cs.text .aud
  let exp ← cs.int64 .exp
  let iat ← cs.int64 .iat
  pure ⟨sub, jti, iss, aud, exp, iat⟩

def refreshTokenClaims (cs : ClaimSet) : Option RefreshTokenClaims := do
  let sub ← lib.uuid cs .sub
  let sessionId ← lib.uuid cs .sessionId
  let iss ← cs.text .iss
  let aud ← cs.text .aud
  let exp ← cs.int64 .exp
  let iat ← cs.int64 .iat
  pure ⟨sub, sessionId, iss, aud, exp, iat⟩

/-- The claims of the extractor. -/
def accessClaims (cs : ClaimSet) : Option AccessClaims := do
  let sub ← lib.uuid cs .sub
  let jti ← lib.uuid cs .jti
  let exp ← cs.int64 .exp
  pure ⟨sub, jti, exp⟩

/-- `jsonwebtoken::decode`, but for the check of the expiry. -/
def decoded {α : Type} (shape : ClaimSet → Option α) (token : Bytes) : Option α :=
  ((lib.verified cfg.secret token).filter cfg.accepts).bind shape

/-- `JwtServiceImpl` with the library's decoding. -/
def impl (sign : Bytes → Option Bytes) : JwtServiceImpl where
  sign := sign
  accessClaims := lib.decoded cfg lib.accessTokenClaims
  refreshClaims := lib.decoded cfg lib.refreshTokenClaims
  issuer := Utf8.encode cfg.issuer
  audience := Utf8.encode cfg.audience
  accessExpiryMinutes := cfg.accessExpiryMinutes
  refreshExpiryDays := cfg.refreshExpiryDays

/-- The same, with the library's encoding. -/
def service : JwtService :=
  { (lib.impl cfg some).service with
    generateTokenPair := fun now jti userId sessionId => do
      let access := ((lib.impl cfg some).mintedAccess now jti userId).claims
      let refresh := ((lib.impl cfg some).mintedRefresh now userId sessionId).claims
      let accessToken ← orGenerationFailed (lib.encode cfg.secret access)
      let refreshToken ← orGenerationFailed (lib.encode cfg.secret refresh)
      pure ⟨accessToken, refreshToken⟩ }

/-- The `JwtVerification` of the extractor. -/
def verification : JwtVerification := ⟨lib.decoded cfg lib.accessClaims⟩

end Jsonwebtoken

/-! ## The compact serialization -/

def ClaimName.bytes : ClaimName → Bytes
  | .sub => [115, 117, 98]
  | .jti => [106, 116, 105]
  | .sessionId => [115, 101, 115, 115, 105, 111, 110, 95, 105, 100]
  | .iss => [105, 115, 115]
  | .aud => [97, 117, 100]
  | .exp => [101, 120, 112]
  | .iat => [105, 97, 116]
  | .other name => name

def ClaimValue.json : ClaimValue → Bytes
  | .number n => intText n
  | .text s => jsonString s
  | .texts ss => 91 :: [44].intercalate (ss.map jsonString) ++ [93]
  | .other json => json

def ClaimSet.json (cs : ClaimSet) : Bytes :=
  jsonObject (cs.map fun f => jsonField f.1.bytes f.2.json)

theorem jsonString_uuidText (u : Uuid) : jsonString (uuidText u) = jsonUuid u := by
  have hdigit : ∀ n < 16, jsonEscape (hexDigit n) = [hexDigit n] := by decide
  have hdigits : ∀ b ∈ uuidDigits u, jsonEscape b = [b] := by
    intro b hb
    obtain ⟨i, -, rfl⟩ := List.mem_map.mp hb
    exact hdigit _ (Nat.mod_lt _ (by decide))
  have hescape : ∀ b ∈ uuidText u, jsonEscape b = [b] := by
    intro b hb
    simp only [uuidText, List.mem_append, List.mem_cons] at hb
    rcases hb with (((hb | rfl | hb) | rfl | hb) | rfl | hb) | rfl | hb
    · exact hdigits b (List.mem_of_mem_take hb)
    · rfl
    · exact hdigits b (List.mem_of_mem_drop (List.mem_of_mem_take hb))
    · rfl
    · exact hdigits b (List.mem_of_mem_drop (List.mem_of_mem_take hb))
    · rfl
    · exact hdigits b (List.mem_of_mem_drop (List.mem_of_mem_take hb))
    · rfl
    · exact hdigits b (List.mem_of_mem_drop hb)
  rw [jsonString, jsonUuid, List.flatMap_congr hescape, List.flatMap_singleton']

theorem AccessTokenClaims.json_claims (c : AccessTokenClaims) : c.claims.json = c.json := by
  simp only [AccessTokenClaims.json, ← jsonString_uuidText]
  rfl

theorem RefreshTokenClaims.json_claims (c : RefreshTokenClaims) : c.claims.json = c.json := by
  simp only [RefreshTokenClaims.json, ← jsonString_uuidText]
  rfl

/-- Over a library that writes the compact serialization this is `JwtServiceImpl` as modelled
before. -/
theorem service_eq_impl {lib : Jsonwebtoken} {cfg : JwtConfig} {sign : Bytes → Option Bytes}
    (h : ∀ cs : ClaimSet, lib.encode cfg.secret cs =
      (sign (signingInput cs.json)).map (compact cs.json)) :
    lib.service cfg = (lib.impl cfg sign).service := by
  have hgenerate : (lib.service cfg).generateTokenPair =
      (lib.impl cfg sign).service.generateTokenPair := by
    funext now jti userId sessionId
    simp only [Jsonwebtoken.service, h, AccessTokenClaims.json_claims,
      RefreshTokenClaims.json_claims]
    rfl
  calc lib.service cfg = { (lib.impl cfg sign).service with
        generateTokenPair := (lib.service cfg).generateTokenPair } := rfl
    _ = (lib.impl cfg sign).service := by rw [hgenerate]

/-! ## What is decoded from a minted token -/

/-- The fields both kinds of claims have. -/
structure ClaimSet.Carries (cs : ClaimSet) (iss aud : Bytes) (exp : Int) : Prop where
  iss : cs.field .iss = some (.text iss)
  aud : cs.field .aud = some (.text aud)
  exp : cs.field .exp = some (.number exp)

theorem AccessTokenClaims.carries (c : AccessTokenClaims) : c.claims.Carries c.iss c.aud c.exp :=
  ⟨rfl, rfl, rfl⟩

theorem RefreshTokenClaims.carries (c : RefreshTokenClaims) : c.claims.Carries c.iss c.aud c.exp :=
  ⟨rfl, rfl, rfl⟩

theorem JwtConfig.accepts_iff {cfg : JwtConfig} {cs : ClaimSet} {iss aud : Bytes} {exp : Int}
    (h : cs.Carries iss aud exp) :
    cfg.accepts cs = true ↔
      (0 ≤ exp ∧ exp < 2 ^ 64) ∧ iss = Utf8.encode cfg.issuer ∧ aud = Utf8.encode cfg.audience := by
  simp [JwtConfig.accepts, ClaimSet.names, h.exp, h.iss, h.aud, and_assoc]

section Decoded
variable {lib : Jsonwebtoken} {cfg cfg' : JwtConfig} {cs : ClaimSet} {α : Type}
  {shape : ClaimSet → Option α}

theorem decoded_encode (hlib : lib.Sound) (hcs : cs.Minted) {token : Bytes}
    (htoken : lib.encode cfg.secret cs = some token) (h : cfg.accepts cs = true) :
    lib.decoded cfg shape token = shape cs := by
  rw [Jsonwebtoken.decoded, hlib.verified_encode hcs htoken, Option.filter_some, if_pos h,
    Option.bind_some]

section Any
variable (hlib : lib.Sound) (hcs : cs.Minted) {secret token : Bytes}
  (htoken : lib.encode secret cs = some token)
include hlib hcs htoken

theorem decoded_some {x : α} (h : lib.decoded cfg shape token = some x) :
    cfg.accepts cs = true ∧ shape cs = some x := by
  obtain ⟨cs', hcs', hx⟩ := Option.bind_eq_some_iff.mp h
  obtain ⟨hverified, haccepts⟩ := Option.filter_eq_some_iff.mp hcs'
  rw [hlib.verified_other hcs htoken hverified] at haccepts hx
  exact ⟨haccepts, hx⟩

theorem decoded_of_shape (h : shape cs = none) : lib.decoded cfg shape token = none := by
  refine Option.eq_none_iff_forall_ne_some.mpr fun x hx => ?_
  rw [(decoded_some hlib hcs htoken hx).2] at h
  cases h

theorem decoded_foreign {iss aud : String} {exp : Int}
    (hcarries : cs.Carries (Utf8.encode iss) (Utf8.encode aud) exp)
    (h : cfg.issuer ≠ iss ∨ cfg.audience ≠ aud) : lib.decoded cfg shape token = none := by
  refine Option.eq_none_iff_forall_ne_some.mpr fun x hx => ?_
  obtain ⟨-, hiss, haud⟩ := (JwtConfig.accepts_iff hcarries).mp (decoded_some hlib hcs htoken hx).1
  rcases h with h | h
  · exact h (Utf8.encode_injective hiss).symm
  · exact h (Utf8.encode_injective haud).symm

end Any

end Decoded

/-! ### The three structures -/

section Shapes
variable {lib : Jsonwebtoken}

theorem int64_of_field {cs : ClaimSet} {name : ClaimName} {n : Int}
    (h : cs.field name = some (.number n)) (hn : Int64 n) : cs.int64 name = some n := by
  simp only [ClaimSet.int64, h]
  exact if_pos hn

theorem uuid_of_field (hlib : lib.Sound) {cs : ClaimSet} {name : ClaimName} {u : Uuid}
    (h : cs.field name = some (.text (uuidText u))) : lib.uuid cs name = some u := by
  simp only [Jsonwebtoken.uuid, ClaimSet.text, h, Option.bind_some, hlib.parseUuid_text]

theorem uuid_of_missing {cs : ClaimSet} {name : ClaimName} (h : cs.field name = none) :
    lib.uuid cs name = none := by
  simp only [Jsonwebtoken.uuid, ClaimSet.text, h, Option.bind_none]

section Access
variable (hlib : lib.Sound) (c : AccessTokenClaims)
include hlib

theorem access_uuids : lib.uuid c.claims .sub = some c.sub ∧ lib.uuid c.claims .jti = some c.jti :=
  ⟨uuid_of_field hlib rfl, uuid_of_field hlib rfl⟩

variable {c}

theorem accessTokenClaims_access (hexp : Int64 c.exp) (hiat : Int64 c.iat) :
    lib.accessTokenClaims c.claims = some c := by
  obtain ⟨hsub, hjti⟩ := access_uuids hlib c
  have hexp' : c.claims.int64 .exp = some c.exp := int64_of_field rfl hexp
  have hiat' : c.claims.int64 .iat = some c.iat := int64_of_field rfl hiat
  simp only [Jsonwebtoken.accessTokenClaims, hsub, hjti, hexp', hiat']
  rfl

theorem accessClaims_access (hexp : Int64 c.exp) :
    lib.accessClaims c.claims = some ⟨c.sub, c.jti, c.exp⟩ := by
  obtain ⟨hsub, hjti⟩ := access_uuids hlib c
  have hexp' : c.claims.int64 .exp = some c.exp := int64_of_field rfl hexp
  simp only [Jsonwebtoken.accessClaims, hsub, hjti, hexp']
  rfl

/-- An access token has no `session_id`. -/
theorem refreshTokenClaims_access : lib.refreshTokenClaims c.claims = none := by
  have hsession : lib.uuid c.claims .sessionId = none := uuid_of_missing rfl
  simp only [Jsonwebtoken.refreshTokenClaims, (access_uuids hlib c).1, hsession]
  rfl

end Access

section Refresh
variable (hlib : lib.Sound) {c : RefreshTokenClaims}
include hlib

theorem refreshTokenClaims_refresh (hexp : Int64 c.exp) (hiat : Int64 c.iat) :
    lib.refreshTokenClaims c.claims = some c := by
  have hsub : lib.uuid c.claims .sub = some c.sub := uuid_of_field hlib rfl
  have hsession : lib.uuid c.claims .sessionId = some c.sessionId := uuid_of_field hlib rfl
  have hexp' : c.claims.int64 .exp = some c.exp := int64_of_field rfl hexp
  have hiat' : c.claims.int64 .iat = some c.iat := int64_of_field rfl hiat
  simp only [Jsonwebtoken.refreshTokenClaims, hsub, hsession, hexp', hiat']
  rfl

/-- A refresh token has no `jti`, which both readers of access tokens ask for. -/
theorem access_refresh :
    lib.accessTokenClaims c.claims = none ∧ lib.accessClaims c.claims = none := by
  have hsub : lib.uuid c.claims .sub = some c.sub := uuid_of_field hlib rfl
  have hjti : lib.uuid c.claims .jti = none := uuid_of_missing rfl
  simp only [Jsonwebtoken.accessTokenClaims, Jsonwebtoken.accessClaims, hsub, hjti]
  exact ⟨rfl, rfl⟩

end Refresh

end Shapes

/-! ## Accepted and refused -/

namespace Jsonwebtoken
variable (lib : Jsonwebtoken) (cfg : JwtConfig) (token : Bytes)

/-- Neither `validate_access_token` nor the extractor takes the token, at any time. -/
def RefusedAsAccess : Prop :=
  ∀ t, (lib.service cfg).validateAccessToken t token = .error .tokenVerificationFailed ∧
    ∀ isRevoked headers, bearerToken headers = some token →
      fromRequestParts (lib.verification cfg) isRevoked headers t = .error ⟨⟩

/-- `validate_refresh_token` does not take the token, at any time. -/
def RefusedAsRefresh : Prop :=
  ∀ t, (lib.service cfg).validateRefreshToken t token = .error .tokenVerificationFailed

variable {lib cfg token} {t : Instant}

theorem validateAccessToken_eq : (lib.service cfg).validateAccessToken t token =
    ((lib.decoded cfg lib.accessTokenClaims token).filter fun c => expAccepted c.exp t).elim
      (.error .tokenVerificationFailed) .ok := by
  simp only [service, impl, JwtServiceImpl.service]
  cases (lib.decoded cfg lib.accessTokenClaims token).filter fun c => expAccepted c.exp t <;> rfl

theorem validateRefreshToken_eq : (lib.service cfg).validateRefreshToken t token =
    ((lib.decoded cfg lib.refreshTokenClaims token).filter fun c => expAccepted c.exp t).elim
      (.error .tokenVerificationFailed) .ok := by
  simp only [service, impl, JwtServiceImpl.service]
  cases (lib.decoded cfg lib.refreshTokenClaims token).filter fun c => expAccepted c.exp t <;> rfl

theorem decode_eq : (lib.verification cfg).decode token t =
    (lib.decoded cfg lib.accessClaims token).filter fun c => expAccepted c.exp t := rfl

theorem refusedAsAccess (htoken : lib.decoded cfg lib.accessTokenClaims token = none)
    (hextractor : lib.decoded cfg lib.accessClaims token = none) :
    lib.RefusedAsAccess cfg token := by
  intro t
  constructor
  · rw [validateAccessToken_eq, htoken]
    rfl
  · intro isRevoked headers hbearer
    have hdecode : (lib.verification cfg).decode token t = none := by
      rw [decode_eq, hextractor]
      rfl
    simp only [fromRequestParts, hbearer, hdecode]

theorem refusedAsRefresh (htoken : lib.decoded cfg lib.refreshTokenClaims token = none) :
    lib.RefusedAsRefresh cfg token := by
  intro t
  rw [validateRefreshToken_eq, htoken]
  rfl

theorem expAccepted_of_le {exp : Int} (h : timestamp t ≤ exp + defaultLeeway) :
    expAccepted exp t = true := by
  have hnot : ¬ exp < timestamp t - defaultLeeway := by omega
  rw [expAccepted, decide_eq_false hnot]
  rfl

theorem extractor_accepts {claims : AccessClaims}
    (htoken : lib.decoded cfg lib.accessClaims token = some claims)
    (hexp : expAccepted claims.exp t = true) {isRevoked : Uuid → Except BlacklistError Bool}
    {headers : HeaderMap} (hbearer : bearerToken headers = some token)
    (hlive : isRevoked claims.jti ≠ .ok true) :
    fromRequestParts (lib.verification cfg) isRevoked headers t =
      .ok ⟨claims.sub, claims.jti, claims.exp⟩ := by
  have hdecode : (lib.verification cfg).decode token t = some claims := by
    rw [decode_eq, htoken, Option.filter_some, if_pos hexp]
  simp only [fromRequestParts, hbearer, hdecode]
  split
  · next h => exact absurd h hlive
  · rfl
  · rfl

/-- The tokens a service mints pass its own validation. -/
theorem accepts_own {cs : ClaimSet} {exp : Int}
    (h : cs.Carries (Utf8.encode cfg.issuer) (Utf8.encode cfg.audience) exp) (hnonneg : 0 ≤ exp)
    (hfits : exp < 2 ^ 63) : cfg.accepts cs = true :=
  (JwtConfig.accepts_iff h).mpr ⟨⟨hnonneg, hfits.trans (by decide)⟩, rfl, rfl⟩

end Jsonwebtoken

/-- **The two kinds of token round-trip and are not interchangeable.** With a sound library,
positive expiry settings and expiries that fit an `i64`: until its expiry plus the leeway an access
token gives back what it was minted with, to `validate_access_token` and to the extractor (unless it
is revoked), and a refresh token to `validate_refresh_token`; each kind is refused where the other
is expected; and a service with another issuer or another audience refuses both everywhere. -/
theorem token_kinds (lib : Jsonwebtoken) (hlib : lib.Sound) (cfg : JwtConfig)
    (hpos : 0 < cfg.accessExpiryMinutes ∧ 0 < cfg.refreshExpiryDays) (now : Instant)
    (hnow : 0 ≤ now)
    (hfits : timestamp now + cfg.accessExpiryMinutes * 60 < 2 ^ 63 ∧
      timestamp now + cfg.refreshExpiryDays * 86400 < 2 ^ 63)
    (jti userId sessionId : Uuid) :
    ∃ pair, (lib.service cfg).generateTokenPair now jti userId sessionId = .ok pair ∧
      (∀ t, timestamp t ≤ timestamp now + cfg.accessExpiryMinutes * 60 + defaultLeeway →
        (∃ claims, (lib.service cfg).validateAccessToken t pair.accessToken = .ok claims ∧
          claims.sub = userId ∧ claims.jti = jti ∧
          claims.exp = timestamp now + cfg.accessExpiryMinutes * 60) ∧
        ∀ isRevoked headers, bearerToken headers = some pair.accessToken →
          isRevoked jti ≠ .ok true → fromRequestParts (lib.verification cfg) isRevoked headers t =
            .ok ⟨userId, jti, timestamp now + cfg.accessExpiryMinutes * 60⟩) ∧
      (∀ t, timestamp t ≤ timestamp now + cfg.refreshExpiryDays * 86400 + defaultLeeway →
        ∃ claims, (lib.service cfg).validateRefreshToken t pair.refreshToken = .ok claims ∧
          claims.sub = userId ∧ claims.sessionId = sessionId) ∧
      lib.RefusedAsRefresh cfg pair.accessToken ∧ lib.RefusedAsAccess cfg pair.refreshToken ∧
      ∀ cfg' : JwtConfig, cfg'.issuer ≠ cfg.issuer ∨ cfg'.audience ≠ cfg.audience →
        ∀ token ∈ [pair.accessToken, pair.refreshToken],
          lib.RefusedAsAccess cfg' token ∧ lib.RefusedAsRefresh cfg' token := by
  have hseconds : 0 ≤ timestamp now := Int.ediv_nonneg hnow (by decide)
  obtain ⟨hminutes, hdays⟩ := hpos
  obtain ⟨hfitAccess, hfitRefresh⟩ := hfits
  have hiat : Int64 (timestamp now) := ⟨by omega, by omega⟩
  let access : AccessTokenClaims := (lib.impl cfg some).mintedAccess now jti userId
  let refresh : RefreshTokenClaims := (lib.impl cfg some).mintedRefresh now userId sessionId
  have hnonnegAccess : 0 ≤ access.exp := by
    show 0 ≤ timestamp now + cfg.accessExpiryMinutes * 60
    omega
  have hnonnegRefresh : 0 ≤ refresh.exp := by
    show 0 ≤ timestamp now + cfg.refreshExpiryDays * 86400
    omega
  have hexpAccess : Int64 access.exp := ⟨by omega, hfitAccess⟩
  have hexpRefresh : Int64 refresh.exp := ⟨by omega, hfitRefresh⟩
  have hacceptsAccess : cfg.accepts access.claims = true :=
    Jsonwebtoken.accepts_own access.carries hnonnegAccess hfitAccess
  have hacceptsRefresh : cfg.accepts refresh.claims = true :=
    Jsonwebtoken.accepts_own refresh.carries hnonnegRefresh hfitRefresh
  have hmintedAccess : access.claims.Minted := .access access rfl rfl hexpAccess hiat
  have hmintedRefresh : refresh.claims.Minted := .refresh refresh rfl rfl hexpRefresh hiat
  obtain ⟨accessToken, haccess⟩ := hlib.encodes hmintedAccess cfg.secret
  obtain ⟨refreshToken, hrefresh⟩ := hlib.encodes hmintedRefresh cfg.secret
  refine ⟨⟨accessToken, refreshToken⟩, ?_, fun t ht => ⟨⟨access, ?_, rfl, rfl, rfl⟩,
    fun isRevoked headers hbearer hlive => ?_⟩, fun t ht => ⟨refresh, ?_, rfl, rfl⟩, ?_, ?_,
    fun cfg' hne token htoken => ?_⟩
  · simp only [Jsonwebtoken.service]
    rw [haccess, hrefresh]
    rfl
  · have hlive : expAccepted access.exp t = true := Jsonwebtoken.expAccepted_of_le ht
    rw [Jsonwebtoken.validateAccessToken_eq,
      decoded_encode hlib hmintedAccess haccess hacceptsAccess,
      accessTokenClaims_access hlib hexpAccess hiat, Option.filter_some, if_pos hlive]
    rfl
  · have hdecoded := (decoded_encode hlib hmintedAccess haccess hacceptsAccess).trans
      (accessClaims_access hlib hexpAccess)
    exact Jsonwebtoken.extractor_accepts hdecoded (Jsonwebtoken.expAccepted_of_le ht) hbearer hlive
  · have hlive : expAccepted refresh.exp t = true := Jsonwebtoken.expAccepted_of_le ht
    rw [Jsonwebtoken.validateRefreshToken_eq,
      decoded_encode hlib hmintedRefresh hrefresh hacceptsRefresh,
      refreshTokenClaims_refresh hlib hexpRefresh hiat, Option.filter_some, if_pos hlive]
    rfl
  · exact Jsonwebtoken.refusedAsRefresh
      (decoded_of_shape hlib hmintedAccess haccess (refreshTokenClaims_access hlib))
  · exact Jsonwebtoken.refusedAsAccess
      (decoded_of_shape hlib hmintedRefresh hrefresh (access_refresh hlib).1)
      (decoded_of_shape hlib hmintedRefresh hrefresh (access_refresh hlib).2)
  · have hforeign : ∀ {α : Type} (shape : ClaimSet → Option α),
        lib.decoded cfg' shape token = none := by
      intro α shape
      rcases List.mem_cons.mp htoken with rfl | htoken
      · exact decoded_foreign hlib hmintedAccess haccess access.carries hne
      · rw [List.mem_singleton.mp htoken]
        exact decoded_foreign hlib hmintedRefresh hrefresh refresh.carries hne
    exact ⟨Jsonwebtoken.refusedAsAccess (hforeign _) (hforeign _),
      Jsonwebtoken.refusedAsRefresh (hforeign _)⟩

/-! ## A library

The compact serialization with any message authentication code, read back by the reader of flat
objects. -/

/-- The identifier with a hyphenated text. -/
def readUuid (text : Bytes) : Option Uuid :=
  if text.length = 36 then (hexNumber 0 (text.filter (· ≠ 45))).map (.ofNat 128) else none

theorem foldl_digits (n m k : Nat) (hk : k ≤ m) (hn : n < 16 ^ m) :
    (List.range k).foldl (fun a i => a * 16 + n / 16 ^ (m - 1 - i) % 16) 0 = n / 16 ^ (m - k) := by
  induction k with
  | zero => rw [List.range_zero, List.foldl_nil, Nat.sub_zero, Nat.div_eq_of_lt hn]
  | succ k ih =>
      have hsplit : m - k = (m - 1 - k) + 1 := by omega
      have hlast : m - (k + 1) = m - 1 - k := by omega
      rw [List.range_succ, List.foldl_append, ih (Nat.le_of_succ_le hk), List.foldl_cons,
        List.foldl_nil, hsplit, hlast, Nat.pow_succ, ← Nat.div_div_eq_div_mul, Nat.div_add_mod']

theorem hexDigit_ne_hyphen : ∀ n < 16, hexDigit n ≠ 45 := by decide

theorem filter_uuidText (u : Uuid) : (uuidText u).filter (· ≠ 45) = uuidDigits u := by
  have hdigits : ∀ b ∈ uuidDigits u, decide (b ≠ 45) = true := by
    intro b hb
    obtain ⟨i, -, rfl⟩ := List.mem_map.mp hb
    exact decide_eq_true (hexDigit_ne_hyphen _ (Nat.mod_lt _ (by decide)))
  have hpart : ∀ part : Bytes, part ⊆ uuidDigits u → part.filter (· ≠ 45) = part := fun part hsub =>
    List.filter_eq_self.mpr fun b hb => hdigits b (hsub hb)
  have hmid : ∀ n m, ((uuidDigits u).drop n).take m ⊆ uuidDigits u := fun n m =>
    List.Subset.trans (List.take_subset m _) (List.drop_subset n _)
  have hhyphen : decide ((45 : UInt8) ≠ 45) = false := rfl
  simp only [uuidText, List.filter_append, List.filter_cons, hhyphen,
    hpart _ (List.take_subset 8 _),
    hpart _ (hmid 8 4), hpart _ (hmid 12 4), hpart _ (hmid 16 4), hpart _ (List.drop_subset 20 _),
    Bool.false_eq_true, if_false, List.append_assoc]
  have hjoin : ∀ n m, ((uuidDigits u).drop n).take m ++ (uuidDigits u).drop (n + m) =
      (uuidDigits u).drop n := by
    intro n m
    rw [← List.drop_drop, List.take_append_drop]
  rw [hjoin 16 4, hjoin 12 4, hjoin 8 4, List.take_append_drop]

theorem readUuid_text (u : Uuid) : readUuid (uuidText u) = some u := by
  have hdigits :
      uuidDigits u = ((List.range 32).map fun i => u.toNat / 16 ^ (31 - i) % 16).map hexDigit := by
    rw [uuidDigits, List.map_map]
    rfl
  have hsmall : ∀ d ∈ (List.range 32).map fun i => u.toNat / 16 ^ (31 - i) % 16, d < 16 := by
    intro d hd
    obtain ⟨i, -, rfl⟩ := List.mem_map.mp hd
    exact Nat.mod_lt _ (by decide)
  have hlt : u.toNat < 16 ^ 32 := u.isLt
  have hvalue := foldl_digits u.toNat 32 32 le_rfl hlt
  rw [readUuid, if_pos (length_uuidText u), filter_uuidText, hdigits, hexNumber_map _ hsmall,
    List.foldl_map]
  rw [Nat.sub_self, Nat.pow_zero, Nat.div_one] at hvalue
  rw [Option.map_some, show (List.range 32).foldl
    (fun n i => n * 16 + u.toNat / 16 ^ (31 - i) % 16) 0 = u.toNat
    from hvalue, BitVec.ofNat_toNat, BitVec.setWidth_eq]

def ClaimName.ofBytes (name : Bytes) : ClaimName :=
  if name = ClaimName.sub.bytes then .sub
  else if name = ClaimName.jti.bytes then .jti
  else if name = ClaimName.sessionId.bytes then .sessionId
  else if name = ClaimName.iss.bytes then .iss
  else if name = ClaimName.aud.bytes then .aud
  else if name = ClaimName.exp.bytes then .exp
  else if name = ClaimName.iat.bytes then .iat
  else .other name

def ClaimValue.ofScalar : JsonScalar → ClaimValue
  | .number n => .number n
  | .text s => .text s

def ClaimSet.ofFields (fields : List (Bytes × JsonScalar)) : ClaimSet :=
  fields.map fun f => (.ofBytes f.1, .ofScalar f.2)

/-- The fields of a minted token, as they are read. -/
def AccessTokenClaims.fields (c : AccessTokenClaims) : List (Bytes × JsonScalar) :=
  [(ClaimName.sub.bytes, .text (uuidText c.sub)), (ClaimName.jti.bytes, .text (uuidText c.jti)),
    (ClaimName.iss.bytes, .text c.iss), (ClaimName.aud.bytes, .text c.aud),
    (ClaimName.exp.bytes, .number c.exp), (ClaimName.iat.bytes, .number c.iat)]

def RefreshTokenClaims.fields (c : RefreshTokenClaims) : List (Bytes × JsonScalar) :=
  [(ClaimName.sub.bytes, .text (uuidText c.sub)),
    (ClaimName.sessionId.bytes, .text (uuidText c.sessionId)),
    (ClaimName.iss.bytes, .text c.iss), (ClaimName.aud.bytes, .text c.aud),
    (ClaimName.exp.bytes, .number c.exp), (ClaimName.iat.bytes, .number c.iat)]

theorem ClaimSet.Minted.read {cs : ClaimSet} (h : cs.Minted) :
    (readObject cs.json).map ClaimSet.ofFields = some cs := by
  cases h with
  | access c =>
      have htext : c.claims.json = jsonObject (c.fields.map scalarField) := rfl
      rw [htext, readObject_jsonObject c.fields (List.cons_ne_nil _ _)]
      rfl
  | refresh c =>
      have htext : c.claims.json = jsonObject (c.fields.map scalarField) := rfl
      rw [htext, readObject_jsonObject c.fields (List.cons_ne_nil _ _)]
      rfl

def compactLibrary (mac : (secret input : Bytes) → Bytes) : Jsonwebtoken where
  encode secret cs := some (compact cs.json (base64url (mac secret (signingInput cs.json))))
  verified secret token :=
    match token.splitOn 46 with
    | [header, claims, signature] =>
      if header = base64url defaultHeader ∧
        signature = base64url (mac secret (header ++ 46 :: claims)) then
        ((Base64.decode Base64.urlSafeValue claims).bind readObject).map ClaimSet.ofFields
      else none
    | _ => none
  parseUuid := readUuid

theorem dot_notMem_base64url (s : Bytes) : 46 ∉ base64url s := by
  have hdot : ∀ n < 64, Base64.urlSafe n ≠ 46 := by decide
  intro h
  obtain ⟨n, hn, heq⟩ := Base64.mem_encode h
  exact hdot n hn heq.symm

theorem splitOn_compact (claims signature : Bytes) :
    (compact claims (base64url signature)).splitOn 46 =
      [base64url defaultHeader, base64url claims, base64url signature] := by
  rw [compact, signingInput, List.append_assoc, List.cons_append, List.splitOn_append_cons_self,
    List.splitOn_append_cons_self, List.splitOn_eq_singleton (dot_notMem_base64url _),
    List.splitOn_eq_singleton (dot_notMem_base64url _),
      List.splitOn_eq_singleton (dot_notMem_base64url _)]
  rfl

theorem compactLibrary_verified (mac : (secret input : Bytes) → Bytes) {cs : ClaimSet}
    (h : cs.Minted) (secret secret' : Bytes) :
    (compactLibrary mac).verified secret'
      (compact cs.json (base64url (mac secret (signingInput cs.json)))) =
      if base64url (mac secret (signingInput cs.json)) =
        base64url (mac secret' (signingInput cs.json)) then some cs
      else none := by
  have hdecode : Base64.decode Base64.urlSafeValue (base64url cs.json) = some cs.json :=
    Base64.decode_encode Base64.urlSafeValue_urlSafe cs.json
  simp only [compactLibrary, splitOn_compact, true_and, hdecode, Option.bind_some, h.read]
  rfl

theorem compactLibrary_sound (mac : (secret input : Bytes) → Bytes) :
    (compactLibrary mac).Sound where
  encodes := fun _ _ => ⟨_, rfl⟩
  verified_encode := by
    rintro claims h secret token ⟨⟩
    rw [compactLibrary_verified mac h, if_pos rfl]
  verified_other := by
    rintro claims h secret token ⟨⟩ secret' claims' hverified
    rw [compactLibrary_verified mac h] at hverified
    split_ifs at hverified
    exact (Option.some.inj hverified).symm
  parseUuid_text := readUuid_text

/-- The service over this library is `JwtServiceImpl` as modelled before. -/
theorem compactLibrary_service (mac : (secret input : Bytes) → Bytes) (cfg : JwtConfig) :
    (compactLibrary mac).service cfg =
      ((compactLibrary mac).impl cfg fun input =>
        some (base64url (mac cfg.secret input))).service :=
  service_eq_impl fun _ => rfl

def plainConfig : JwtConfig := ⟨[1], "app-home", "app-home-users", 15, 7⟩

/-- With any message authentication code. -/
theorem token_kinds_compact :
    (0 < plainConfig.accessExpiryMinutes ∧ 0 < plainConfig.refreshExpiryDays) ∧
    ∀ mac : (secret input : Bytes) → Bytes,
    ∃ pair, ((compactLibrary mac).service plainConfig).generateTokenPair 0 7 1 9 = .ok pair ∧
      (∃ claims, ((compactLibrary mac).service plainConfig).validateAccessToken 0 pair.accessToken =
        .ok claims ∧ claims.sub = 1 ∧ claims.jti = 7 ∧ claims.exp = 900) ∧
      (∃ claims, ((compactLibrary mac).service plainConfig).validateRefreshToken 0
        pair.refreshToken = .ok claims ∧ claims.sub = 1 ∧ claims.sessionId = 9) ∧
      (compactLibrary mac).RefusedAsRefresh plainConfig pair.accessToken ∧
      (compactLibrary mac).RefusedAsAccess plainConfig pair.refreshToken ∧
      (compactLibrary mac).RefusedAsAccess
        { plainConfig with audience := "another" } pair.accessToken := by
  refine ⟨by decide, fun mac => ?_⟩
  obtain ⟨pair, hpair, haccess, hrefresh, hrefused, hrefused', hforeign⟩ :=
    token_kinds (compactLibrary mac) (compactLibrary_sound mac) plainConfig (by decide) 0 le_rfl
      (by decide) 7 1 9
  have hother := hforeign { plainConfig with audience := "another" }
    (Or.inr (by decide)) pair.accessToken
    List.mem_cons_self
  exact ⟨pair, hpair, (haccess 0 (by decide)).1, hrefresh 0 (by decide), hrefused,
    hrefused', hother.1⟩

end AppHome
