import AppHome.Auth.UseCases
import AppHome.Shared.Jwt

/-!
# The JWT service

`JwtServiceImpl` mints tokens in the compact serialization. The signature under the secret, which
may fail, and the decoding of a token (all of it but the check of `exp`) are the library's;
`Formatted` says that what it decodes is written the way the service writes it.

A refresh token is longer than what bcrypt reads: `take_refreshToken` says that the first 72 bytes
of one are the same for all sessions of a user.
-/

namespace AppHome

open Interleave

/-- `"<uuid>"`. -/
def jsonUuid (u : Uuid) : Bytes := 34 :: uuidText u ++ [34]

/-- The claims as they are serialized, in the order of the fields. -/
def AccessTokenClaims.json (c : AccessTokenClaims) : Bytes :=
  jsonObject [jsonField [115, 117, 98] (jsonUuid c.sub), jsonField [106, 116, 105] (jsonUuid c.jti),
    jsonField [105, 115, 115] (jsonString c.iss), jsonField [97, 117, 100] (jsonString c.aud),
    jsonField [101, 120, 112] (intText c.exp), jsonField [105, 97, 116] (intText c.iat)]

def RefreshTokenClaims.json (c : RefreshTokenClaims) : Bytes :=
  jsonObject [jsonField [115, 117, 98] (jsonUuid c.sub),
    jsonField [115, 101, 115, 115, 105, 111, 110, 95, 105, 100] (jsonUuid c.sessionId),
    jsonField [105, 115, 115] (jsonString c.iss), jsonField [97, 117, 100] (jsonString c.aud),
    jsonField [101, 120, 112] (intText c.exp), jsonField [105, 97, 116] (intText c.iat)]

/-- `.map_err(|_| AuthError::TokenGenerationFailed)`. -/
def orGenerationFailed (token : Option Bytes) : Except AuthError Bytes :=
  token.elim (.error .tokenGenerationFailed) .ok

theorem orGenerationFailed_ok {token : Option Bytes} {t : Bytes}
    (h : orGenerationFailed token = .ok t) :
    token = some t := by
  cases token with
  | none => cases h
  | some s =>
      cases h
      rfl

theorem orGenerationFailed_ne {e : AuthError} (he : e ≠ .tokenGenerationFailed)
    (token : Option Bytes) :
    orGenerationFailed token ≠ .error e := by
  cases token with
  | none => simpa [orGenerationFailed] using he.symm
  | some t => simp [orGenerationFailed]

structure JwtServiceImpl where
  sign : Bytes → Option Bytes
  accessClaims : Bytes → Option AccessTokenClaims
  refreshClaims : Bytes → Option RefreshTokenClaims
  issuer : Bytes
  audience : Bytes
  accessExpiryMinutes : Int
  refreshExpiryDays : Int

namespace JwtServiceImpl
variable (svc : JwtServiceImpl)

/-- `jsonwebtoken::encode` with the default header. -/
def encode (claims : Bytes) : Option Bytes := (svc.sign (signingInput claims)).map (compact claims)

/-- The claims of the refresh token minted at `now`. -/
def mintedRefresh (now : Instant) (userId sessionId : Uuid) : RefreshTokenClaims :=
  ⟨userId, sessionId, svc.issuer, svc.audience, timestamp now + svc.refreshExpiryDays * 86400,
    timestamp now⟩

def mintedAccess (now : Instant) (jti userId : Uuid) : AccessTokenClaims :=
  ⟨userId, jti, svc.issuer, svc.audience, timestamp now + svc.accessExpiryMinutes * 60,
    timestamp now⟩

def service : JwtService where
  generateTokenPair := fun now jti userId sessionId => do
    let accessToken ← orGenerationFailed (svc.encode (svc.mintedAccess now jti userId).json)
    let refreshToken ← orGenerationFailed (svc.encode (svc.mintedRefresh now userId sessionId).json)
    pure ⟨accessToken, refreshToken⟩
  validateAccessToken := fun now token =>
    match (svc.accessClaims token).filter fun c => expAccepted c.exp now with
    | some claims => .ok claims
    | none => .error .tokenVerificationFailed
  validateRefreshToken := fun now token =>
    match (svc.refreshClaims token).filter fun c => expAccepted c.exp now with
    | some claims => .ok claims
    | none => .error .tokenVerificationFailed

/-- What the library decodes is a compact serialization with the default header, and its claims are
written in the order of the fields. -/
structure Formatted : Prop where
  refresh : ∀ {token claims}, svc.refreshClaims token = some claims →
    ∃ signature, token = compact claims.json signature

variable {svc}

theorem refreshToken_of_generated {now : Instant} {jti userId sessionId : Uuid} {tokens : TokenPair}
    (h : svc.service.generateTokenPair now jti userId sessionId = .ok tokens) :
    ∃ signature, tokens.refreshToken = compact
      (svc.mintedRefresh now userId sessionId).json signature := by
  obtain ⟨accessToken, -, h⟩ := (bind_eq_ok_iff _ _ _).mp h
  obtain ⟨refreshToken, hrefresh, h⟩ := (bind_eq_ok_iff _ _ _).mp h
  cases h
  obtain ⟨signature, -, htoken⟩ := Option.map_eq_some_iff.mp (orGenerationFailed_ok hrefresh)
  exact ⟨signature, htoken.symm⟩

theorem generateTokenPair_error {now : Instant} {jti userId sessionId : Uuid} {e : AuthError}
    (h : svc.service.generateTokenPair now jti userId sessionId = .error e) :
    e = .tokenGenerationFailed := by
  by_contra hne
  refine bind_ne_error (orGenerationFailed_ne hne _) (fun accessToken _ => ?_) h
  exact bind_ne_error (orGenerationFailed_ne hne _) fun refreshToken _ => by
    simp [pure, Except.pure]

theorem refreshClaims_of_valid {now : Instant} {token : Bytes} {claims : RefreshTokenClaims}
    (h : svc.service.validateRefreshToken now token = .ok claims) :
    svc.refreshClaims token = some claims := by
  simp only [service] at h
  split at h
  · next c hc =>
      cases h
      exact (Option.filter_eq_some_iff.mp hc).1
  · cases h

end JwtServiceImpl

/-! ## What bcrypt reads of a refresh token -/

/-- `bcrypt` reads the first 72 bytes: a hash matches every text that begins like the hashed one. -/
structure Bcrypt.Truncating (bcrypt : Bcrypt) : Prop where
  verify : ∀ {salt p cost hash}, bcrypt.hash salt p cost = .ok hash →
    ∀ {q}, q.take 72 = p.take 72 → bcrypt.verify q hash = .ok true

theorem RefreshTokenClaims.json_eq (c : RefreshTokenClaims) :
    ∃ rest, c.json = (123 :: 34 :: 115 :: 117 :: 98 :: 34 :: 58 :: 34 :: uuidText c.sub) ++
      rest := by
  exact ⟨_, by
    simp [RefreshTokenClaims.json, jsonObject, jsonField, jsonUuid, jsonString, jsonEscape,
      List.intercalate]
    rfl⟩

theorem RefreshTokenClaims.take_json {c c' : RefreshTokenClaims} (h : c.sub = c'.sub) :
    c.json.take 27 = c'.json.take 27 ∧ 27 ≤ c.json.length := by
  obtain ⟨rest, hc⟩ := c.json_eq
  obtain ⟨rest', hc'⟩ := c'.json_eq
  have hlen := length_uuidText c.sub
  rw [hc, hc', ← h]
  constructor
  · rw [List.take_append_of_le_length (by simp [hlen]),
      List.take_append_of_le_length (by simp [hlen])]
  · simp [hlen]
    omega

/-- **All refresh tokens of a user begin with the same 72 bytes.** -/
theorem take_refreshToken {c c' : RefreshTokenClaims} (h : c.sub = c'.sub)
    (signature signature' : Bytes) :
    (compact c.json signature).take 72 = (compact c'.json signature').take 72 := by
  obtain ⟨htake, hlen⟩ := RefreshTokenClaims.take_json h
  have hlen' := (RefreshTokenClaims.take_json h.symm).2
  have hmin : ∀ s : Bytes, s.take 72 = (s.take 73).take 72 := fun s => by rw [List.take_take]; rfl
  rw [hmin, hmin (compact c'.json signature'), take_compact hlen, take_compact hlen', htake]

end AppHome
