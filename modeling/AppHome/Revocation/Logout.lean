import AppHome.Revocation.Backends
import AppHome.Shared.Http
import AppHome.Shared.Jwt

/-!
# Logging out revokes the access token

`logout_handler` puts the presented token on the revocation list for the whole seconds that are left
of `exp` plus the leeway. The extractor of later requests compares `exp` with the whole seconds of
its own clock, and asks the list.

* `fromRequestParts` : the `AuthenticatedUser` extractor;
* `afterLogout` : the list once `logout_handler` has revoked the token;
* `covers_afterLogout` : when the entry outlives the last second in which the token decodes;
* `Blacklist.Access.Admitted` : the calls that may follow, of which a revocation of the same token
  is made after the second in which its own TTL was computed;
* `logout_rejects_iff` : with such calls to follow, the token stays rejected exactly when the entry
  was made after the second in which its TTL was computed, or the token could not be decoded any
  more when logout returned.
-/

namespace AppHome

/-! ## The extractor -/

structure AccessClaims where
  sub : Uuid
  jti : Uuid
  exp : Int
  deriving DecidableEq

structure AuthenticatedUser where
  userId : Uuid
  jti : Uuid
  exp : Int
  deriving DecidableEq

structure AuthRejection where
  deriving DecidableEq

/-- The checks of a token that do not depend on the time (signature, algorithm, issuer, audience,
the claims' shape), with the claims they yield. -/
structure JwtVerification where
  claims : Bytes → Option AccessClaims

/-- `JwtVerification::decode`. -/
def JwtVerification.decode (v : JwtVerification) (token : Bytes) (now : Instant) :
    Option AccessClaims :=
  (v.claims token).filter fun c => expAccepted c.exp now

/-- The bytes of `"Bearer "`. -/
def bearer : Bytes := [66, 101, 97, 114, 101, 114, 32]

/-- The token of the `Authorization` header. -/
def bearerToken (headers : HeaderMap) : Option Bytes :=
  ((headers.get .authorization).bind toStr).bind fun value =>
    if value.take bearer.length = bearer then some (value.drop bearer.length) else none

/-- `AuthenticatedUser::from_request_parts`. A list that cannot be asked lets the token pass. -/
def fromRequestParts (v : JwtVerification) (isRevoked : Uuid → Except BlacklistError Bool)
    (headers : HeaderMap) (now : Instant) : Except AuthRejection AuthenticatedUser :=
  match bearerToken headers with
  | none => .error ⟨⟩
  | some token =>
    match v.decode token now with
    | none => .error ⟨⟩
    | some claims =>
      match isRevoked claims.jti with
      | .ok true => .error ⟨⟩
      | .ok false => .ok ⟨claims.sub, claims.jti, claims.exp⟩
      | .error _ => .ok ⟨claims.sub, claims.jti, claims.exp⟩

/-- The extractor over a backend whose calls do not fail. -/
def authenticate (v : JwtVerification) (b : Blacklist) (headers : HeaderMap) (now : Instant) :
    Except AuthRejection AuthenticatedUser :=
  fromRequestParts v (fun jti => .ok (b.isRevoked jti now)) headers now

/-! ## The revocation of `logout_handler` -/

/-- `JWT_EXP_LEEWAY_SECS`, to be kept in step with `defaultLeeway`. -/
def jwtExpLeewaySecs : Int := 60

/-- `revocation_ttl_secs`. -/
def revocationTtlSecs (exp now : Int) : Nat := (exp + jwtExpLeewaySecs - now).toNat

/-- The list after `logout_handler` read the clock at `now` and the backend stored the revocation at
`revokedAt`. -/
def Blacklist.afterLogout (b : Blacklist) (user : AuthenticatedUser) (now revokedAt : Instant) :
    Blacklist :=
  b.revoke user.jti (revocationTtlSecs user.exp (timestamp now)) revokedAt

/-- The whole second in which the TTL was computed was over when the entry was made. -/
def SecondOver (now revokedAt : Instant) : Prop := ofSecs (timestamp now + 1) ≤ revokedAt

instance (now revokedAt : Instant) : Decidable (SecondOver now revokedAt) :=
  inferInstanceAs (Decidable (_ ≤ _))

/-- The instant from which the token is refused as expired. -/
def decodeEnd (exp : Int) : Instant := ofSecs (exp + defaultLeeway + 1)

/-- A call another request may make up to `t`: if it revokes the same token it comes from a logout
as well, made after the second in which its TTL was computed. -/
def Blacklist.Access.Admitted (a : Blacklist.Access) (user : AuthenticatedUser) (t : Instant) :
    Prop :=
  a.now ≤ t ∧ ∀ ttlSecs revokedAt, a = .revoke user.jti ttlSecs revokedAt →
    ∃ now, ttlSecs = revocationTtlSecs user.exp (timestamp now) ∧ SecondOver now revokedAt

/-! ## The two deadlines -/

theorem timestamp_lt_iff {t : Instant} {n : Int} : timestamp t < n ↔ t < ofSecs n := by
  unfold timestamp ofSecs nanosPerSec
  exact Int.ediv_lt_iff_lt_mul (by decide)

theorem decode_of_lt {v : JwtVerification} {token : Bytes} {claims : AccessClaims} {t : Instant}
    (hclaims : v.claims token = some claims) (ht : t < decodeEnd claims.exp) :
    v.decode token t = some claims := by
  have hlt : timestamp t < claims.exp + defaultLeeway + 1 := timestamp_lt_iff.mpr ht
  have hnot : ¬ claims.exp < timestamp t - defaultLeeway := by omega
  simp [JwtVerification.decode, expAccepted, hclaims, hnot]

theorem decode_of_le {v : JwtVerification} {token : Bytes} {claims : AccessClaims} {t : Instant}
    (hclaims : v.claims token = some claims) (ht : decodeEnd claims.exp ≤ t) :
    v.decode token t = none := by
  have hle : ¬ timestamp t < claims.exp + defaultLeeway + 1 := by
    rw [timestamp_lt_iff]
    exact not_lt.mpr ht
  have hexp : claims.exp + defaultLeeway < timestamp t := by omega
  simpa [JwtVerification.decode, expAccepted, hclaims] using hexp

section Deadlines
variable {b : Blacklist} {user : AuthenticatedUser} {now revokedAt t : Instant}

/-- The entry outlives the last second in which the token decodes. -/
theorem covers_afterLogout (hover : SecondOver now revokedAt) (hle : revokedAt ≤ t)
    (ht : t < decodeEnd user.exp) : (b.afterLogout user now revokedAt).Covers user.jti t := by
  have hstart : (timestamp now + 1) * 1000000000 ≤ revokedAt := hover
  have hend : t < (user.exp + 60 + 1) * 1000000000 := ht
  have hsec : timestamp now + 1 < user.exp + 60 + 1 := by
    have := lt_of_le_of_lt (hstart.trans hle) hend
    omega
  have httl : ((revocationTtlSecs user.exp (timestamp now) : Nat) : Int) =
      user.exp + 60 - timestamp now :=
    Int.toNat_of_nonneg (by unfold jwtExpLeewaySecs; omega)
  refine Blacklist.covers_revoke_self (by omega) (lt_of_lt_of_le hend ?_)
  rw [httl, ofSecs, nanosPerSec]
  linarith

theorem covers_apply_admitted {a : Blacklist.Access} (h : b.Covers user.jti t)
    (ha : a.Admitted user t) (ht : t < decodeEnd user.exp) : (b.apply a).Covers user.jti t := by
  refine Blacklist.covers_apply h ha.1 ?_
  intro ttlSecs revokedAt he
  obtain ⟨now, rfl, hover⟩ := ha.2 ttlSecs revokedAt he
  have hle : revokedAt ≤ t := by
    have := ha.1
    rwa [he] at this
  rw [he]
  exact covers_afterLogout hover hle ht

/-- Whatever the other requests do, a covered token stays covered while it decodes. -/
theorem covers_foldl {later : List Blacklist.Access} (h : b.Covers user.jti t)
    (hlater : ∀ a ∈ later, a.Admitted user t) (ht : t < decodeEnd user.exp) :
    (later.foldl Blacklist.apply b).Covers user.jti t := by
  induction later generalizing b with
  | nil => exact h
  | cons a later ih =>
      refine ih (covers_apply_admitted h (hlater a (List.mem_cons_self ..)) ht) fun a' ha' => ?_
      exact hlater a' (List.mem_cons_of_mem _ ha')

/-- The entry of a logout within the second of its TTL is gone before the token stops decoding. -/
theorem not_isRevoked_last (k : Backend) (hover : ¬ SecondOver now revokedAt)
    (ht : revokedAt ≤ decodeEnd user.exp - 1) :
    ((Blacklist.new k).afterLogout user now revokedAt).isRevoked user.jti
      (decodeEnd user.exp - 1) = false := by
  have hstart : revokedAt ≤ (timestamp now + 1) * 1000000000 - 1 :=
    Int.le_sub_one_of_lt (not_le.mp hover)
  refine Blacklist.isRevoked_new_revoke k _ _ ?_
  have hend : decodeEnd user.exp = (user.exp + 60 + 1) * 1000000000 := rfl
  rw [hend] at ht ⊢
  rw [ofSecs, nanosPerSec, revocationTtlSecs, jwtExpLeewaySecs]
  rcases le_total 0 (user.exp + 60 - timestamp now) with hpos | hneg
  · rw [Int.toNat_of_nonneg hpos]
    linarith
  · simpa only [Int.toNat_of_nonpos hneg, Nat.cast_zero, zero_mul, add_zero] using ht

end Deadlines

/-! ## The extractor after logout -/

section Extractor
variable {v : JwtVerification} {b : Blacklist} {headers : HeaderMap} {token : Bytes}
  {claims : AccessClaims}
  {t : Instant}

def AccessClaims.user (claims : AccessClaims) : AuthenticatedUser :=
  ⟨claims.sub, claims.jti, claims.exp⟩

theorem authenticate_expired (hheader : bearerToken headers = some token)
    (hclaims : v.claims token = some claims) (ht : decodeEnd claims.exp ≤ t) :
    authenticate v b headers t = .error ⟨⟩ := by
  simp only [authenticate, fromRequestParts, hheader, decode_of_le hclaims ht]

theorem authenticate_revoked (hheader : bearerToken headers = some token)
    (hclaims : v.claims token = some claims) (ht : t < decodeEnd claims.exp)
    (hb : b.isRevoked claims.jti t = true) : authenticate v b headers t = .error ⟨⟩ := by
  simp only [authenticate, fromRequestParts, hheader, decode_of_lt hclaims ht, hb]

theorem authenticate_free (hheader : bearerToken headers = some token)
    (hclaims : v.claims token = some claims) (ht : t < decodeEnd claims.exp)
    (hb : b.isRevoked claims.jti t = false) : authenticate v b headers t = .ok claims.user := by
  simp only [authenticate, fromRequestParts, hheader, decode_of_lt hclaims ht, hb,
    AccessClaims.user]

end Extractor

/-- **A logged-out token stays rejected exactly when** its entry was made after the second in which
the TTL was computed, or it could not be decoded any more when logout returned. Anything may have
been on the list before, and anything may follow on it, except a revocation of the same token that
is not itself made after the second of its TTL (`Admitted`): such a one can replace the entry by a
shorter one. -/
theorem logout_rejects_iff (v : JwtVerification) (k : Backend) {headers : HeaderMap} {token : Bytes}
    {claims : AccessClaims} (hheader : bearerToken headers = some token)
    (hclaims : v.claims token = some claims) {now revokedAt returned : Instant}
    (hret : revokedAt ≤ returned) :
    (∀ (before later : List Blacklist.Access) (t : Instant), returned ≤ t →
      (∀ a ∈ later, a.Admitted claims.user t) →
      authenticate v (later.foldl Blacklist.apply
        ((before.foldl Blacklist.apply (.new k)).afterLogout claims.user now revokedAt)) headers t =
        .error ⟨⟩) ↔
    SecondOver now revokedAt ∨ decodeEnd claims.exp ≤ returned := by
  constructor
  · intro h
    by_contra hno
    obtain ⟨hover, hend⟩ := not_or.mp hno
    have hlast : returned ≤ decodeEnd claims.exp - 1 := Int.le_sub_one_of_lt (not_le.mp hend)
    have hrej : authenticate v ((Blacklist.new k).afterLogout claims.user now revokedAt) headers
        (decodeEnd claims.exp - 1) = .error ⟨⟩ := h [] [] (decodeEnd claims.exp - 1) hlast (by simp)
    have hgone : ((Blacklist.new k).afterLogout claims.user now revokedAt).isRevoked claims.jti
        (decodeEnd claims.exp - 1) = false :=
      @not_isRevoked_last claims.user now revokedAt k hover (hret.trans hlast)
    rw [authenticate_free hheader hclaims (Int.sub_one_lt_of_le le_rfl) hgone] at hrej
    cases hrej
  · intro hcond before later t ht hlater
    rcases lt_or_ge t (decodeEnd claims.exp) with hlt | hge
    · have hover : SecondOver now revokedAt := by
        refine hcond.resolve_right fun hend => ?_
        exact absurd (hend.trans ht) (not_le.mpr hlt)
      refine authenticate_revoked hheader hclaims hlt (Blacklist.Covers.isRevoked ?_)
      exact covers_foldl (covers_afterLogout hover (hret.trans ht) hlt) hlater hlt
    · exact authenticate_expired hheader hclaims hge

/-! ## One token -/

/-- The token `jwt` of user 7, which expires at second 1000. -/
def plainAccessClaims : AccessClaims := ⟨7, 9, 1000⟩

def plainVerification : JwtVerification :=
  ⟨fun token => if token = [106, 119, 116] then some plainAccessClaims else none⟩

/-- `Authorization: Bearer jwt`. -/
def plainHeaders : HeaderMap :=
  [(.authorization, [66, 101, 97, 114, 101, 114, 32, 106, 119, 116])]

/-- A logout that reads the clock at 500.5 s and reaches the list at 501.0 s is final. -/
theorem logout_rejects_iff_jwt :
    bearerToken plainHeaders = some [106, 119, 116] ∧ SecondOver 500500000000 501000000000 ∧
    ∀ (k : Backend) (before later : List Blacklist.Access) (t : Instant), 501200000000 ≤ t →
      (∀ a ∈ later, a.Admitted plainAccessClaims.user t) →
      authenticate plainVerification (later.foldl Blacklist.apply ((before.foldl Blacklist.apply
        (.new k)).afterLogout plainAccessClaims.user 500500000000 501000000000)) plainHeaders t =
        .error ⟨⟩ :=
  ⟨rfl, by decide, fun k =>
    (logout_rejects_iff plainVerification k rfl rfl (by decide)).mpr (Or.inl (by decide))⟩

/-- A logout at 500.5 s of a token that was accepted at 500.4 s. Its entry ends at 1060.5 s, and at
1060.7 s, still within the leeway, the token is accepted again. -/
theorem logged_out_token_accepted :
    authenticate plainVerification (.new .memory) plainHeaders 500400000000 =
      .ok plainAccessClaims.user ∧
    authenticate plainVerification (.new .redis) plainHeaders 500400000000 =
      .ok plainAccessClaims.user ∧
    authenticate plainVerification ((Blacklist.new .memory).afterLogout plainAccessClaims.user
      500500000000 500500000000) plainHeaders 1060700000000 = .ok plainAccessClaims.user ∧
    authenticate plainVerification ((Blacklist.new .redis).afterLogout plainAccessClaims.user
      500500000000 500500000000) plainHeaders 1060700000000 = .ok plainAccessClaims.user := by
  refine ⟨rfl, rfl, rfl, rfl⟩

end AppHome
