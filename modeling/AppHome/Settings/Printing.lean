import AppHome.Lib.DebugFmt
import AppHome.Settings.Database

/-!
# Printing the settings

`Settings` has a `Debug` of its own, which cuts the database URL down to what follows its last at
sign and prints the other fields as they are.

* `FullSettings.debug` : the `{:?}` and `{:#?}` of the settings;
* `debug_eq_iff` : what a reader of the text learns of the two URLs;
* `UrlParts`, `Userinfo` : a URL with and without the user and the password in it;
* `debug_hides_iff` : when the text is the same for all users and passwords.
-/

namespace AppHome

open DebugFmt

/-! ## Addresses -/

/-- The digits of a number, from the most significant one. -/
def bigEndian (base count n : Nat) : List Nat :=
  (List.range count).map fun k => n / base ^ (count - 1 - k) % base

def ipv4Text (bits : Nat) : List Char :=
  ['.'].intercalate ((bigEndian 256 4 bits).map (Nat.toDigits 10))

structure Span where
  start : Nat
  len : Nat

/-- The longest run of zeros, the first one of its length. -/
def zeroRun (segments : List Nat) : Span :=
  let step (spans : Span × Span) (entry : Nat × Nat) : Span × Span :=
    let (longest, current) := spans
    if entry.1 = 0 then
      let current : Span := ⟨if current.len = 0 then entry.2 else current.start, current.len + 1⟩
      (if current.len > longest.len then current else longest, current)
    else (longest, ⟨0, 0⟩)
  (segments.zipIdx.foldl step (⟨0, 0⟩, ⟨0, 0⟩)).1

def ipv6Text (bits : Nat) : List Char :=
  let segments := bigEndian 65536 8 bits
  let subslice (segments : List Nat) := [':'].intercalate (segments.map lowerHex)
  -- an IPv4 address in its IPv6 form is written with its dots
  if bits / 2 ^ 32 = 0xFFFF then "::ffff:".toList ++ ipv4Text (bits % 2 ^ 32)
  else
    let zeros := zeroRun segments
    if zeros.len > 1 then
      subslice (segments.take zeros.start) ++ "::".toList ++ subslice
        (segments.drop (zeros.start + zeros.len))
    else subslice segments

/-- The `Debug` of `IpAddr`, which is its `Display`. -/
def IpAddr.text : IpAddr → List Char
  | .v4 bits => ipv4Text bits.toNat
  | .v6 bits => ipv6Text bits.toNat

example : (IpAddr.v6 1).text = "::1".toList := by decide +kernel
example : (IpAddr.v6 (0x20010db8 <<< 96 ||| 0x10000 ||| 2)).text = "2001:db8::1:2".toList := by
  decide +kernel
example : (IpAddr.v6 0xFFFF7F000001).text = "::ffff:127.0.0.1".toList := by decide +kernel

/-! ## The settings -/

/-- All fields of `Settings`. -/
structure FullSettings extends Settings where
  serverHost : String
  serverPort : UInt16
  tlsCertPath : Option String
  tlsKeyPath : Option String
  rateLimitMaxAttempts : UInt32
  rateLimitWindowSeconds : UInt64
  corsAllowedOrigins : String
  trustedProxyIps : List IpAddr
  redisUrl : Option String
  dbMaxConnections : UInt32
  dbMinConnections : UInt32
  dbAcquireTimeoutSeconds : UInt64
  dbIdleTimeoutSeconds : UInt64
  dbMaxLifetimeSeconds : UInt64
  metricsAllowedIps : List IpAddr
  enableSwagger : Bool
  revocationFlushIntervalSeconds : UInt64

/-- The last part of the database URL between at signs. -/
def dbSanitized (databaseUrl : String) : String :=
  ((databaseUrl.toList.splitOn '@').map String.ofList).getLast?.getD databaseUrl

section Debug
variable (tables : CharTables) (alternate : Bool)

def debugText (s : String) : List Char := quoted tables s.toList

def debugTextOption (s : Option String) : List Char :=
  debugOption alternate ((s.map String.toList).map (quoted tables))

def debugNat (n : Nat) : List Char := Nat.toDigits 10 n

def debugBool (b : Bool) : List Char := if b then "true".toList else "false".toList

def debugAddresses (ips : List IpAddr) : List Char := debugList alternate (ips.map IpAddr.text)

def FullSettings.debugFields (s : FullSettings) : List (String × List Char) :=
  [("server_host", debugText tables s.serverHost),
   ("server_port", debugNat s.serverPort.toNat),
   ("tls_cert_path", debugTextOption tables alternate s.tlsCertPath),
   ("tls_key_path", debugTextOption tables alternate s.tlsKeyPath),
   ("database_url", debugText tables ("<redacted>@" ++ dbSanitized s.databaseUrl)),
   ("rate_limit_max_attempts", debugNat s.rateLimitMaxAttempts.toNat),
   ("rate_limit_window_seconds", debugNat s.rateLimitWindowSeconds.toNat),
   ("cors_allowed_origins", debugText tables s.corsAllowedOrigins),
   ("trusted_proxy_ips", debugAddresses alternate s.trustedProxyIps),
   ("redis_url", debugTextOption tables alternate s.redisUrl),
   ("db_max_connections", debugNat s.dbMaxConnections.toNat),
   ("db_min_connections", debugNat s.dbMinConnections.toNat),
   ("db_acquire_timeout_seconds", debugNat s.dbAcquireTimeoutSeconds.toNat),
   ("db_idle_timeout_seconds", debugNat s.dbIdleTimeoutSeconds.toNat),
   ("db_max_lifetime_seconds", debugNat s.dbMaxLifetimeSeconds.toNat),
   ("db_require_ssl", debugBool s.dbRequireSsl),
   ("metrics_allowed_ips", debugAddresses alternate s.metricsAllowedIps),
   ("enable_swagger", debugBool s.enableSwagger),
   ("revocation_flush_interval_seconds", debugNat s.revocationFlushIntervalSeconds.toNat)]

/-- `{:?}`, or `{:#?}` if `alternate`. -/
def FullSettings.debug (s : FullSettings) : List Char :=
  debugStruct alternate "Settings".toList (s.debugFields tables alternate)

end Debug

/-- The form that the error messages use is this one on printable texts. -/
theorem debugText_of_printable {tables : CharTables} {s : String}
    (h : ∀ c ∈ s.toList, c ≠ '\x00' ∧ tables.graphemeExtended c = false ∧
      tables.printable c = true) :
    debugText tables s = (Text.debug s).toList := by
  have hescape : ∀ c ∈ s.toList, escape tables c = Text.escapeDebug c := by
    intro c hc
    obtain ⟨hzero, hgrapheme, hprintable⟩ := h c hc
    simp only [escape, hgrapheme, hprintable]
    fun_cases letterEscape c with
    | case1 => exact absurd rfl hzero
    | case7 c h0 ht hr hn hslash hquote =>
        simp only [Text.escapeDebug]
        rw [if_neg hquote, if_neg hslash, if_neg ht, if_neg hr, if_neg hn]
        rfl
    | _ => rfl
  rw [debugText, quoted, List.flatMap_congr hescape, Text.debug, String.toList_ofList]
  rfl

/-! ## What the text tells -/

/-- What stands before an at sign is not printed. -/
theorem dbSanitized_append (v w : List Char) :
    dbSanitized (String.ofList (v ++ '@' :: w)) = dbSanitized (String.ofList w) := by
  have hlast : (w.splitOn '@').getLast? ≠ none := by
    rw [ne_eq, List.getLast?_eq_none_iff]
    exact List.splitOn_ne_nil '@' w
  obtain ⟨last, hlast⟩ := Option.ne_none_iff_exists'.mp hlast
  simp only [dbSanitized, String.toList_ofList, List.splitOn_append_cons_self, List.getLast?_map,
    List.getLast?_append, hlast, Option.some_or, Option.map_some, Option.getD_some]

theorem dbSanitized_of_notMem {s : List Char} (h : '@' ∉ s) :
    dbSanitized (String.ofList s) = String.ofList s := by
  rw [dbSanitized, String.toList_ofList, List.splitOn_eq_singleton h]
  rfl

theorem debugTextOption_append_inj {tables : CharTables} {alternate : Bool} {o p : Option String}
    {x y : List Char}
    (h : debugTextOption tables alternate o ++ x = debugTextOption tables alternate p ++ y) :
    o = p :=
  Option.map_injective (fun _ _ => String.toList_injective) (debugOption_append_inj h)

/-- **What a reader of the text learns** of the two URLs: the end of the one and all
of the other. -/
theorem debug_eq_iff (tables : CharTables) (alternate : Bool) (s : FullSettings) (db db' : String)
    (redis redis' : Option String) :
    ({ s with databaseUrl := db, redisUrl := redis } : FullSettings).debug tables alternate =
        ({ s with databaseUrl := db', redisUrl := redis' } : FullSettings).debug tables alternate ↔
      dbSanitized db = dbSanitized db' ∧ redis = redis' := by
  constructor
  · intro h
    have hapart : List.Forall₂ (fun p q => p.1 = q.1 ∧ Apart p.2 q.2)
        (({ s with databaseUrl := db, redisUrl := redis } :
          FullSettings).debugFields tables alternate)
        (({ s with databaseUrl := db', redisUrl := redis' } :
          FullSettings).debugFields tables alternate) := by
      simp only [FullSettings.debugFields, List.forall₂_cons, List.forall₂_nil_left_iff,
        Apart.refl, and_true, true_and]
      exact ⟨quoted_apart tables _ _, fun _ _ h => congrArg _ (debugTextOption_append_inj h)⟩
    have hfields := debugStruct_inj hapart h
    simp only [FullSettings.debugFields, List.cons.injEq, Prod.mk.injEq, true_and,
      and_true] at hfields
    refine ⟨?_, debugTextOption_append_inj (congrArg (· ++ []) hfields.2)⟩
    have hdb := String.toList_injective (quoted_injective tables hfields.1)
    exact String.append_right_inj _ |>.mp hdb
  · rintro ⟨hdb, rfl⟩
    simp only [FullSettings.debug, FullSettings.debugFields, hdb]

/-! ## Users and passwords -/

/-- The userinfo of a URL. Nothing is said about the characters in it. -/
structure Userinfo where
  user : String
  password : Option String

def Userinfo.text (u : Userinfo) : String := u.user ++ u.password.elim "" (":" ++ ·)

/-- A URL around its userinfo: the scheme with the `//` after it, and everything from the host on.
Any text is one, with nothing before the userinfo and without one. -/
structure UrlParts where
  before : String
  rest : String
  notMem_before : '@' ∉ before.toList

def UrlParts.text (url : UrlParts) (u : Option Userinfo) : String :=
  url.before ++ u.elim "" (fun u => u.text ++ "@") ++ url.rest

def FullSettings.withUrls (s : FullSettings) (db : UrlParts) (u : Option Userinfo)
    (redis : Option UrlParts) (v : Option Userinfo) : FullSettings :=
  { s with databaseUrl := db.text u, redisUrl := redis.map (·.text v) }

theorem UrlParts.dbSanitized_some (url : UrlParts) (u : Userinfo) :
    dbSanitized (url.text (some u)) = dbSanitized url.rest := by
  have htext : url.text (some u) = String.ofList
      ((url.before ++ u.text).toList ++ '@' :: url.rest.toList) := by
    apply String.toList_injective
    simp [text]
  rw [htext, dbSanitized_append, String.ofList_toList]

/-- A URL without userinfo is printed from its beginning unless there is an at sign further on. -/
theorem UrlParts.dbSanitized_none (url : UrlParts) :
    dbSanitized (url.text none) = dbSanitized url.rest ↔
      '@' ∈ url.rest.toList ∨ url.before = "" := by
  have htext : url.text none = String.ofList (url.before.toList ++ url.rest.toList) := by
    apply String.toList_injective
    simp [text]
  rw [htext]
  by_cases hrest : '@' ∈ url.rest.toList
  · obtain ⟨v, w, hsplit⟩ := List.append_of_mem hrest
    rw [hsplit, ← List.append_assoc, dbSanitized_append]
    refine iff_of_true ?_ (.inl (by simp))
    rw [← String.ofList_toList (s := url.rest), hsplit, dbSanitized_append]
  · have hboth : '@' ∉ url.before.toList ++ url.rest.toList := by
      rw [List.mem_append]
      exact not_or.mpr ⟨url.notMem_before, hrest⟩
    rw [dbSanitized_of_notMem hboth, ← String.ofList_toList (s := url.rest),
      dbSanitized_of_notMem hrest]
    simp [hrest]

theorem UrlParts.dbSanitized_eq_iff (url : UrlParts) (u u' : Option Userinfo) :
    dbSanitized (url.text u) = dbSanitized (url.text u') ↔
      u.isSome = u'.isSome ∨ '@' ∈ url.rest.toList ∨ url.before = "" := by
  cases u with
  | none =>
      cases u' with
      | none => simp
      | some u' =>
          rw [url.dbSanitized_some, url.dbSanitized_none]
          simp
  | some u =>
      cases u' with
      | none =>
          rw [url.dbSanitized_some, eq_comm, url.dbSanitized_none]
          simp
      | some u' =>
          rw [url.dbSanitized_some, url.dbSanitized_some]
          simp

theorem UrlParts.text_eq_iff (url : UrlParts) (u u' : Option Userinfo) :
    url.text u = url.text u' ↔ u.map Userinfo.text = u'.map Userinfo.text := by
  have hmiddle : url.text u = url.text u' ↔
      u.elim "" (fun u => u.text ++ "@") = u'.elim "" (fun u => u.text ++ "@") := by
    simp [text]
  rw [hmiddle]
  cases u with
  | none => cases u' <;> simp
  | some u => cases u' <;> simp

/-- **When the text hides users and passwords.** Two settings that agree but for the userinfo of the
two URLs are printed alike exactly if the Redis URLs have the same userinfo, and the database URLs
both have one or both have none; the last does not matter when there is an at sign after it. -/
theorem debug_hides_iff (tables : CharTables) (alternate : Bool) (s : FullSettings) (db : UrlParts)
    (redis : Option UrlParts) (u u' v v' : Option Userinfo) :
    (s.withUrls db u redis v).debug tables alternate =
      (s.withUrls db u' redis v').debug tables alternate ↔
      (u.isSome = u'.isSome ∨ '@' ∈ db.rest.toList ∨ db.before = "") ∧
        (redis = none ∨ v.map Userinfo.text = v'.map Userinfo.text) := by
  have hredis : redis.map (·.text v) = redis.map (·.text v') ↔
      redis = none ∨ v.map Userinfo.text = v'.map Userinfo.text := by
    cases redis with
    | none => simp
    | some url => simp [url.text_eq_iff]
  rw [FullSettings.withUrls, FullSettings.withUrls, debug_eq_iff, db.dbSanitized_eq_iff, hredis]

/-- The defaults of `from_env`, with a database on the same machine. -/
def defaultSettings : FullSettings where
  databaseUrl := "postgresql://localhost/apphome"
  dbRequireSsl := false
  serverHost := "127.0.0.1"
  serverPort := 3000
  tlsCertPath := none
  tlsKeyPath := none
  rateLimitMaxAttempts := 10
  rateLimitWindowSeconds := 300
  corsAllowedOrigins := ""
  trustedProxyIps := []
  redisUrl := none
  dbMaxConnections := 10
  dbMinConnections := 0
  dbAcquireTimeoutSeconds := 30
  dbIdleTimeoutSeconds := 600
  dbMaxLifetimeSeconds := 1800
  metricsAllowedIps := []
  enableSwagger := false
  revocationFlushIntervalSeconds := 5

/-- Every character is printable. -/
def plainTables : CharTables := ⟨fun _ => false, fun _ => true⟩

def localDatabase : UrlParts := ⟨"postgresql://", "localhost/apphome", by decide +kernel⟩

def cacheServer : UrlParts := ⟨"redis://", "cache:6379", by decide +kernel⟩

/-- The default settings with a Redis server and its password. -/
def redisSettings (password : String) : FullSettings :=
  defaultSettings.withUrls localDatabase none (some cacheServer) (some ⟨"", some password⟩)

/-- The password of the Redis server stands in the text. -/
theorem redis_password_printed :
    (redisSettings "alpha").debug plainTables false ≠
      (redisSettings "beta").debug plainTables false ∧
      "redis_url: Some(\"redis://:alpha@cache:6379\")".toList <:+:
        (redisSettings "alpha").debug plainTables false := by
  decide +kernel

end AppHome
