import AppHome.Shared.Http
import AppHome.Shared.Ip

/-!
# The client address behind a trusted proxy

* `resolveClientIp` : the right-to-left walk over the first `X-Forwarded-For` line, with `X-Real-IP`
  and then the peer as fallbacks;
* `forward` : what a proxy does that adds the address it saw as the last element of the field, at
  the end of the client's last line or in a line of its own;
* `forwardedFor_eq_some_iff`, `forwardedFor_eq_none_iff` : the walk answers the last untrusted
  address;
* `get_forward` : which line the service reads;
* `resolveClientIp_forward_iff` : exactly when the address the proxy saw is the one that is
  resolved.
-/

namespace AppHome

/-! ## The code -/

/-- White space of `str::trim`, in ASCII. -/
def isWhitespace (b : UInt8) : Bool := b = 32 || (9 ≤ b && b ≤ 13)

def trim (s : Bytes) : Bytes := ((s.dropWhile isWhitespace).reverse.dropWhile isWhitespace).reverse

/-- The address of a candidate of the list, unless it is one of the proxies. -/
def untrusted (trusted : List IpAddr) (candidate : Bytes) : Option IpAddr :=
  (parseIp (trim candidate)).filter fun ip => ip ∉ trusted

/-- The walk `value.split(',').rev()`. -/
def forwardedFor (trusted : List IpAddr) (value : Bytes) : Option IpAddr :=
  (value.splitOn 44).reverse.findSome? (untrusted trusted)

/-- `X-Real-IP`, or the peer. -/
def realIpOr (peer : IpAddr) (headers : HeaderMap) : IpAddr :=
  (((headers.get .xRealIp).bind toStr).bind parseIp).getD peer

def resolveClientIp (peer : IpAddr) (headers : HeaderMap) (trusted : List IpAddr) : IpAddr :=
  if peer ∉ trusted then peer
  else (((headers.get .xForwardedFor).bind toStr).bind (forwardedFor trusted)).getD
    (realIpOr peer headers)

/-- `is_loopback`: `127.0.0.0/8` or `::1`. -/
def IpAddr.isLoopback : IpAddr → Bool
  | .v4 bits => bits >>> 24 = 127
  | .v6 bits => bits = 1

def isMetricsAccessAllowed (ip : IpAddr) (allowedIps : List IpAddr) : Bool :=
  allowedIps.isEmpty || ip.isLoopback || allowedIps.contains ip

structure MetricsGuardConfig where
  allowedIps : List IpAddr
  trustedProxyIps : List IpAddr

/-- The guard of `/metrics`; a request it refuses is answered with this status and text. -/
def metricsIpAllowlist (config : MetricsGuardConfig) (peer : IpAddr) (headers : HeaderMap) :
    Except (Nat × String) Unit :=
  if isMetricsAccessAllowed (resolveClientIp peer headers config.trustedProxyIps)
    config.allowedIps then .ok ()
  else .error (403, "Not allowed")

/-! ## The proxy -/

inductive ProxyMode where
  | append
  | newLine

/-- `, text` at the end of the last `X-Forwarded-For` line; a new line where there is none. -/
def appendToLast (text : Bytes) : HeaderMap → HeaderMap
  | [] => [(.xForwardedFor, text)]
  | line :: lines =>
    if line.1 = .xForwardedFor ∧ lines.all (fun l => l.1 ≠ .xForwardedFor) then
      (line.1, line.2 ++ 44 :: 32 :: text) :: lines
    else line :: appendToLast text lines

/-- The request as the proxy passes it on, with the address it saw written as `text`. -/
def forward (mode : ProxyMode) (text : Bytes) (headers : HeaderMap) : HeaderMap :=
  match mode with
  | .append => appendToLast text headers
  | .newLine => headers ++ [(.xForwardedFor, text)]

/-- The values of a field, line by line. -/
def HeaderMap.lines (headers : HeaderMap) (name : HeaderName) : List Bytes :=
  (headers.filter fun line => line.1 = name).map Prod.snd

/-! ## The walk -/

/-- The last address in the list that is not a proxy's. -/
def LastUntrusted (trusted : List IpAddr) (value : Bytes) (ip : IpAddr) : Prop :=
  ∃ before candidate after, value.splitOn 44 = before ++ candidate :: after ∧
    parseIp (trim candidate) = some ip ∧ ip ∉ trusted ∧
    ∀ c ∈ after, ∀ ip', parseIp (trim c) = some ip' → ip' ∈ trusted

/-- Every address in the list is a proxy's. -/
def AllTrusted (trusted : List IpAddr) (value : Bytes) : Prop :=
  ∀ c ∈ value.splitOn 44, ∀ ip, parseIp (trim c) = some ip → ip ∈ trusted

variable {trusted : List IpAddr} {value text : Bytes} {ip c peer : IpAddr} {headers : HeaderMap}

theorem untrusted_eq_some {candidate : Bytes} :
    untrusted trusted candidate = some ip ↔ parseIp (trim candidate) = some ip ∧ ip ∉ trusted := by
  simp [untrusted, Option.filter_eq_some_iff]

theorem untrusted_eq_none {candidate : Bytes} :
    untrusted trusted candidate = none ↔ ∀ ip, parseIp (trim candidate) = some ip →
      ip ∈ trusted := by
  simp [untrusted, Option.filter_eq_none_iff]

theorem forwardedFor_eq_some_iff :
    forwardedFor trusted value = some ip ↔ LastUntrusted trusted value ip := by
  unfold forwardedFor LastUntrusted
  rw [List.findSome?_eq_some_iff]
  constructor
  · rintro ⟨after, candidate, before, hsplit, hc, hafter⟩
    refine ⟨before.reverse, candidate, after.reverse, ?_, ?_⟩
    · simpa using congrArg List.reverse hsplit
    · obtain ⟨hparse, hnot⟩ := untrusted_eq_some.mp hc
      exact ⟨hparse, hnot, fun c hcm => untrusted_eq_none.mp (hafter c (List.mem_reverse.mp hcm))⟩
  · rintro ⟨before, candidate, after, hsplit, hparse, hnot, hafter⟩
    refine ⟨after.reverse, candidate, before.reverse, ?_, untrusted_eq_some.mpr ⟨hparse, hnot⟩, ?_⟩
    · simp [hsplit]
    · exact fun c hcm => untrusted_eq_none.mpr (hafter c (List.mem_reverse.mp hcm))

theorem forwardedFor_eq_none_iff :
    forwardedFor trusted value = none ↔ AllTrusted trusted value := by
  unfold forwardedFor AllTrusted
  rw [List.findSome?_eq_none_iff]
  simp only [List.mem_reverse, untrusted_eq_none]

/-! ## The element the proxy adds -/

theorem IpChar.visible {b : UInt8} (h : IpChar b) :
    isVisibleAscii b = true ∧ isWhitespace b = false ∧ b ≠ 44 := by
  unfold IpChar at h
  simp only [isVisibleAscii, isWhitespace, UInt8.le_iff_toNat_le,
    UInt8.lt_iff_toNat_lt, ← UInt8.toNat_inj,
    ne_eq, UInt8.reduceToNat, Bool.or_eq_true, Bool.and_eq_true, Bool.or_eq_false_iff,
      Bool.and_eq_false_iff, decide_eq_true_eq, decide_eq_false_iff_not] at h ⊢
  omega

section Text
variable (htext : parseIp text = some c)
include htext

theorem text_visible : visible text = true :=
  List.all_eq_true.mpr fun b hb => (parseIp_ipChar htext b hb).visible.1

theorem comma_notMem_text : 44 ∉ text := fun h => (parseIp_ipChar htext 44 h).visible.2.2 rfl

theorem trim_text : trim text = text := by
  have hkeep : ∀ s : Bytes, (∀ b ∈ s, isWhitespace b = false) → s.dropWhile isWhitespace = s := by
    intro s hs
    cases s with
    | nil => rfl
    | cons b s => simp [hs b (List.mem_cons_self ..)]
  have hws : ∀ b ∈ text, isWhitespace b = false :=
    fun b hb => (parseIp_ipChar htext b hb).visible.2.1
  rw [trim, hkeep text hws, hkeep text.reverse fun b hb =>
    hws b (List.mem_reverse.mp hb), List.reverse_reverse]

theorem trim_blank_text : trim (32 :: text) = text := by
  have hdrop : trim (32 :: text) = trim text := by simp [trim, isWhitespace]
  rw [hdrop, trim_text htext]

theorem splitOn_appended :
    (value ++ 44 :: 32 :: text).splitOn 44 = value.splitOn 44 ++ [32 :: text] := by
  have hcomma : 44 ∉ 32 :: text := by simp [comma_notMem_text htext]
  rw [List.splitOn_append_cons_self, List.splitOn_eq_singleton hcomma]

variable (hc : c ∉ trusted)
include hc

theorem forwardedFor_text : forwardedFor trusted text = some c := by
  refine forwardedFor_eq_some_iff.mpr ⟨[], text, [], ?_, ?_, hc, by simp⟩
  · exact List.splitOn_eq_singleton (comma_notMem_text htext)
  · rw [trim_text htext, htext]

theorem forwardedFor_appended (value : Bytes) :
    forwardedFor trusted (value ++ 44 :: 32 :: text) = some c := by
  refine forwardedFor_eq_some_iff.mpr
    ⟨value.splitOn 44, 32 :: text, [], splitOn_appended htext, ?_, hc, by simp⟩
  rw [trim_blank_text htext, htext]

end Text

/-! ## The line that is read -/

/-- The first `X-Forwarded-For` line after the proxy, from the lines the client sent. -/
def firstLine (mode : ProxyMode) (text : Bytes) : List Bytes → Bytes
  | [] => text
  | [v] =>
    match mode with
    | .append => v ++ 44 :: 32 :: text
    | .newLine => v
  | v :: _ :: _ => v

theorem get_eq_head? (headers : HeaderMap) (name : HeaderName) :
    headers.get name = (headers.lines name).head? := by
  simp [HeaderMap.get, HeaderMap.lines, List.head?_filter]

theorem lines_eq_nil {name : HeaderName} : headers.lines name = [] ↔ ∀ l ∈ headers, l.1 ≠ name := by
  simp [HeaderMap.lines]

theorem lines_cons (name' : HeaderName) (v : Bytes) (lines : HeaderMap) (name : HeaderName) :
    HeaderMap.lines ((name', v) :: lines) name =
      if name' = name then v :: lines.lines name else lines.lines name := by
  by_cases h : name' = name <;> simp [HeaderMap.lines, h]

theorem head?_lines_appendToLast (text : Bytes) (headers : HeaderMap) :
    ((appendToLast text headers).lines .xForwardedFor).head? =
      some (firstLine .append text (headers.lines .xForwardedFor)) := by
  induction headers with
  | nil => rfl
  | cons line lines ih =>
      obtain ⟨name, v⟩ := line
      unfold appendToLast
      split_ifs with hlast
      · obtain ⟨hx, hrest⟩ := hlast
        have hnil : HeaderMap.lines lines .xForwardedFor = [] := by
          refine lines_eq_nil.mpr fun l hl => ?_
          simpa using List.all_eq_true.mp hrest l hl
        rw [lines_cons, lines_cons, if_pos hx, if_pos hx, hnil]
        rfl
      · by_cases hx : name = .xForwardedFor
        · have hmore : HeaderMap.lines lines .xForwardedFor ≠ [] := by
            intro hnil
            refine hlast ⟨hx, List.all_eq_true.mpr fun l hl => ?_⟩
            simpa using lines_eq_nil.mp hnil l hl
          obtain ⟨w, ws, hws⟩ := List.exists_cons_of_ne_nil hmore
          rw [lines_cons, lines_cons, if_pos hx, if_pos hx, hws]
          rfl
        · rw [lines_cons, lines_cons, if_neg hx, if_neg hx, ih]

theorem get_forward (mode : ProxyMode) (text : Bytes) (headers : HeaderMap) :
    (forward mode text headers).get .xForwardedFor =
      some (firstLine mode text (headers.lines .xForwardedFor)) := by
  rw [get_eq_head?]
  cases mode with
  | append => exact head?_lines_appendToLast text headers
  | newLine =>
      have hlines : (forward .newLine text headers).lines .xForwardedFor =
          headers.lines .xForwardedFor ++ [text] := by
        simp [forward, HeaderMap.lines]
      rw [hlines]
      rcases headers.lines .xForwardedFor with _ | ⟨v, _ | ⟨w, ws⟩⟩
      · rfl
      · rfl
      · rfl

theorem get_forward_xRealIp (mode : ProxyMode) (text : Bytes) (headers : HeaderMap) :
    (forward mode text headers).get .xRealIp = headers.get .xRealIp := by
  cases mode with
  | newLine => simp [forward, HeaderMap.get]
  | append =>
      simp only [forward]
      induction headers with
      | nil => rfl
      | cons line lines ih =>
          unfold appendToLast
          split_ifs with hlast
          · simp [HeaderMap.get, hlast.1]
          · by_cases hx : line.1 = .xRealIp
            · simp [HeaderMap.get, hx]
            · simpa [HeaderMap.get, hx] using ih

/-! ## When the proxy's address is the one that is resolved -/

/-- The client's own `X-Real-IP` names the address. -/
def RealIpIs (headers : HeaderMap) (c : IpAddr) : Prop :=
  ∃ v, headers.get .xRealIp = some v ∧ visible v = true ∧ parseIp v = some c

/-- The client's line is what is read, and names the address itself: in its last untrusted element,
or in `X-Real-IP` where the line cannot be read or has none. -/
def ClientNames (trusted : List IpAddr) (headers : HeaderMap) (v : Bytes) (c : IpAddr) : Prop :=
  (visible v = true ∧ LastUntrusted trusted v c) ∨
    ((visible v = false ∨ AllTrusted trusted v) ∧ RealIpIs headers c)

/-- What the client may send: no `X-Forwarded-For` line; or, to a proxy that appends, one line that
is all visible ASCII. Otherwise it has to name its address itself. -/
def Honest (trusted : List IpAddr) (mode : ProxyMode) (headers : HeaderMap) (c : IpAddr) : Prop :=
  match headers.lines .xForwardedFor with
  | [] => True
  | [v] =>
    match mode with
    | .append => visible v = true ∨ RealIpIs headers c
    | .newLine => ClientNames trusted headers v c
  | v :: _ :: _ => ClientNames trusted headers v c

section Resolve
variable (hpeer : peer ∈ trusted) (hc : c ∉ trusted)
include hpeer hc

/-- The peer itself is a proxy, so only the header can answer with the client's address. -/
theorem realIpOr_eq_iff : realIpOr peer headers = c ↔ RealIpIs headers c := by
  have hne : peer ≠ c := ne_of_mem_of_not_mem hpeer hc
  unfold realIpOr RealIpIs toStr
  cases headers.get .xRealIp with
  | none => simpa using hne
  | some v =>
      cases hv : visible v with
      | false => simpa [hv] using hne
      | true =>
          cases hp : parseIp v with
          | none => simpa [hv, hp] using hne
          | some ip => simp [hv, hp]

theorem resolveClientIp_eq_iff {line : Bytes} (hline : headers.get .xForwardedFor = some line) :
    resolveClientIp peer headers trusted = c ↔ ClientNames trusted headers line c := by
  unfold resolveClientIp ClientNames
  rw [if_neg (not_not.mpr hpeer), hline, ← realIpOr_eq_iff hpeer hc]
  cases hv : visible line with
  | false => simp [toStr, hv]
  | true =>
      cases hf : forwardedFor trusted line with
      | none =>
          have hnone : ¬ LastUntrusted trusted line c := by
            rw [← forwardedFor_eq_some_iff, hf]
            simp
          simp [toStr, hv, hf, hnone, forwardedFor_eq_none_iff.mp hf]
      | some ip =>
          have hsome : ¬ AllTrusted trusted line := by
            rw [← forwardedFor_eq_none_iff, hf]
            simp
          simp [toStr, hv, hf, hsome, ← forwardedFor_eq_some_iff]

/-- **The address the proxy saw is resolved exactly when** the service reads the proxy's element,
that is when the client sent no `X-Forwarded-For` line, or one that is all visible ASCII to a proxy
that appends to it; or when the client names the address itself. -/
theorem resolveClientIp_forward_iff (htext : parseIp text = some c) (mode : ProxyMode)
    (headers : HeaderMap) :
    resolveClientIp peer (forward mode text headers) trusted = c ↔
      Honest trusted mode headers c := by
  have hreal : RealIpIs (forward mode text headers) c ↔ RealIpIs headers c := by
    unfold RealIpIs
    rw [get_forward_xRealIp]
  rw [resolveClientIp_eq_iff hpeer hc (get_forward mode text headers)]
  unfold Honest ClientNames
  rw [hreal]
  rcases headers.lines .xForwardedFor with _ | ⟨v, _ | ⟨w, ws⟩⟩
  · have hlast := forwardedFor_eq_some_iff.mp (forwardedFor_text htext hc)
    simp [firstLine, text_visible htext, hlast]
  · cases mode with
    | newLine => rfl
    | append =>
        have hlast := forwardedFor_eq_some_iff.mp (forwardedFor_appended htext hc v)
        have hsome : ¬ AllTrusted trusted (v ++ 44 :: 32 :: text) := by
          rw [← forwardedFor_eq_none_iff, forwardedFor_appended htext hc v]
          simp
        have hvis : visible (v ++ 44 :: 32 :: text) = visible v := by
          have ht : text.all isVisibleAscii = true := text_visible htext
          rw [visible, List.all_append, List.all_cons, List.all_cons, ht]
          simp [isVisibleAscii, visible]
        simp only [firstLine, hvis, hlast, hsome, and_true, or_false]
        cases visible v with
        | false => simp
        | true => simp
  · rfl

/-- The guard of `/metrics` then decides on the address the proxy saw. -/
theorem metricsIpAllowlist_forward (htext : parseIp text = some c) {mode : ProxyMode}
    (h : Honest trusted mode headers c) (allowedIps : List IpAddr) :
    metricsIpAllowlist ⟨allowedIps, trusted⟩ peer (forward mode text headers) =
      if isMetricsAccessAllowed c allowedIps then .ok () else .error (403, "Not allowed") := by
  unfold metricsIpAllowlist
  rw [(resolveClientIp_forward_iff hpeer hc htext mode headers).mpr h]

end Resolve

/-! ## One proxy -/

/-- The proxy 10.0.0.1, the client 203.0.113.9 and the address 6.6.6.6 it would like to have. -/
def plainProxy : IpAddr := .v4 0x0A000001

def plainClient : IpAddr := .v4 0xCB007109

def plainClientText : Bytes := [50, 48, 51, 46, 48, 46, 49, 49, 51, 46, 57]

def sixes : Bytes := [54, 46, 54, 46, 54, 46, 54]

/-- One line of visible ASCII does not help the client of a proxy that appends. -/
theorem resolveClientIp_forward_iff_plain :
    parseIp plainClientText = some plainClient ∧
    resolveClientIp plainProxy
      (forward .append plainClientText [(.xForwardedFor, sixes), (.xRealIp, sixes)]) [plainProxy] =
        plainClient :=
  ⟨rfl, (resolveClientIp_forward_iff (by decide) (by decide) rfl .append _).mpr (Or.inl rfl)⟩

/-- Three requests of the same client that resolve to 6.6.6.6: a second line, a line of the proxy's
own, and a byte outside ASCII together with `X-Real-IP`. -/
theorem client_chooses_address :
    parseIp plainClientText = some plainClient ∧ parseIp sixes = some (.v4 0x06060606) ∧
    resolveClientIp plainProxy (forward .append plainClientText
      [(.xForwardedFor, sixes), (.xForwardedFor, sixes)]) [plainProxy] = .v4 0x06060606 ∧
    resolveClientIp plainProxy (forward .newLine plainClientText [(.xForwardedFor, sixes)])
      [plainProxy] = .v4 0x06060606 ∧
    resolveClientIp plainProxy (forward .append plainClientText
      [(.xForwardedFor, [0x80]), (.xRealIp, sixes)]) [plainProxy] = .v4 0x06060606 := by
  refine ⟨rfl, rfl, ?_, ?_, ?_⟩ <;> decide +kernel

end AppHome
