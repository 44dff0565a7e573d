/-
  Iggy.Net.Address — `LogicalAddress` (sdk/net/address.h, address.cc).

  A URL is what `ada::parse` makes of a string; the parser is a parameter (`parse`).
  `plainParse` is such a parser for the shape `scheme://letters[:digits]` alone.

  - `address_acceptance_exact`: of a parser whose URLs have a lower-case scheme and a port
    below 65536 or none, exactly the URLs of a supported scheme are accepted, everything
    else is an invalid argument, and no accessor of an accepted address throws.
  - `gives_back_iff`: of a parser that follows the URL standard, the address of a written
    URL reports the protocol, host and port written, unless the protocol is http and the
    port 80: the standard drops a scheme's own default port, and the provider's is 3000
    (`http_port_80_becomes_3000`).
-/

import Iggy.Net.Protocol
import Iggy.Net.Url

namespace Iggy.Net

open Iggy.Lib.Numeral
open Iggy.Lib.Scan

structure LogicalAddress where
  url : AdaUrl
  protocolProvider : ProtocolProvider

namespace LogicalAddress

def new (parse : Str → Option AdaUrl) (url : Str) (protocolProvider : ProtocolProvider) :
    Except Err LogicalAddress :=
  match parse url with
  | none => .error ⟨.invalidArgument, str "Invalid URL: " ++ url⟩
  | some value =>
    let protocol := substr value.protocol 0 (value.protocol.length - 1)
    match protocolProvider.isSupported protocol with
    | .error e => .error e
    | .ok false => .error ⟨.invalidArgument, str "Unsupported protocol: " ++ protocol⟩
    | .ok true => .ok ⟨value, protocolProvider⟩

variable (self : LogicalAddress)

/-- Of an empty protocol the source takes the first `npos` characters, which is none too. -/
def getProtocol : Str := substr self.url.protocol 0 (self.url.protocol.length - 1)

def getHost : Str := self.url.hostname

def getProtocolDefinition : Except Err ProtocolDefinition :=
  self.protocolProvider.getProtocolDefinition self.getProtocol

/-- The `int` is returned as a `uint16_t`. -/
def getPort : Except Err UInt16 :=
  if self.url.port = [] then
    match self.getProtocolDefinition with
    | .error e => .error e
    | .ok d => .ok d.defaultPort
  else
    match stoi self.url.port with
    | .error e => .error e
    | .ok port =>
      if port < 0 ∨ port > 65535 then .error ⟨.outOfRange, str "Port number out of range"⟩
      else .ok (UInt16.ofInt port)

end LogicalAddress

def ProtocolProvider.createAddress (self : ProtocolProvider) (parse : Str → Option AdaUrl) (url : Str) :
    Except Err LogicalAddress :=
  LogicalAddress.new parse url self

/-! ## Accessors -/

theorem normalizeProtocolName_scheme {s : Str} (h : isScheme s = true) : normalizeProtocolName s = .ok s := by
  apply normalizeProtocolName_plain (isScheme_ne_nil h)
  intro b hb
  have hc := schemeChar_of_isScheme h b hb
  simp only [schemeChar, lower, isDigit] at hc
  constructor
  · simp only [tolower]
    grind
  · have hw : whitespace = [32, 9, 10, 13, 12, 11] := rfl
    rw [hw]
    simp only [List.contains_cons, List.contains_nil]
    grind

theorem strip_colon (s : Str) : substr (s ++ str ":") 0 ((s ++ str ":").length - 1) = s := by
  simp [substr, str]

theorem getPort_decimal {a : LogicalAddress} {n : Nat} (ha : a.url.port = decimal n) (hn : n ≤ 65535) :
    a.getPort = .ok (UInt16.ofNat n) := by
  have hs : stoi (decimal n) = .ok n := stoi_decimal (by omega)
  simp only [LogicalAddress.getPort, ha, decimal_ne_nil, if_false, hs]
  rw [if_neg (by omega), UInt16.ofInt]
  congr 2
  omega

section Provider

variable {parse : Str → Option AdaUrl} {provider : IggyProtocolProvider}
  (hp : IggyProtocolProvider.new = .ok provider)
include hp

theorem getPort_empty {a : LogicalAddress} {d : ProtocolDefinition} (ha : a.url.port = [])
    (hprov : a.protocolProvider = provider.toProvider) (hd : d ∈ provider.getSupportedProtocols)
    (hname : a.getProtocol = d.name) : a.getPort = .ok d.defaultPort := by
  have hget : a.getProtocolDefinition = .ok d := by
    rw [LogicalAddress.getProtocolDefinition, hprov, hname]
    exact getProtocolDefinition_plain hp hd
  simp only [LogicalAddress.getPort, ha, if_true, hget]

theorem new_supported {u : Str} {url : AdaUrl} {d : ProtocolDefinition} (hu : parse u = some url)
    (hd : d ∈ provider.getSupportedProtocols) (hproto : url.protocol = d.name ++ str ":") :
    LogicalAddress.new parse u provider.toProvider = .ok ⟨url, provider.toProvider⟩ := by
  obtain ⟨b, hb, hiff⟩ := isSupported_plain hp d.canonical
  have htrue : b = true := hiff.mpr ⟨d, hd, rfl⟩
  subst htrue
  have hs : provider.toProvider.isSupported d.name = .ok true := hb
  simp only [LogicalAddress.new, hu, hproto, strip_colon, hs]

theorem new_unsupported {u s : Str} {url : AdaUrl} (hu : parse u = some url) (hs : isScheme s = true)
    (hproto : url.protocol = s ++ str ":") (hno : ∀ d ∈ provider.getSupportedProtocols, d.name ≠ s) :
    LogicalAddress.new parse u provider.toProvider =
      .error ⟨.invalidArgument, str "Unsupported protocol: " ++ s⟩ := by
  obtain ⟨b, hb, hiff⟩ := isSupported_plain hp (normalizeProtocolName_scheme hs)
  have hfalse : b = false := by
    cases b with
    | false => rfl
    | true =>
      obtain ⟨d, hd, hname⟩ := hiff.mp rfl
      exact absurd hname (hno d hd)
  subst hfalse
  have hq : provider.toProvider.isSupported s = .ok false := hb
  simp only [LogicalAddress.new, hu, hproto, strip_colon, hq]

end Provider

/-! ## Acceptance -/

/-- The parser accepts `u`, and the provider its scheme. -/
def Supported (parse : Str → Option AdaUrl) (provider : IggyProtocolProvider) (u : Str) : Prop :=
  ∃ url d, parse u = some url ∧ d ∈ provider.getSupportedProtocols ∧ url.protocol = d.name ++ str ":"

/-- The accessors of an address answer, for the protocol of its scheme. -/
def Answers (provider : IggyProtocolProvider) (a : LogicalAddress) : Prop :=
  ∃ d ∈ provider.getSupportedProtocols, a.getProtocol = d.name ∧
    ∃ port, a.getPort = .ok port ∧ (a.url.port = [] → port = d.defaultPort) ∧
      (a.url.port ≠ [] → port.toNat = value a.url.port)

theorem answers_of_supported {provider : IggyProtocolProvider} (hp : IggyProtocolProvider.new = .ok provider)
    {url : AdaUrl} (hw : WellFormed url) {d : ProtocolDefinition} (hd : d ∈ provider.getSupportedProtocols)
    (hproto : url.protocol = d.name ++ str ":") : Answers provider ⟨url, provider.toProvider⟩ := by
  have hname : (⟨url, provider.toProvider⟩ : LogicalAddress).getProtocol = d.name := by
    rw [LogicalAddress.getProtocol, hproto, strip_colon]
  refine ⟨d, hd, hname, ?_⟩
  rcases hw.port with he | ⟨n, hn, he⟩
  · exact ⟨d.defaultPort, getPort_empty hp he rfl hd hname, fun _ => rfl, fun h => absurd he h⟩
  · refine ⟨UInt16.ofNat n, getPort_decimal he hn, fun h => absurd (he.symm.trans h) (decimal_ne_nil n), fun _ => ?_⟩
    rw [he, value_decimal, UInt16.toNat_ofNat']
    omega

theorem address_acceptance_exact {parse : Str → Option AdaUrl}
    (hada : ∀ u url, parse u = some url → WellFormed url) {provider : IggyProtocolProvider}
    (hp : IggyProtocolProvider.new = .ok provider) (u : Str) :
    ((∃ a, LogicalAddress.new parse u provider.toProvider = .ok a) ↔ Supported parse provider u) ∧
    (∀ e, LogicalAddress.new parse u provider.toProvider = .error e → e.kind = .invalidArgument) ∧
    ∀ a, LogicalAddress.new parse u provider.toProvider = .ok a → parse u = some a.url ∧ Answers provider a := by
  cases hu : parse u with
  | none =>
    have hnew : LogicalAddress.new parse u provider.toProvider =
        .error ⟨.invalidArgument, str "Invalid URL: " ++ u⟩ := by
      simp only [LogicalAddress.new, hu]
    simp [hnew, Supported, hu]
  | some url =>
    have hw := hada u url hu
    obtain ⟨s, hs, hproto⟩ := hw.protocol
    by_cases hsup : ∃ d ∈ provider.getSupportedProtocols, d.name = s
    · obtain ⟨d, hd, rfl⟩ := hsup
      have hnew := new_supported hp hu hd hproto
      have hans := answers_of_supported hp hw hd hproto
      rw [hnew]
      refine ⟨iff_of_true ⟨_, rfl⟩ ⟨url, d, hu, hd, hproto⟩, ?_, ?_⟩
      · intro e he
        cases he
      · intro a ha
        cases ha
        exact ⟨rfl, hans⟩
    · have hno : ∀ d ∈ provider.getSupportedProtocols, d.name ≠ s := fun d hd h => hsup ⟨d, hd, h⟩
      rw [new_unsupported hp hu hs hproto hno]
      refine ⟨iff_of_false ?_ ?_, ?_, ?_⟩
      · intro ⟨a, ha⟩
        cases ha
      · intro ⟨url', d, hu', hd, hproto'⟩
        rw [hu] at hu'
        cases hu'
        exact hno d hd (List.append_cancel_right (hproto'.symm.trans hproto))
      · intro e he
        cases he
        rfl
      · intro a ha
        cases ha

theorem an_accepted_address :
    ∃ a, LogicalAddress.new plainParse (str "tcp+tls://localhost:1234") iggyProvider.toProvider = .ok a ∧
      Answers iggyProvider a := by
  have h := address_acceptance_exact plainParse_wellFormed new_eq (str "tcp+tls://localhost:1234")
  have hs : Supported plainParse iggyProvider (str "tcp+tls://localhost:1234") :=
    ⟨⟨str "tcp+tls:", str "localhost", str "1234"⟩, ⟨str "tcp+tls", 8090, .tcp, true, .binary, rfl⟩,
      by decide, by decide, by decide⟩
  obtain ⟨a, ha⟩ := h.1.mpr hs
  exact ⟨a, ha, (h.2.2 a ha).2⟩

/-! ## Round trips -/

/-- The address of `p://h[:port]` reports what is written. -/
def GivesBack (parse : Str → Option AdaUrl) (provider : IggyProtocolProvider) (d : ProtocolDefinition) (h : Str)
    (port : Option UInt16) : Prop :=
  ∃ a, provider.toProvider.createAddress parse (written d.name h port) = .ok a ∧ a.getProtocol = d.name ∧
    a.getHost = h ∧ a.getPort = .ok (port.getD d.defaultPort)

/-- The supported names are schemes of non-file URLs, and http alone has a default port of
    the standard's, which is not its default here. -/
theorem supported_schemes {provider : IggyProtocolProvider} (hp : IggyProtocolProvider.new = .ok provider)
    {d : ProtocolDefinition} (hd : d ∈ provider.getSupportedProtocols) :
    isScheme d.name = true ∧ d.name ≠ str "file" ∧
      ∀ n, specialDefaultPort d.name = some n → d.name = str "http" ∧ n = 80 ∧ d.defaultPort = 3000 := by
  cases hp
  simp only [IggyProtocolProvider.getSupportedProtocols, List.mem_cons, List.not_mem_nil, or_false] at hd
  rcases hd with rfl | rfl | rfl | rfl | rfl
  · exact ⟨by decide, by decide, fun n hn => by cases hn⟩
  · exact ⟨by decide, by decide, fun n hn => by cases hn⟩
  · exact ⟨by decide, by decide, fun n hn => by cases hn⟩
  · exact ⟨by decide, by decide, fun n hn => by cases hn; exact ⟨rfl, rfl, rfl⟩⟩
  · exact ⟨by decide, by decide, fun n hn => by cases hn⟩

/-- All but the port comes back in any case. -/
theorem givesBack_iff_port {parse : Str → Option AdaUrl} (hada : Whatwg parse) {provider : IggyProtocolProvider}
    (hp : IggyProtocolProvider.new = .ok provider) {d : ProtocolDefinition}
    (hd : d ∈ provider.getSupportedProtocols) {h : Str} (hh : isHost h = true) (port : Option UInt16) :
    GivesBack parse provider d h port ↔
      (⟨standardUrl d.name h port, provider.toProvider⟩ : LogicalAddress).getPort = .ok (port.getD d.defaultPort) := by
  obtain ⟨hscheme, hfile, -⟩ := supported_schemes hp hd
  have hnew := new_supported hp (hada d.name h port hscheme hfile hh) hd rfl
  constructor
  · intro ⟨a, ha, _, _, hport⟩
    rw [ProtocolProvider.createAddress, hnew] at ha
    cases ha
    exact hport
  · intro hport
    exact ⟨_, hnew, strip_colon d.name, rfl, hport⟩

theorem gives_back_iff {parse : Str → Option AdaUrl} (hada : Whatwg parse) {provider : IggyProtocolProvider}
    (hp : IggyProtocolProvider.new = .ok provider) {d : ProtocolDefinition}
    (hd : d ∈ provider.getSupportedProtocols) {h : Str} (hh : isHost h = true) (port : Option UInt16) :
    GivesBack parse provider d h port ↔ ¬ (d.name = str "http" ∧ port = some 80) := by
  rw [givesBack_iff_port hada hp hd hh]
  have hname : (⟨standardUrl d.name h port, provider.toProvider⟩ : LogicalAddress).getProtocol = d.name :=
    strip_colon d.name
  cases port with
  | none => simp [getPort_empty hp rfl rfl hd hname]
  | some n =>
    by_cases hdrop : specialDefaultPort d.name = some n
    · -- the standard drops the port written, and the provider's default takes its place
      obtain ⟨hhttp, rfl, hdef⟩ := (supported_schemes hp hd).2.2 n hdrop
      have hstored : storedPort d.name (some 80) = [] := if_pos hdrop
      rw [getPort_empty hp hstored rfl hd hname, hdef]
      simp [hhttp]
    · have hstored : storedPort d.name (some n) = decimal n.toNat := if_neg hdrop
      have hlt := n.toNat_lt
      rw [getPort_decimal hstored (by omega)]
      simp only [UInt16.ofNat_toNat, Option.getD_some, true_iff]
      intro ⟨hhttp, hn⟩
      cases hn
      exact hdrop (by rw [hhttp]; rfl)

/-- What `http://localhost:8080` says comes back. -/
theorem http_port_8080_comes_back :
    GivesBack plainParse iggyProvider ⟨str "http", 3000, .http, false, .text, rfl⟩ (str "localhost") (some 8080) :=
  (gives_back_iff plainParse_whatwg new_eq (by decide) (by decide) (some 8080)).mpr (by decide)

/-- `http://localhost:80` is an address with port 3000. -/
theorem http_port_80_becomes_3000 :
    ¬ GivesBack plainParse iggyProvider ⟨str "http", 3000, .http, false, .text, rfl⟩ (str "localhost") (some 80) := by
  intro h
  have hport := (givesBack_iff_port plainParse_whatwg new_eq (by decide) (by decide) (some 80)).mp h
  rw [getPort_empty new_eq (d := ⟨str "http", 3000, .http, false, .text, rfl⟩) rfl rfl (by decide) (by decide)] at hport
  revert hport
  decide

end Iggy.Net
