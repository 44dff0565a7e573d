/-
  Iggy.Net.Protocol — protocol names, their definitions and the provider
  (sdk/net/protocol.h, protocol.cc, iggy.h, iggy.cc).

  A definition carries the fact that its name is in canonical form, which its constructor
  sees to. The provider's `std::map` is a function from names.

  - `normalizeProtocolName_of_lower`: the name without its white space and in lower case.
  - `normalizeProtocolName_idem`, `normalizeProtocolName_plain`: a normalized name, and one
    of lower-case characters without white space, are their own normal forms.
  - `lookup_iff`: the lookup holds exactly the supported protocols, by name.
  - `isSupported_plain` / `getProtocolDefinition_plain`: the two queries on such a name.
-/

import Iggy.Lib.Index
import Iggy.StdString

namespace Iggy.Net

open Iggy.Lib.Index
open Iggy.Lib.Scan

inductive Transport where
  | quic
  | http
  | tcp
  deriving DecidableEq, Repr

inductive MessageEncoding where
  | binary
  | text
  deriving DecidableEq, Repr

/-! ## Canonical names -/

def whitespace : Str := str " \t\n\r\x0c\x0b"

def normalizeProtocolName (protocol : Str) : Except Err Str :=
  let lowerStr := protocol.map tolower
  match findFirstNotOf lowerStr whitespace with
  | none => .error ⟨.invalidArgument, str "Protocol name cannot be empty"⟩
  | some start =>
    -- where there is a first one there is a last; were there none, `npos` takes the rest
    let stop := (findLastNotOf lowerStr whitespace).getD lowerStr.length
    .ok (substr lowerStr start (stop - start + 1))

theorem normalizeProtocolName_of_lower {s a m b : Str} (hs : s.map tolower = a ++ (m ++ b))
    (ha : ∀ x ∈ a, whitespace.contains x = true) (hm : Trimmed (whitespace.contains ·) m)
    (hb : ∀ x ∈ b, whitespace.contains x = true) : normalizeProtocolName s = .ok m := by
  have hlen : 0 < m.length := List.length_pos_iff.mpr hm.ne_nil
  have hstop : a.length + m.length - 1 - a.length + 1 = m.length := by omega
  simp only [normalizeProtocolName, findFirstNotOf, findLastNotOf, hs, firstNot_split ha hm, lastNot_split a hm hb,
    Option.getD_some, hstop, substr_split]

theorem normalizeProtocolName_of_whitespace {s : Str} (h : ∀ x ∈ s.map tolower, whitespace.contains x = true) :
    normalizeProtocolName s = .error ⟨.invalidArgument, str "Protocol name cannot be empty"⟩ := by
  have hnone : findFirstNotOf (s.map tolower) whitespace = none := by
    rw [findFirstNotOf, firstNot, List.findIdx?_eq_none_iff]
    intro x hx
    simpa using h x hx
  simp only [normalizeProtocolName, hnone]

theorem normalizeProtocolName_cases {s t : Str} (h : normalizeProtocolName s = .ok t) :
    Trimmed (whitespace.contains ·) t ∧ ∀ x ∈ t, x ∈ s.map tolower := by
  rcases exists_split (whitespace.contains ·) (s.map tolower) with hall | ⟨a, m, b, hs, ha, hm, hb⟩
  · rw [normalizeProtocolName_of_whitespace hall] at h
    cases h
  · rw [normalizeProtocolName_of_lower hs ha hm hb] at h
    cases h
    refine ⟨hm, fun x hx => ?_⟩
    rw [hs]
    simp [hx]

theorem normalizeProtocolName_trimmed {t : Str} (hm : Trimmed (whitespace.contains ·) t)
    (ht : ∀ x ∈ t, tolower x = x) : normalizeProtocolName t = .ok t := by
  have hs : t.map tolower = [] ++ (t ++ []) := by
    rw [List.nil_append, List.append_nil]
    rw [List.map_congr_left ht, List.map_id']
  apply normalizeProtocolName_of_lower hs _ hm
  · intro x hx
    cases hx
  · intro x hx
    cases hx

theorem tolower_idem (b : UInt8) : tolower (tolower b) = tolower b := by
  simp only [tolower]
  grind

theorem normalizeProtocolName_idem {s t : Str} (h : normalizeProtocolName s = .ok t) :
    normalizeProtocolName t = .ok t := by
  obtain ⟨hm, hsub⟩ := normalizeProtocolName_cases h
  apply normalizeProtocolName_trimmed hm
  intro x hx
  obtain ⟨b, -, rfl⟩ := List.mem_map.mp (hsub x hx)
  exact tolower_idem b

theorem trimmed_of_forall {p : UInt8 → Bool} {s : Str} (hne : s ≠ []) (h : ∀ x ∈ s, p x = false) : Trimmed p s := by
  refine ⟨hne, fun x hx => h x (List.mem_of_mem_head? hx), fun x hx => h x ?_⟩
  exact List.mem_reverse.mp (List.mem_of_mem_head? hx)

theorem normalizeProtocolName_plain {s : Str} (hne : s ≠ [])
    (h : ∀ x ∈ s, tolower x = x ∧ whitespace.contains x = false) : normalizeProtocolName s = .ok s :=
  normalizeProtocolName_trimmed (trimmed_of_forall hne fun x hx => (h x hx).2) fun x hx => (h x hx).1

/-! ## Definitions -/

structure ProtocolDefinition where
  name : Str
  defaultPort : UInt16
  transport : Transport
  tlsSupported : Bool
  messageEncoding : MessageEncoding
  canonical : normalizeProtocolName name = .ok name
  deriving DecidableEq

def ProtocolDefinition.new (name : Str) (defaultPort : UInt16) (transport : Transport) (tlsSupported : Bool)
    (messageEncoding : MessageEncoding) : Except Err ProtocolDefinition :=
  match h : normalizeProtocolName name with
  | .error e => .error e
  | .ok name => .ok ⟨name, defaultPort, transport, tlsSupported, messageEncoding, normalizeProtocolName_idem h⟩

/-- The virtual functions of `ProtocolProvider`. -/
structure ProtocolProvider where
  getSupportedProtocols : List ProtocolDefinition
  getProtocolDefinition : Str → Except Err ProtocolDefinition
  isSupported : Str → Except Err Bool

/-! ## `IggyProtocolProvider` -/

def DEFAULT_HTTP_PORT : UInt16 := 3000

def DEFAULT_TCP_PORT : UInt16 := 8090

def DEFAULT_QUIC_PORT : UInt16 := 8080

def supportedProtocols : Except Err (List ProtocolDefinition) := do
  let quic ← ProtocolDefinition.new (str "quic") DEFAULT_QUIC_PORT .quic true .binary
  let tcp ← ProtocolDefinition.new (str "tcp") DEFAULT_TCP_PORT .tcp false .binary
  let tcpTls ← ProtocolDefinition.new (str "tcp+tls") DEFAULT_TCP_PORT .tcp true .binary
  let http ← ProtocolDefinition.new (str "http") DEFAULT_HTTP_PORT .http false .text
  let httpTls ← ProtocolDefinition.new (str "http+tls") DEFAULT_HTTP_PORT .http true .text
  return [quic, tcp, tcpTls, http, httpTls]

structure IggyProtocolProvider where
  supportedProtocols : List ProtocolDefinition
  supportedProtocolLookup : Str → Option ProtocolDefinition

namespace IggyProtocolProvider

def new : Except Err IggyProtocolProvider := do
  let supported ← Net.supportedProtocols
  return ⟨supported, index ProtocolDefinition.name supported⟩

variable (self : IggyProtocolProvider) (protocol : Str)

def getSupportedProtocols : List ProtocolDefinition := self.supportedProtocols

def getProtocolDefinition : Except Err ProtocolDefinition := do
  let normalizedName ← normalizeProtocolName protocol
  match self.supportedProtocolLookup normalizedName with
  | some d => return d
  | none => throw ⟨.invalidArgument, str "Unsupported protocol: " ++ protocol⟩

def isSupported : Except Err Bool := do
  let normalizedName ← normalizeProtocolName protocol
  return (self.supportedProtocolLookup normalizedName).isSome

def toProvider : ProtocolProvider := ⟨self.getSupportedProtocols, self.getProtocolDefinition, self.isSupported⟩

end IggyProtocolProvider

/-- The provider the constructor builds. -/
def iggyProvider : IggyProtocolProvider :=
  let supported : List ProtocolDefinition :=
    [⟨str "quic", 8080, .quic, true, .binary, rfl⟩, ⟨str "tcp", 8090, .tcp, false, .binary, rfl⟩,
     ⟨str "tcp+tls", 8090, .tcp, true, .binary, rfl⟩, ⟨str "http", 3000, .http, false, .text, rfl⟩,
     ⟨str "http+tls", 3000, .http, true, .text, rfl⟩]
  ⟨supported, index ProtocolDefinition.name supported⟩

theorem new_eq : IggyProtocolProvider.new = .ok iggyProvider := rfl

/-! ## The lookup -/

section Provider

variable {provider : IggyProtocolProvider} (hp : IggyProtocolProvider.new = .ok provider)
include hp

theorem lookup_iff (k : Str) (d : ProtocolDefinition) :
    provider.supportedProtocolLookup k = some d ↔ d ∈ provider.getSupportedProtocols ∧ d.name = k := by
  cases hp
  exact index_iff (by decide) k d

theorem isSupported_plain {s : Str} (hs : normalizeProtocolName s = .ok s) :
    ∃ b, provider.isSupported s = .ok b ∧ (b = true ↔ ∃ d ∈ provider.getSupportedProtocols, d.name = s) := by
  refine ⟨(provider.supportedProtocolLookup s).isSome, ?_, ?_⟩
  · rw [IggyProtocolProvider.isSupported, hs]
    rfl
  · simp only [Option.isSome_iff_exists, lookup_iff hp]

theorem getProtocolDefinition_plain {d : ProtocolDefinition} (hd : d ∈ provider.getSupportedProtocols) :
    provider.getProtocolDefinition d.name = .ok d := by
  have hl := (lookup_iff hp d.name d).mpr ⟨hd, rfl⟩
  simp only [IggyProtocolProvider.getProtocolDefinition, d.canonical, bind, Except.bind, hl]
  rfl

end Provider

end Iggy.Net
