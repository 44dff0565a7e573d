/-
  Iggy.Net.Host — whether an accepted address has a host.

  Which part of a string is the scheme and which the authority is read off the string the
  way the URL standard reads it. `WhatwgHosts` is what the standard promises of the host:
  a special scheme has one, another has one exactly if an authority is written.
  `letterParse` is a parser for URLs of either kind whose authority is letters or empty.

  Proved: an accepted address has a host exactly if its scheme is http or an authority is
  written (`getHost_ne_nil_iff`), http being the one special scheme supported; the
  constructor does not look (`an_address_without_a_host`).
-/

import Iggy.Lib.Trim
import Iggy.Net.Address

namespace Iggy.Net

open Iggy.Lib.Trim

/-! ## The written parts -/

/-- A C0 control or a space. -/
def controlOrSpace (b : UInt8) : Bool := b ≤ 32

def tabOrNewline (b : UInt8) : Bool := b == 9 || b == 10 || b == 13

/-- What is left of a URL before it is read. -/
def cleaned (u : Str) : Str := (trim controlOrSpace u).filter fun b => !tabOrNewline b

/-- Before the first `:`, in lower case. -/
def writtenScheme (u : Str) : Str := ((cleaned u).takeWhile (· != 0x3a)).map tolower

/-- Between `//` after that `:` and the next `/`, `?` or `#`. -/
def writtenAuthority (u : Str) : Str :=
  match (cleaned u).dropWhile (· != 0x3a) with
  | 0x3a :: 0x2f :: 0x2f :: rest => rest.takeWhile fun b => b != 0x2f && b != 0x3f && b != 0x23
  | _ => []

def isSpecial (scheme : Str) : Bool := (specialDefaultPort scheme).isSome

/-- What the standard says of the scheme and the host of the URLs it accepts (`file` URLs
    apart). -/
structure WhatwgHosts (parse : Str → Option AdaUrl) : Prop where
  protocol : ∀ u url, parse u = some url → isScheme (writtenScheme u) = true ∧ url.protocol = writtenScheme u ++ str ":"
  special : ∀ u url, parse u = some url → isSpecial (writtenScheme u) = true → url.hostname ≠ []
  other : ∀ u url, parse u = some url → isSpecial (writtenScheme u) = false → writtenScheme u ≠ str "file" →
    (url.hostname = [] ↔ writtenAuthority u = [])

/-- The URL parser where the authority is lower-case letters, or empty. -/
def letterParse (u : Str) : Option AdaUrl :=
  if isScheme (writtenScheme u) = true ∧ (cleaned u).contains 0x3a = true ∧ (writtenAuthority u).all lower = true ∧
      (isSpecial (writtenScheme u) = true → writtenAuthority u ≠ []) then
    some ⟨writtenScheme u ++ str ":", writtenAuthority u, []⟩
  else none

theorem letterParse_whatwgHosts : WhatwgHosts letterParse := by
  have hparts : ∀ {u url}, letterParse u = some url → isScheme (writtenScheme u) = true ∧
      (isSpecial (writtenScheme u) = true → writtenAuthority u ≠ []) ∧
      url = ⟨writtenScheme u ++ str ":", writtenAuthority u, []⟩ := by
    intro u url h
    unfold letterParse at h
    split at h
    · rename_i hcond
      cases h
      exact ⟨hcond.1, hcond.2.2.2, rfl⟩
    · cases h
  refine ⟨fun u url h => ?_, fun u url h hs => ?_, fun u url h _ _ => ?_⟩
  · obtain ⟨hscheme, -, rfl⟩ := hparts h
    exact ⟨hscheme, rfl⟩
  · obtain ⟨-, hspecial, rfl⟩ := hparts h
    exact hspecial hs
  · obtain ⟨-, -, rfl⟩ := hparts h
    exact Iff.rfl

/-! ## Accepted addresses -/

theorem new_ok {parse : Str → Option AdaUrl} {u : Str} {protocolProvider : ProtocolProvider} {a : LogicalAddress}
    (h : LogicalAddress.new parse u protocolProvider = .ok a) :
    parse u = some a.url ∧ protocolProvider.isSupported a.getProtocol = .ok true ∧
      a.protocolProvider = protocolProvider := by
  unfold LogicalAddress.new at h
  split at h
  · cases h
  · rename_i value hu
    simp only at h
    split at h
    · cases h
    · cases h
    · rename_i hsup
      cases h
      exact ⟨hu, hsup, rfl⟩

theorem accepted_of_protocol {parse : Str → Option AdaUrl} {provider : IggyProtocolProvider}
    (hp : IggyProtocolProvider.new = .ok provider) {u s : Str} {a : LogicalAddress}
    (ha : LogicalAddress.new parse u provider.toProvider = .ok a) (hs : isScheme s = true)
    (hproto : a.url.protocol = s ++ str ":") : ∃ d ∈ provider.getSupportedProtocols, d.name = s := by
  obtain ⟨-, hsup, -⟩ := new_ok ha
  rw [LogicalAddress.getProtocol, hproto, strip_colon] at hsup
  obtain ⟨b, hb, hiff⟩ := isSupported_plain hp (normalizeProtocolName_scheme hs)
  exact hiff.mp (Except.ok.inj (hb.symm.trans hsup))

theorem accepted_scheme {parse : Str → Option AdaUrl} (hada : WhatwgHosts parse) {provider : IggyProtocolProvider}
    (hp : IggyProtocolProvider.new = .ok provider) {u : Str} {a : LogicalAddress}
    (ha : LogicalAddress.new parse u provider.toProvider = .ok a) :
    ∃ d ∈ provider.getSupportedProtocols, d.name = writtenScheme u := by
  obtain ⟨hu, -⟩ := new_ok ha
  obtain ⟨hscheme, hproto⟩ := hada.protocol u a.url hu
  exact accepted_of_protocol hp ha hscheme hproto

theorem getHost_ne_nil_iff {parse : Str → Option AdaUrl} (hada : WhatwgHosts parse) {provider : IggyProtocolProvider}
    (hp : IggyProtocolProvider.new = .ok provider) {u : Str} {a : LogicalAddress}
    (ha : LogicalAddress.new parse u provider.toProvider = .ok a) :
    a.getHost ≠ [] ↔ writtenScheme u = str "http" ∨ writtenAuthority u ≠ [] := by
  obtain ⟨hu, -⟩ := new_ok ha
  obtain ⟨d, hd, hname⟩ := accepted_scheme hada hp ha
  obtain ⟨-, hfile, hspecial⟩ := supported_schemes hp hd
  rw [hname] at hfile hspecial
  cases hs : isSpecial (writtenScheme u) with
  | true =>
    obtain ⟨n, hn⟩ := Option.isSome_iff_exists.mp hs
    exact iff_of_true (hada.special u a.url hu hs) (Or.inl (hspecial n hn).1)
  | false =>
    have hhttp : writtenScheme u ≠ str "http" := by
      intro h
      rw [h] at hs
      revert hs
      decide
    have hhost := hada.other u a.url hu hs hfile
    show a.url.hostname ≠ [] ↔ _
    rw [ne_eq, hhost]
    exact ⟨Or.inr, fun h => h.resolve_left hhttp⟩

/-- The address `letterParse` and the provider make of `quic://localhost`. -/
theorem quic_localhost_has_a_host :
    (⟨⟨str "quic:", str "localhost", []⟩, iggyProvider.toProvider⟩ : LogicalAddress).getHost ≠ [] :=
  (getHost_ne_nil_iff letterParse_whatwgHosts new_eq (u := str "quic://localhost") rfl).mpr (Or.inr (by decide))

/-- With an empty authority, and without one. -/
theorem an_address_without_a_host :
    WhatwgHosts letterParse ∧ IggyProtocolProvider.new = .ok iggyProvider ∧
    (∃ a, LogicalAddress.new letterParse (str "tcp:///x") iggyProvider.toProvider = .ok a ∧ a.getHost = []) ∧
    ∃ a, LogicalAddress.new letterParse (str "quic:x") iggyProvider.toProvider = .ok a ∧ a.getHost = [] :=
  ⟨letterParse_whatwgHosts, new_eq, ⟨_, rfl, rfl⟩, ⟨_, rfl, rfl⟩⟩

end Iggy.Net
