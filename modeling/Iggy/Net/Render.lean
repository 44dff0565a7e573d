/-
  Iggy.Net.Render — an address written out again from what its accessors answer.

  - `getPort_standard`: the port of a written URL's address is the one written, or, where
    the standard drops that one, the provider's default.
  - `rendered_reads_back_iff`: whatever string an address with a host of lower-case letters
    was made of, what is written from its protocol, host and port makes an address that
    answers the same, unless that is port 80 of http. A parser that drops a scheme's own
    default port, as the standard does, makes no address that answers that.
-/

import Iggy.Net.Host

namespace Iggy.Net

open Iggy.Lib.Numeral

def LogicalAddress.SameAnswers (a b : LogicalAddress) : Prop :=
  a.getProtocol = b.getProtocol ∧ a.getHost = b.getHost ∧ a.getPort = b.getPort

/-- The standard has no URL with its scheme's own default port. -/
def DropsDefaultPorts (parse : Str → Option AdaUrl) : Prop :=
  ∀ u url s n, parse u = some url → url.protocol = s ++ str ":" → specialDefaultPort s = some n →
    url.port ≠ decimal n.toNat

theorem storedPort_ne {s : Str} {n : UInt16} (h : specialDefaultPort s = some n) (port : Option UInt16) :
    storedPort s port ≠ decimal n.toNat := by
  cases port with
  | none => exact (decimal_ne_nil _).symm
  | some m =>
    by_cases hdrop : specialDefaultPort s = some m
    · have hstored : storedPort s (some m) = [] := if_pos hdrop
      rw [hstored]
      exact (decimal_ne_nil _).symm
    · have hstored : storedPort s (some m) = decimal m.toNat := if_neg hdrop
      rw [hstored]
      intro heq
      have hval : n.toNat = m.toNat := by rw [← value_decimal n.toNat, ← heq, value_decimal]
      exact hdrop (h.trans (congrArg some (UInt16.toNat_inj.mp hval)))

theorem plainParse_dropsDefaultPorts : DropsDefaultPorts plainParse := by
  intro u url s n hu hproto hn
  obtain ⟨s', h, port, -, rfl⟩ := plainParse_standardUrl hu
  obtain rfl : s' = s := List.append_cancel_right hproto
  exact storedPort_ne hn port

section Provider

variable {parse : Str → Option AdaUrl} {provider : IggyProtocolProvider}
  (hp : IggyProtocolProvider.new = .ok provider)
include hp

theorem accepted_definition (hw : ∀ u url, parse u = some url → WellFormed url) {u : Str} {a : LogicalAddress}
    (ha : provider.toProvider.createAddress parse u = .ok a) :
    ∃ d ∈ provider.getSupportedProtocols, a.getProtocol = d.name ∧ a.url.protocol = d.name ++ str ":" := by
  obtain ⟨hu, -⟩ := new_ok ha
  obtain ⟨s, hs, hproto⟩ := (hw u a.url hu).protocol
  obtain ⟨d, hd, rfl⟩ := accepted_of_protocol hp ha hs hproto
  exact ⟨d, hd, by rw [LogicalAddress.getProtocol, hproto, strip_colon], hproto⟩

theorem getPort_dropped {d : ProtocolDefinition} (hd : d ∈ provider.getSupportedProtocols) (h : Str)
    {port : Option UInt16} (hdrop : storedPort d.name port = []) :
    (⟨standardUrl d.name h port, provider.toProvider⟩ : LogicalAddress).getPort = .ok d.defaultPort := by
  have hname : (⟨standardUrl d.name h port, provider.toProvider⟩ : LogicalAddress).getProtocol = d.name :=
    strip_colon d.name
  exact getPort_empty hp hdrop rfl hd hname

theorem getPort_standard {d : ProtocolDefinition} (hd : d ∈ provider.getSupportedProtocols) (h : Str) (n : UInt16) :
    (⟨standardUrl d.name h (some n), provider.toProvider⟩ : LogicalAddress).getPort =
      .ok (if specialDefaultPort d.name = some n then d.defaultPort else n) := by
  by_cases hdrop : specialDefaultPort d.name = some n
  · rw [if_pos hdrop]
    exact getPort_dropped hp hd h (if_pos hdrop)
  · have hstored : storedPort d.name (some n) = decimal n.toNat := if_neg hdrop
    have hlt := n.toNat_lt
    rw [if_neg hdrop, getPort_decimal hstored (by omega), UInt16.ofNat_toNat]

/-- The standard's default port is never the provider's. -/
theorem port_kept_iff {d : ProtocolDefinition} (hd : d ∈ provider.getSupportedProtocols) (n : UInt16) :
    (if specialDefaultPort d.name = some n then d.defaultPort else n) = n ↔ ¬ (d.name = str "http" ∧ n = 80) := by
  obtain ⟨-, -, hspecial⟩ := supported_schemes hp hd
  by_cases hdrop : specialDefaultPort d.name = some n
  · obtain ⟨hhttp, rfl, hdef⟩ := hspecial n hdrop
    rw [if_pos hdrop, hdef]
    exact iff_of_false (by decide) fun h => h ⟨hhttp, rfl⟩
  · rw [if_neg hdrop]
    refine iff_of_true rfl fun h => hdrop ?_
    rw [h.1, h.2]
    rfl

theorem answers_no_http_80 (hw : ∀ u url, parse u = some url → WellFormed url) (hdrops : DropsDefaultPorts parse)
    {u : Str} {a : LogicalAddress} (ha : provider.toProvider.createAddress parse u = .ok a) :
    ¬ (a.getProtocol = str "http" ∧ a.getPort = .ok 80) := by
  intro ⟨hhttp, hport⟩
  obtain ⟨hu, -, hprov⟩ := new_ok ha
  obtain ⟨d, hd, hname, hproto⟩ := accepted_definition hp hw ha
  obtain ⟨-, -, hspecial⟩ := supported_schemes hp hd
  have h80 : specialDefaultPort d.name = some 80 := by
    rw [← hname, hhttp]
    rfl
  have hdef : d.defaultPort = 3000 := (hspecial 80 h80).2.2
  rcases (hw u a.url hu).port with he | ⟨k, hk, he⟩
  · rw [getPort_empty hp he hprov hd hname, hdef] at hport
    revert hport
    decide
  · -- the port stored is 80, which the parser drops
    rw [getPort_decimal he hk] at hport
    have h80' : k % 2 ^ 16 = 80 := congrArg UInt16.toNat (Except.ok.inj hport)
    obtain rfl : k = 80 := by omega
    exact hdrops u a.url d.name 80 hu hproto h80 he

theorem rendered_reads_back_iff (hw : ∀ u url, parse u = some url → WellFormed url) (hada : Whatwg parse) {u : Str}
    {a : LogicalAddress} (ha : provider.toProvider.createAddress parse u = .ok a) (hh : isHost a.getHost = true)
    {n : UInt16} (hn : a.getPort = .ok n) :
    ((∃ b, provider.toProvider.createAddress parse (written a.getProtocol a.getHost (some n)) = .ok b ∧
        b.SameAnswers a) ↔ ¬ (a.getProtocol = str "http" ∧ n = 80)) ∧
      (DropsDefaultPorts parse → ¬ (a.getProtocol = str "http" ∧ n = 80)) := by
  refine ⟨?_, fun hdrops h => answers_no_http_80 hp hw hdrops ha ⟨h.1, h.2 ▸ hn⟩⟩
  obtain ⟨d, hd, hname, -⟩ := accepted_definition hp hw ha
  obtain ⟨hscheme, hfile, -⟩ := supported_schemes hp hd
  rw [hname, ← port_kept_iff hp hd n]
  have hnew := new_supported hp (hada d.name a.getHost (some n) hscheme hfile hh) hd rfl
  have hport := getPort_standard hp hd a.getHost n
  constructor
  · intro ⟨b, hb, _, _, hsame⟩
    rw [ProtocolProvider.createAddress, hnew] at hb
    cases hb
    rw [hport, hn] at hsame
    exact Except.ok.inj hsame
  · intro hkeep
    refine ⟨_, hnew, (strip_colon d.name).trans hname.symm, rfl, ?_⟩
    rw [hport, hn, hkeep]

end Provider

/-- The address of `http://localhost:80`, which answers 3000, written out with that port. -/
theorem http_3000_reads_back :
    ∃ b, iggyProvider.toProvider.createAddress plainParse
        (written (str "http") (str "localhost") (some 3000)) = .ok b ∧
      b.SameAnswers ⟨standardUrl (str "http") (str "localhost") (some 80), iggyProvider.toProvider⟩ := by
  have hd : (⟨str "http", 3000, .http, false, .text, rfl⟩ : ProtocolDefinition) ∈
      iggyProvider.getSupportedProtocols := by decide
  have hparse := plainParse_whatwg (str "http") (str "localhost") (some 80) (by decide) (by decide) (by decide)
  have ha : iggyProvider.toProvider.createAddress plainParse (written (str "http") (str "localhost") (some 80)) = _ :=
    new_supported new_eq hparse hd rfl
  have hdrop : storedPort (str "http") (some 80) = [] := by decide
  have hport := getPort_dropped new_eq hd (str "localhost") hdrop
  have h := rendered_reads_back_iff new_eq plainParse_wellFormed plainParse_whatwg ha (by decide) hport
  exact h.1.mpr (h.2 plainParse_dropsDefaultPorts)

end Iggy.Net
