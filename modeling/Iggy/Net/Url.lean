/-
  Iggy.Net.Url — URLs as `ada::parse` returns them, and what the URL standard says of them.

  A parser is any function from strings; `WellFormed` is what the standard promises of each
  URL it returns, and `Whatwg` what it says of the URLs written `scheme://letters[:port]`.
  `plainParse` is a parser for that shape alone, and keeps both promises
  (`plainParse_wellFormed`, `plainParse_whatwg`).
-/

import Iggy.StdString

namespace Iggy.Net

open Iggy.Lib.Numeral
open Iggy.Lib.Scan

/-- What `get_protocol()`, `get_hostname()` and `get_port()` of an `ada::url` return. -/
structure AdaUrl where
  protocol : Str
  hostname : Str
  port : Str
  deriving DecidableEq, Repr

/-! ## Parsed URLs -/

def lower (b : UInt8) : Bool := 97 ≤ b && b ≤ 122

/-- `+`, `-`, `.`, a digit or a lower-case letter. -/
def schemeChar (b : UInt8) : Bool := lower b || isDigit b || b == 0x2b || b == 0x2d || b == 0x2e

def isScheme (s : Str) : Bool := s.head?.any lower && s.all schemeChar

/-- What the standard promises of every parsed URL. -/
structure WellFormed (url : AdaUrl) : Prop where
  protocol : ∃ s, isScheme s = true ∧ url.protocol = s ++ str ":"
  port : url.port = [] ∨ ∃ n, n ≤ 65535 ∧ url.port = decimal n

theorem isScheme_ne_nil {s : Str} (h : isScheme s = true) : s ≠ [] := by
  intro h0
  subst h0
  cases h

theorem schemeChar_of_isScheme {s : Str} (h : isScheme s = true) : ∀ b ∈ s, schemeChar b = true := by
  simp only [isScheme, Bool.and_eq_true, List.all_eq_true] at h
  exact h.2

/-! ## Written URLs -/

/-- The default port the URL standard itself gives a special scheme. -/
def specialDefaultPort (scheme : Str) : Option UInt16 :=
  if scheme = str "http" ∨ scheme = str "ws" then some 80
  else if scheme = str "https" ∨ scheme = str "wss" then some 443
  else if scheme = str "ftp" then some 21
  else none

/-- `p://h`, and `:n` if a port is written. -/
def written (p h : Str) : Option UInt16 → Str
  | none => p ++ (str "://" ++ h)
  | some n => p ++ (str "://" ++ (h ++ (str ":" ++ decimal n.toNat)))

/-- The port the standard stores for the port written. -/
def storedPort (scheme : Str) : Option UInt16 → Str
  | none => []
  | some n => if specialDefaultPort scheme = some n then [] else decimal n.toNat

/-- The URL the standard makes of what is written. -/
def standardUrl (s h : Str) (port : Option UInt16) : AdaUrl := ⟨s ++ str ":", h, storedPort s port⟩

def isHost (h : Str) : Bool := h ≠ [] && h.all lower

theorem isHost_cases {h : Str} (hh : isHost h = true) : (∃ c cs, h = c :: cs) ∧ ∀ b ∈ h, lower b = true := by
  simp only [isHost, Bool.and_eq_true, decide_eq_true_eq, List.all_eq_true] at hh
  exact ⟨List.exists_cons_of_ne_nil hh.1, hh.2⟩

/-- What the standard says of a written URL (`file` URLs have no port). -/
def Whatwg (parse : Str → Option AdaUrl) : Prop :=
  ∀ s h port, isScheme s = true → s ≠ str "file" → isHost h = true →
    parse (written s h port) = some (standardUrl s h port)

/-! ## A parser of plain URLs -/

/-- Splits `letters[:digits]` into the host and the port text. -/
def plainAuthority (rest : Str) : Option (Str × Str) :=
  match rest.takeWhile lower, rest.dropWhile lower with
  | [], _ => none
  | h, [] => some (h, [])
  | h, c :: digits => if c = 0x3a ∧ digits.all isDigit then some (h, digits) else none

/-- The URL parser on `scheme://letters[:digits]`; it rejects every other string. -/
def plainParse (u : Str) : Option AdaUrl :=
  let s := u.takeWhile schemeChar
  let rest := u.dropWhile schemeChar
  if isScheme s = true ∧ rest.take 3 = str "://" then
    match plainAuthority (rest.drop 3) with
    | none => none
    | some (h, digits) =>
      if digits = [] then some (standardUrl s h none)
      else if value digits ≤ 65535 then some (standardUrl s h (some (UInt16.ofNat (value digits))))
      else none
  else none

theorem standardUrl_wellFormed {s : Str} (hs : isScheme s = true) (h : Str) (port : Option UInt16) :
    WellFormed (standardUrl s h port) := by
  refine ⟨⟨s, hs, rfl⟩, ?_⟩
  cases port with
  | none => exact Or.inl rfl
  | some n =>
    have hlt := n.toNat_lt
    show storedPort s (some n) = [] ∨ _
    rw [storedPort]
    split
    · exact Or.inl rfl
    · rename_i hkeep
      exact Or.inr ⟨n.toNat, by omega, if_neg hkeep⟩

theorem plainParse_standardUrl {u : Str} {url : AdaUrl} (h : plainParse u = some url) :
    ∃ s host port, isScheme s = true ∧ url = standardUrl s host port := by
  simp only [plainParse] at h
  split at h
  · rename_i hs
    split at h
    · cases h
    · split at h
      · cases h
        exact ⟨_, _, none, hs.1, rfl⟩
      · split at h
        · cases h
          exact ⟨_, _, some _, hs.1, rfl⟩
        · cases h
  · cases h

theorem plainParse_wellFormed (u : Str) (url : AdaUrl) (h : plainParse u = some url) : WellFormed url := by
  obtain ⟨s, host, port, hs, rfl⟩ := plainParse_standardUrl h
  exact standardUrl_wellFormed hs host port

section Plain

variable {h : Str} (hh : isHost h = true)
include hh

theorem plainAuthority_host : plainAuthority h = some (h, []) := by
  obtain ⟨⟨c, cs, rfl⟩, hlower⟩ := isHost_cases hh
  have htake : (c :: cs).takeWhile lower = c :: cs := List.takeWhile_eq_self_iff.mpr hlower
  have hdrop : (c :: cs).dropWhile lower = [] := List.dropWhile_eq_nil_iff.mpr hlower
  simp only [plainAuthority, htake, hdrop]

theorem plainAuthority_port {digits : Str} (hd : ∀ b ∈ digits, isDigit b = true) :
    plainAuthority (h ++ (str ":" ++ digits)) = some (h, digits) := by
  obtain ⟨⟨c, cs, rfl⟩, hlower⟩ := isHost_cases hh
  have hstop : Stops lower (str ":" ++ digits) := stops_cons digits (by decide)
  simp only [plainAuthority, takeWhile_stops hlower hstop, dropWhile_stops hlower hstop]
  exact if_pos ⟨rfl, List.all_eq_true.mpr hd⟩

end Plain

theorem plainParse_whatwg : Whatwg plainParse := by
  intro s h port hs _ hh
  have hall := schemeChar_of_isScheme hs
  have hstop : ∀ rest, Stops schemeChar (str "://" ++ rest) := fun rest => stops_cons _ (by decide)
  have hthree : ∀ rest, (str "://" ++ rest).take 3 = str "://" ∧ (str "://" ++ rest).drop 3 = rest :=
    fun rest => ⟨rfl, rfl⟩
  cases port with
  | none =>
    simp only [plainParse, written, takeWhile_stops hall (hstop _), dropWhile_stops hall (hstop _), hthree, hs,
      and_self, if_true, plainAuthority_host hh]
  | some n =>
    have hd : ∀ b ∈ decimal n.toNat, isDigit b = true := fun b hb => isDigit_of_mem_decimal hb
    have hauth := plainAuthority_port hh hd
    have hlt := n.toNat_lt
    have hle : n.toNat ≤ 65535 := by omega
    simp only [plainParse, written, takeWhile_stops hall (hstop _), dropWhile_stops hall (hstop _), hthree, hs,
      and_self, if_true, hauth, decimal_ne_nil, if_false, value_decimal, hle, UInt16.ofNat_toNat]

end Iggy.Net
