/-
  Iggy.Net.Names — what `normalizeProtocolName` computes, and which protocol a name finds.

  A name is normalized by trimming its lower-case form. Two names that differ in white space
  at their ends and in the case of letters are one name, and no others are.

  - `normalizeProtocolName_eq`: normalizing is trimming the lower-case form.
  - `canonical_form`: it throws on white space only; its results are canonical; two are
    equal exactly if one name can be edited into the other.
  - `queries_agree`: the provider's two queries are one membership test, of the supported
    protocols by normalized name, but for names of white space alone, which both refuse
    (`the_empty_name_is_not_answered`).
-/

import Iggy.Lib.Trim
import Iggy.Net.Protocol

namespace Iggy.Net

open Iggy.Lib.Scan
open Iggy.Lib.Trim

/-! ## Normal forms -/

theorem normalizeProtocolName_eq (s : Str) :
    normalizeProtocolName s =
      if trim (whitespace.contains ·) (s.map tolower) = [] then
        .error ⟨.invalidArgument, str "Protocol name cannot be empty"⟩
      else .ok (trim (whitespace.contains ·) (s.map tolower)) := by
  rcases exists_split (whitespace.contains ·) (s.map tolower) with hall | ⟨a, m, b, hs, ha, hm, hb⟩
  · rw [normalizeProtocolName_of_whitespace hall, if_pos (trim_eq_nil_iff.mpr hall)]
  · rw [normalizeProtocolName_of_lower hs ha hm hb, hs, trim_split ha hm hb, if_neg hm.ne_nil]

/-- `x` and `y` are one ASCII letter in its two cases. -/
def OtherCase (x y : UInt8) : Prop := (65 ≤ x ∧ x ≤ 90 ∧ y = x + 32) ∨ (97 ≤ x ∧ x ≤ 122 ∧ y = x - 32)

theorem OtherCase.symm {x y : UInt8} (h : OtherCase x y) : OtherCase y x := by
  unfold OtherCase at *
  grind

theorem OtherCase.tolower_eq {x y : UInt8} (h : OtherCase x y) : tolower x = tolower y := by
  unfold OtherCase at h
  unfold tolower
  grind

theorem eq_or_otherCase {x y : UInt8} (h : tolower x = tolower y) : x = y ∨ OtherCase x y := by
  unfold OtherCase
  unfold tolower at h
  grind

theorem whitespace_tolower (x : UInt8) : whitespace.contains (tolower x) = whitespace.contains x := by
  unfold tolower
  split
  · -- a letter is not white space in either case
    have hw : whitespace = [32, 9, 10, 13, 12, 11] := rfl
    rw [hw]
    grind
  · rfl

theorem all_whitespace_tolower {s : Str} :
    (∀ x ∈ s.map tolower, whitespace.contains x = true) ↔ ∀ x ∈ s, whitespace.contains x = true := by
  simp only [List.forall_mem_map, whitespace_tolower]

structure Canonical (u : Str) : Prop where
  trimmed : Trimmed (whitespace.contains ·) u
  no_upper : ∀ x ∈ u, ¬ (65 ≤ x ∧ x ≤ 90)
  fixed : normalizeProtocolName u = .ok u

theorem tolower_not_upper (x : UInt8) : ¬ (65 ≤ tolower x ∧ tolower x ≤ 90) := by
  unfold tolower
  grind

theorem normalizeProtocolName_canonical {s u : Str} (h : normalizeProtocolName s = .ok u) : Canonical u := by
  obtain ⟨hm, hsub⟩ := normalizeProtocolName_cases h
  refine ⟨hm, fun x hx => ?_, normalizeProtocolName_idem h⟩
  obtain ⟨y, -, rfl⟩ := List.mem_map.mp (hsub x hx)
  exact tolower_not_upper y

theorem normalizeProtocolName_throws_iff (s : Str) :
    (∃ e, normalizeProtocolName s = .error e ∧ e.kind = .invalidArgument) ↔
      ∀ x ∈ s, whitespace.contains x = true := by
  rw [normalizeProtocolName_eq, ← all_whitespace_tolower, ← trim_eq_nil_iff]
  split
  · rename_i h
    exact iff_of_true ⟨_, rfl, rfl⟩ h
  · rename_i h
    exact iff_of_false (fun ⟨e, he, _⟩ => by cases he) h

theorem normalizeProtocolName_returns {s : Str} (h : ¬ ∀ x ∈ s, whitespace.contains x = true) :
    ∃ u, normalizeProtocolName s = .ok u := by
  rw [← all_whitespace_tolower, ← trim_eq_nil_iff] at h
  rw [normalizeProtocolName_eq, if_neg h]
  exact ⟨_, rfl⟩

/-- Adding and dropping white space at the ends, and changing the case of letters. -/
def Respelled : Str → Str → Prop := Edits (whitespace.contains ·) OtherCase

theorem respelled_iff {s t : Str} :
    Respelled s t ↔ trim (whitespace.contains ·) (s.map tolower) = trim (whitespace.contains ·) (t.map tolower) :=
  edits_iff OtherCase.symm OtherCase.tolower_eq eq_or_otherCase whitespace_tolower

theorem normalizeProtocolName_ok_iff {s u : Str} :
    normalizeProtocolName s = .ok u ↔ u ≠ [] ∧ trim (whitespace.contains ·) (s.map tolower) = u := by
  rw [normalizeProtocolName_eq]
  split
  · rename_i h
    rw [h]
    exact iff_of_false nofun fun ⟨hne, hu⟩ => hne hu.symm
  · rename_i h
    constructor
    · intro hu
      cases hu
      exact ⟨h, rfl⟩
    · intro ⟨_, hu⟩
      rw [hu]

theorem canonical_form (s t : Str) :
    ((∃ e, normalizeProtocolName s = .error e ∧ e.kind = .invalidArgument) ↔
      ∀ x ∈ s, whitespace.contains x = true) ∧
    ((¬ ∀ x ∈ s, whitespace.contains x = true) → ∃ u, normalizeProtocolName s = .ok u ∧ Canonical u) ∧
    (∀ u v, normalizeProtocolName s = .ok u → normalizeProtocolName t = .ok v → (u = v ↔ Respelled s t)) := by
  refine ⟨normalizeProtocolName_throws_iff s, fun h => ?_, fun u v hu hv => ?_⟩
  · obtain ⟨u, hu⟩ := normalizeProtocolName_returns h
    exact ⟨u, hu, normalizeProtocolName_canonical hu⟩
  · rw [respelled_iff, (normalizeProtocolName_ok_iff.mp hu).2, (normalizeProtocolName_ok_iff.mp hv).2]

/-! ## Membership -/

/-- The two queries are one membership test on `s`: a boolean, true exactly if a supported
    protocol has the normalized name, and exactly if there is a definition, which is then
    the one protocol that has it. -/
def OneMembershipTest (provider : IggyProtocolProvider) (s : Str) : Prop :=
  ∃ b, provider.isSupported s = .ok b ∧
    (b = true ↔ ∃ d ∈ provider.getSupportedProtocols, normalizeProtocolName s = .ok d.name) ∧
    (b = true ↔ ∃ d, provider.getProtocolDefinition s = .ok d) ∧
    (∀ d, provider.getProtocolDefinition s = .ok d →
      ∀ d', d' = d ↔ d' ∈ provider.getSupportedProtocols ∧ normalizeProtocolName s = .ok d'.name) ∧
    (b = false → ∃ e, provider.getProtocolDefinition s = .error e ∧ e.kind = .invalidArgument)

theorem queries_of_normalized (provider : IggyProtocolProvider) {s u : Str} (h : normalizeProtocolName s = .ok u) :
    provider.isSupported s = .ok (provider.supportedProtocolLookup u).isSome ∧
    provider.getProtocolDefinition s =
      match provider.supportedProtocolLookup u with
      | some d => .ok d
      | none => .error ⟨.invalidArgument, str "Unsupported protocol: " ++ s⟩ := by
  unfold IggyProtocolProvider.isSupported IggyProtocolProvider.getProtocolDefinition
  rw [h]
  exact ⟨rfl, rfl⟩

theorem lookup_isSome_iff {provider : IggyProtocolProvider} (hp : IggyProtocolProvider.new = .ok provider)
    {s u : Str} (hu : normalizeProtocolName s = .ok u) :
    (provider.supportedProtocolLookup u).isSome = true ↔
      ∃ d ∈ provider.getSupportedProtocols, normalizeProtocolName s = .ok d.name := by
  rw [Option.isSome_iff_exists, hu]
  refine exists_congr fun d => (lookup_iff hp u d).trans (and_congr_right fun _ => ?_)
  rw [Except.ok.injEq, eq_comm]

theorem membership_of_normalized {provider : IggyProtocolProvider} (hp : IggyProtocolProvider.new = .ok provider)
    {s u : Str} (hu : normalizeProtocolName s = .ok u) : OneMembershipTest provider s := by
  obtain ⟨hsup, hdef⟩ := queries_of_normalized provider hu
  refine ⟨_, hsup, lookup_isSome_iff hp hu, ?_⟩
  rw [hdef]
  cases hl : provider.supportedProtocolLookup u with
  | none => exact ⟨by simp, nofun, fun _ => ⟨_, rfl, rfl⟩⟩
  | some d =>
    refine ⟨by simp, fun d0 hd0 d' => ?_, nofun⟩
    cases hd0
    have hd := (lookup_iff hp u d).mp hl
    constructor
    · intro h
      rw [h, hu, hd.2]
      exact ⟨hd.1, rfl⟩
    · intro ⟨hmem, hname⟩
      rw [hu] at hname
      have hl' := (lookup_iff hp u d').mpr ⟨hmem, (Except.ok.inj hname).symm⟩
      exact Option.some.inj (hl'.symm.trans hl)

theorem queries_throw {s : Str} (h : ∀ x ∈ s, whitespace.contains x = true) (provider : IggyProtocolProvider) :
    (∃ e, provider.isSupported s = .error e ∧ e.kind = .invalidArgument) ∧
    ∃ e, provider.getProtocolDefinition s = .error e ∧ e.kind = .invalidArgument := by
  obtain ⟨e, he, hkind⟩ := (normalizeProtocolName_throws_iff s).mpr h
  unfold IggyProtocolProvider.isSupported IggyProtocolProvider.getProtocolDefinition
  rw [he]
  exact ⟨⟨e, rfl, hkind⟩, e, rfl, hkind⟩

/-- The two queries are one membership test on every name, and both refuse white space. -/
theorem queries_agree {provider : IggyProtocolProvider} (hp : IggyProtocolProvider.new = .ok provider) (s : Str) :
    ((∃ x ∈ s, whitespace.contains x = false) → OneMembershipTest provider s) ∧
    ((∀ x ∈ s, whitespace.contains x = true) →
      (∃ e, provider.isSupported s = .error e ∧ e.kind = .invalidArgument) ∧
      ∃ e, provider.getProtocolDefinition s = .error e ∧ e.kind = .invalidArgument) := by
  refine ⟨fun ⟨x, hx, hxw⟩ => ?_, fun h => queries_throw h provider⟩
  have hnot : ¬ ∀ x ∈ s, whitespace.contains x = true := by
    intro h
    rw [h x hx] at hxw
    cases hxw
  obtain ⟨u, hu⟩ := normalizeProtocolName_returns hnot
  exact membership_of_normalized hp hu

theorem a_padded_name_is_found :
    OneMembershipTest iggyProvider (str " TCP+tls\t") ∧ iggyProvider.isSupported (str " TCP+tls\t") = .ok true := by
  have h := (queries_agree new_eq (str " TCP+tls\t")).1 ⟨84, by decide, by decide⟩
  have ⟨b, hb, hmem, _⟩ := h
  have htrue : b = true := hmem.mpr ⟨⟨str "tcp+tls", 8090, .tcp, true, .binary, rfl⟩, by decide, rfl⟩
  exact ⟨h, by rw [hb, htrue]⟩

theorem the_empty_name_is_not_answered :
    IggyProtocolProvider.new = .ok iggyProvider ∧ ¬ OneMembershipTest iggyProvider [] := by
  refine ⟨new_eq, ?_⟩
  intro ⟨b, hb, _⟩
  cases hb

end Iggy.Net
