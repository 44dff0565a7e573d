/-
  Iggy.Serialization — `convertToUTF8` (sdk/serialization.h, serialization.cc).

  A `std::string` counts its bytes; utf8.h and `snprintf` see its C view, which ends at
  the first NUL. utf8.h is a parameter: `Validates` and `MakesValid` are what its two
  functions promise of the C view. `plainValid` and `plainMakeValid` are functions that
  keep the promises.

  - `strict_iff`: strict conversion accepts the valid strings and no others, except where
    a valid C view hides an invalid rest (`strict_accepts_an_invalid_rest`).
  - `lenient_iff`: lenient conversion repairs a string without losing text exactly when it
    has no NUL or is valid (`lenient_drops_what_follows_a_nul`).
  - `modes_meet`: of any string lenient conversion makes one that is no longer and that
    both modes leave alone; it is the string itself exactly if strict conversion accepts it.
  - `strict_append`: what is appended to an accepted string is accepted by itself, or not
    looked at.
-/

import Iggy.Basic
import Iggy.Lib.Utf8

namespace Iggy.Serialization

open Iggy.Lib.Utf8

/-- What `data` holds after `snprintf(data, n, "%s", source.c_str())`. -/
def snprintf (n : Nat) (source : Str) : Str := (cStr source).take (n - 1) ++ [0]

section Convert

variable (utf8valid : Str → Option Nat) (utf8makevalid : Str → Char → Str)

/-- `utf8valid` answers where the first invalid byte is, with `none` for a null pointer. -/
def convertToUTF8 (source : Str) (strict : Bool) : Except Err Str :=
  match utf8valid (cStr source) with
  | none => .ok source
  | some _ =>
    if strict then
      .error ⟨.invalidArgument, str "The input string is not a valid UTF-8 string: '" ++ source ++ str "'"⟩
    else
      let data := snprintf (source.length + 1) source
      .ok (cStr (utf8makevalid data '?'))

def Validates : Prop := ∀ p, 0 ∉ p → (utf8valid p = none ↔ WellFormed p)

/-- In place: the buffer keeps its size and stays NUL-terminated. -/
def MakesValid : Prop := ∀ p, 0 ∉ p →
  (utf8makevalid (p ++ [0]) '?').length = p.length + 1 ∧ 0 ∈ utf8makevalid (p ++ [0]) '?' ∧
    IsRepair '?' p (cStr (utf8makevalid (p ++ [0]) '?'))

end Convert

/-! ## Plain functions -/

def plainValid (p : Str) : Option Nat := firstBad p

/-- One `?` in the place of each bad byte. -/
def plainMakeValid (data : Str) (q : Char) : Str := repair q (cStr data) ++ data.drop (cStr data).length

theorem plainValid_validates : Validates plainValid := fun _ _ => firstBad_eq_none

theorem cStr_terminated {p : Str} (h : 0 ∉ p) : cStr (p ++ [0]) = p := by
  rw [cStr_append_of_notMem h]
  exact List.append_nil p

theorem plainMakeValid_makesValid : MakesValid plainMakeValid := by
  intro p h0
  have hr : 0 ∉ repair '?' p := fun h => h0 (nul_of_mem_repair (by decide) h)
  have heq : plainMakeValid (p ++ [0]) '?' = repair '?' p ++ [0] := by
    unfold plainMakeValid
    rw [cStr_terminated h0, List.drop_left]
  rw [heq, cStr_terminated hr]
  refine ⟨?_, by simp, isRepair_repair '?' p⟩
  rw [List.length_append, length_repair (by decide)]
  rfl

/-! ## The C view -/

/-- What the C view leaves out: nothing, or the first NUL and what follows. -/
def pastCStr (s : Str) : Str := s.dropWhile (· != 0)

theorem cut_cStr {s : Str} : WellFormed s ↔ WellFormed (cStr s) ∧ WellFormed (pastCStr s) := cut_wellFormed

theorem snprintf_whole (s : Str) : snprintf (s.length + 1) s = cStr s ++ [0] := by
  have hlen : (cStr s).length ≤ s.length := (List.takeWhile_sublist _).length_le
  rw [snprintf, Nat.add_sub_cancel, List.take_of_length_le hlen]

section Outcomes

variable {utf8valid : Str → Option Nat} (hv : Validates utf8valid) (utf8makevalid : Str → Char → Str)
include hv

theorem convert_valid {s : Str} (hs : WellFormed (cStr s)) (strict : Bool) :
    convertToUTF8 utf8valid utf8makevalid s strict = .ok s := by
  have h := (hv _ (nul_notMem_cStr s)).mpr hs
  simp only [convertToUTF8, h]

theorem convert_invalid {s : Str} (hs : ¬ WellFormed (cStr s)) (strict : Bool) :
    convertToUTF8 utf8valid utf8makevalid s strict =
      if strict then
        .error ⟨.invalidArgument, str "The input string is not a valid UTF-8 string: '" ++ s ++ str "'"⟩
      else .ok (cStr (utf8makevalid (cStr s ++ [0]) '?')) := by
  cases h : utf8valid (cStr s) with
  | none => exact absurd ((hv _ (nul_notMem_cStr s)).mp h) hs
  | some i => simp only [convertToUTF8, h, snprintf_whole]

end Outcomes

/-! ## Strict conversion -/

/-- The valid strings are returned as they are; the others are refused. -/
def AcceptsExactly (utf8valid : Str → Option Nat) (utf8makevalid : Str → Char → Str) (s : Str) : Prop :=
  (WellFormed s → convertToUTF8 utf8valid utf8makevalid s true = .ok s) ∧
  (¬ WellFormed s → ∃ e, convertToUTF8 utf8valid utf8makevalid s true = .error e ∧ e.kind = .invalidArgument)

theorem strict_iff {utf8valid : Str → Option Nat} (hv : Validates utf8valid) (utf8makevalid : Str → Char → Str)
    (s : Str) :
    AcceptsExactly utf8valid utf8makevalid s ↔ ¬ WellFormed (cStr s) ∨ WellFormed (pastCStr s) := by
  by_cases hc : WellFormed (cStr s)
  · have hconv : convertToUTF8 utf8valid utf8makevalid s true = .ok s := convert_valid hv utf8makevalid hc true
    constructor
    · intro ⟨_, hrefused⟩
      right
      by_cases hs : WellFormed s
      · exact (cut_cStr.mp hs).2
      · obtain ⟨e, he, -⟩ := hrefused hs
        rw [hconv] at he
        cases he
    · intro h
      have hs : WellFormed s := cut_cStr.mpr ⟨hc, h.resolve_left (fun hn => hn hc)⟩
      exact ⟨fun _ => hconv, fun hn => absurd hs hn⟩
  · have hconv := convert_invalid hv utf8makevalid hc true
    constructor
    · intro _
      exact Or.inl hc
    · intro _
      refine ⟨fun hs => absurd (cut_cStr.mp hs).1 hc, fun _ => ⟨_, hconv, rfl⟩⟩

theorem strict_accepts_a_valid_text : AcceptsExactly plainValid plainMakeValid (str "hello") :=
  (strict_iff plainValid_validates plainMakeValid (str "hello")).mpr (Or.inr (by decide))

/-- `a`, a NUL and a byte that starts no code point. -/
theorem strict_accepts_an_invalid_rest :
    Validates plainValid ∧ ¬ AcceptsExactly plainValid plainMakeValid [0x61, 0, 0x80] := by
  refine ⟨plainValid_validates, ?_⟩
  intro ⟨_, hrefused⟩
  obtain ⟨e, he, -⟩ := hrefused (by decide)
  rw [convert_valid plainValid_validates plainMakeValid (by decide)] at he
  cases he

/-! ## Lenient conversion -/

/-- A string comes back, valid, with its text, and itself accepted by strict conversion. -/
def RepairsWhole (utf8valid : Str → Option Nat) (utf8makevalid : Str → Char → Str) (s : Str) : Prop :=
  ∃ r, convertToUTF8 utf8valid utf8makevalid s false = .ok r ∧ WellFormed r ∧ (WellFormed s → r = s) ∧
    IsRepair '?' s r ∧ convertToUTF8 utf8valid utf8makevalid r true = .ok r

section Lenient

variable {utf8valid : Str → Option Nat} {utf8makevalid : Str → Char → Str} {s : Str}

theorem repairs_valid (hv : Validates utf8valid) (hs : WellFormed s) : RepairsWhole utf8valid utf8makevalid s := by
  have hc : WellFormed (cStr s) := (cut_cStr.mp hs).1
  refine ⟨s, convert_valid hv _ hc false, hs, fun _ => rfl, isRepair_self hs '?', convert_valid hv _ hc true⟩

theorem repairs_without_nul (hv : Validates utf8valid) (hm : MakesValid utf8makevalid) (h0 : 0 ∉ s) :
    RepairsWhole utf8valid utf8makevalid s := by
  by_cases hs : WellFormed s
  · exact repairs_valid hv hs
  · have hcs : cStr s = s := cStr_eq_self h0
    obtain ⟨-, -, hrep⟩ := hm s h0
    have hconv := convert_invalid hv utf8makevalid (by rwa [hcs]) false
    rw [hcs] at hconv
    refine ⟨_, hconv, hrep.wellFormed, hrep.eq_self, hrep, ?_⟩
    apply convert_valid hv
    rw [cStr_eq_self (nul_notMem_cStr _)]
    exact hrep.wellFormed

end Lenient

theorem lenient_iff {utf8valid : Str → Option Nat} {utf8makevalid : Str → Char → Str} (hv : Validates utf8valid)
    (hm : MakesValid utf8makevalid) (s : Str) :
    RepairsWhole utf8valid utf8makevalid s ↔ 0 ∉ s ∨ WellFormed s := by
  constructor
  · intro ⟨r, hr, hwf, _, hrep, _⟩
    by_cases hc : WellFormed (cStr s)
    · -- `s` itself came back
      rw [convert_valid hv utf8makevalid hc] at hr
      cases hr
      exact Or.inr hwf
    · -- a C string came back: a NUL of `s` would be missing from it
      left
      intro h0
      rw [convert_invalid hv utf8makevalid hc] at hr
      cases hr
      exact nul_notMem_cStr _ (hrep.nul_mem h0)
  · intro h
    rcases h with h0 | hs
    · exact repairs_without_nul hv hm h0
    · exact repairs_valid hv hs

theorem lenient_repairs_a_bad_byte : RepairsWhole plainValid plainMakeValid [0x68, 0x80, 0x69] :=
  (lenient_iff plainValid_validates plainMakeValid_makesValid [0x68, 0x80, 0x69]).mpr (Or.inl (by decide))

/-- A byte that starts no code point, a NUL and `a`. -/
theorem lenient_drops_what_follows_a_nul :
    Validates plainValid ∧ MakesValid plainMakeValid ∧ ¬ RepairsWhole plainValid plainMakeValid [0x80, 0, 0x61] := by
  refine ⟨plainValid_validates, plainMakeValid_makesValid, ?_⟩
  intro ⟨r, hr, _, _, hrep, _⟩
  rw [convert_invalid plainValid_validates plainMakeValid (by decide)] at hr
  cases hr
  exact nul_notMem_cStr _ (hrep.nul_mem (by decide))

/-! ## The two modes -/

theorem length_cStr_lt {t : Str} (h : 0 ∈ t) : (cStr t).length < t.length := by
  have hle : (cStr t).length ≤ t.length := (List.takeWhile_sublist _).length_le
  have hne : (cStr t).length ≠ t.length := by
    intro heq
    have hself : cStr t = t := (List.takeWhile_sublist _).eq_of_length heq
    exact nul_notMem_cStr t (hself.symm ▸ h)
  omega

section Modes

variable {utf8valid : Str → Option Nat} (hv : Validates utf8valid) (utf8makevalid : Str → Char → Str)
include hv

theorem strict_ok_iff {s r : Str} :
    convertToUTF8 utf8valid utf8makevalid s true = .ok r ↔ r = s ∧ WellFormed (cStr s) := by
  by_cases hc : WellFormed (cStr s)
  · rw [convert_valid hv utf8makevalid hc]
    constructor
    · intro h
      cases h
      exact ⟨rfl, hc⟩
    · intro h
      rw [h.1]
  · rw [convert_invalid hv utf8makevalid hc]
    exact iff_of_false (fun h => by cases h) fun h => hc h.2

/-- Accepted are the strings of a valid C view. -/
theorem accepts_iff {s : Str} : (∃ r, convertToUTF8 utf8valid utf8makevalid s true = .ok r) ↔ WellFormed (cStr s) := by
  simp only [strict_ok_iff hv utf8makevalid]
  exact ⟨fun ⟨_, h⟩ => h.2, fun h => ⟨s, rfl, h⟩⟩

variable {utf8makevalid}

/-- The repair of an invalid C view, in the same buffer. -/
theorem lenient_repair (hm : MakesValid utf8makevalid) {s : Str} (hc : ¬ WellFormed (cStr s)) :
    ∃ r, convertToUTF8 utf8valid utf8makevalid s false = .ok r ∧ r.length ≤ (cStr s).length ∧ 0 ∉ r ∧ WellFormed r := by
  obtain ⟨hlen, h0, hrep⟩ := hm (cStr s) (nul_notMem_cStr s)
  refine ⟨_, convert_invalid hv utf8makevalid hc false, ?_, nul_notMem_cStr _, hrep.wellFormed⟩
  have hlt := length_cStr_lt h0
  omega

end Modes

theorem modes_meet {utf8valid : Str → Option Nat} {utf8makevalid : Str → Char → Str} (hv : Validates utf8valid)
    (hm : MakesValid utf8makevalid) (s : Str) :
    ∃ r, convertToUTF8 utf8valid utf8makevalid s false = .ok r ∧ r.length ≤ s.length ∧
      (∀ strict, convertToUTF8 utf8valid utf8makevalid r strict = .ok r) ∧
      (r = s ↔ ∃ r', convertToUTF8 utf8valid utf8makevalid s true = .ok r') := by
  rw [accepts_iff hv utf8makevalid]
  by_cases hc : WellFormed (cStr s)
  · exact ⟨s, convert_valid hv _ hc false, Nat.le_refl _, convert_valid hv _ hc, iff_of_true rfl hc⟩
  · obtain ⟨r, hr, hlen, h0, hwf⟩ := lenient_repair hv hm hc
    have hcr : WellFormed (cStr r) := by rwa [cStr_eq_self h0]
    have hle : (cStr s).length ≤ s.length := (List.takeWhile_sublist _).length_le
    refine ⟨r, hr, by omega, convert_valid hv _ hcr, iff_of_false (fun h => hc ?_) hc⟩
    rw [← h]
    exact hcr

/-- `h`, a bad byte, a NUL and `i`. -/
theorem lenient_settles :
    ∃ r, convertToUTF8 plainValid plainMakeValid [0x68, 0x80, 0, 0x69] false = .ok r ∧ r.length ≤ 4 ∧
      (∀ strict, convertToUTF8 plainValid plainMakeValid r strict = .ok r) ∧
      (r = [0x68, 0x80, 0, 0x69] ↔
        ∃ r', convertToUTF8 plainValid plainMakeValid [0x68, 0x80, 0, 0x69] true = .ok r') :=
  modes_meet plainValid_validates plainMakeValid_makesValid [0x68, 0x80, 0, 0x69]

/-! ## Concatenation -/

theorem strict_append {utf8valid : Str → Option Nat} (hv : Validates utf8valid) (utf8makevalid : Str → Char → Str)
    {a r : Str} (ha : convertToUTF8 utf8valid utf8makevalid a true = .ok r) (b : Str) :
    (∃ r', convertToUTF8 utf8valid utf8makevalid (a ++ b) true = .ok r') ↔
      0 ∈ a ∨ ∃ r', convertToUTF8 utf8valid utf8makevalid b true = .ok r' := by
  obtain ⟨-, hwf⟩ := (strict_ok_iff hv utf8makevalid).mp ha
  rw [accepts_iff hv, accepts_iff hv]
  by_cases h0 : 0 ∈ a
  · rw [cStr_append_of_mem h0]
    exact iff_of_true hwf (Or.inl h0)
  · rw [cStr_append_of_notMem h0, wellFormed_append_iff (cStr_eq_self h0 ▸ hwf)]
    exact ⟨Or.inr, fun h => h.resolve_left h0⟩

/-- The two bytes of an accented letter are refused apart and accepted together. -/
theorem a_letter_is_appended :
    (∃ r', convertToUTF8 plainValid plainMakeValid (str "caf" ++ [0xc3, 0xa9]) true = .ok r') ↔
      0 ∈ str "caf" ∨ ∃ r', convertToUTF8 plainValid plainMakeValid [0xc3, 0xa9] true = .ok r' :=
  strict_append plainValid_validates plainMakeValid (r := str "caf")
    (convert_valid plainValid_validates plainMakeValid (by decide) true) [0xc3, 0xa9]

end Iggy.Serialization
