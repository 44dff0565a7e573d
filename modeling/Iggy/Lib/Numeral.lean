/-
  Iggy.Lib.Numeral — decimal numerals in ASCII.

  `decimal n` is the numeral of `n`, without leading zeros; `value s` is the number a digit
  string denotes, with or without them. A numeral is a non-empty digit string and denotes
  its number (`decimal_ne_nil`, `isDigit_of_mem_decimal`, `value_decimal`).
-/

import Mathlib.Data.List.Basic

namespace Iggy.Lib.Numeral

def isDigit (b : UInt8) : Bool := 48 ≤ b && b ≤ 57

def value (s : List UInt8) : Nat := s.foldl (fun v b => 10 * v + (b.toNat - 48)) 0

def decimal (n : Nat) : List UInt8 := (Nat.toDigits 10 n).map fun c => UInt8.ofNat c.toNat

theorem decimal_ne_nil (n : Nat) : decimal n ≠ [] := by
  simp [decimal, Nat.toDigits_ne_nil]

theorem toNat_digit {n : Nat} {c : Char} (h : c ∈ Nat.toDigits 10 n) :
    (UInt8.ofNat c.toNat).toNat = c.toNat ∧ 48 ≤ c.toNat ∧ c.toNat ≤ 57 := by
  have hd := Nat.isDigit_of_mem_toDigits (by decide) (by decide) h
  simp only [Char.isDigit, Bool.and_eq_true, decide_eq_true_eq, ge_iff_le, UInt32.le_iff_toNat_le] at hd
  have h1 : 48 ≤ c.toNat := hd.1
  have h2 : c.toNat ≤ 57 := hd.2
  refine ⟨?_, h1, h2⟩
  rw [UInt8.toNat_ofNat']
  omega

theorem isDigit_of_mem_decimal {n : Nat} {b : UInt8} (h : b ∈ decimal n) : isDigit b = true := by
  obtain ⟨c, hc, rfl⟩ := List.mem_map.mp h
  obtain ⟨he, h1, h2⟩ := toNat_digit hc
  simp only [isDigit, Bool.and_eq_true, decide_eq_true_eq, UInt8.le_iff_toNat_le, he]
  exact ⟨h1, h2⟩

@[simp] theorem value_decimal (n : Nat) : value (decimal n) = n := by
  have hfold : ∀ (cs : List Char), (∀ c ∈ cs, (UInt8.ofNat c.toNat).toNat = c.toNat) → ∀ v,
      (cs.map fun c => UInt8.ofNat c.toNat).foldl (fun v b => 10 * v + (b.toNat - 48)) v =
        Nat.ofDigitChars 10 cs v := by
    intro cs
    induction cs with
    | nil => simp
    | cons c cs ih =>
      intro hc v
      rw [List.map_cons, List.foldl_cons, ih (fun d hd => hc d (List.mem_cons_of_mem c hd)),
        Nat.ofDigitChars_cons, hc c List.mem_cons_self]
      rfl
  rw [value, decimal, hfold _ fun c hc => (toNat_digit hc).1, Nat.ofDigitChars_ten_toDigits]

end Iggy.Lib.Numeral
