/-
  Iggy.StdString — the functions of `<string>` and `<cctype>` the client calls, in the "C"
  locale. `std::string::npos` is `none`.
-/

import Iggy.Basic
import Iggy.Lib.Numeral
import Iggy.Lib.Scan

namespace Iggy

open Iggy.Lib.Numeral
open Iggy.Lib.Scan

def tolower (b : UInt8) : UInt8 := if 65 ≤ b ∧ b ≤ 90 then b + 32 else b

/-- `s.substr(pos, n)`; no caller passes a `pos` beyond the end. -/
def substr (s : Str) (pos n : Nat) : Str := (s.drop pos).take n

def findFirstNotOf (s set : Str) : Option Nat := firstNot (set.contains ·) s

def findLastNotOf (s set : Str) : Option Nat := lastNot (set.contains ·) s

def isspace (b : UInt8) : Bool := b == 32 || (9 ≤ b && b ≤ 13)

/-- `std::stoi`, which is `strtol` on the C view: white space, a sign, digits, and then
    anything; `int` has 32 bits. -/
def stoi (s : Str) : Except Err Int :=
  let s := (cStr s).dropWhile isspace
  let negative := s.head? == some 0x2d
  let s := if negative || s.head? == some 0x2b then s.tail else s
  let digits := s.takeWhile isDigit
  if digits = [] then .error ⟨.invalidArgument, str "stoi"⟩
  else
    let v : Int := if negative then -(value digits) else value digits
    if v < -2147483648 ∨ 2147483647 < v then .error ⟨.outOfRange, str "stoi"⟩ else .ok v

theorem isDigit_not {b : UInt8} (h : isDigit b = true) :
    b ≠ 0 ∧ isspace b = false ∧ b ≠ 0x2d ∧ b ≠ 0x2b := by
  simp only [isDigit, isspace] at *
  grind

theorem stoi_decimal {n : Nat} (h : n ≤ 2147483647) : stoi (decimal n) = .ok n := by
  have hd : ∀ b ∈ decimal n, isDigit b = true := fun b hb => isDigit_of_mem_decimal hb
  have hc : cStr (decimal n) = decimal n := cStr_eq_self fun h0 => (isDigit_not (hd 0 h0)).1 rfl
  obtain ⟨c, cs, hcs⟩ : ∃ c cs, decimal n = c :: cs := List.exists_cons_of_ne_nil (decimal_ne_nil n)
  obtain ⟨-, hsp, hminus, hplus⟩ := isDigit_not (hd c (by rw [hcs]; exact List.mem_cons_self))
  have hdrop : (decimal n).dropWhile isspace = decimal n := by
    rw [hcs]
    exact dropWhile_of_stops (stops_cons cs hsp)
  have hhead : (decimal n).head? = some c := by rw [hcs]; rfl
  have htake : (decimal n).takeWhile isDigit = decimal n := List.takeWhile_eq_self_iff.mpr hd
  have hm : (some c == some (0x2d : UInt8)) = false := by simpa using hminus
  have hp : (some c == some (0x2b : UInt8)) = false := by simpa using hplus
  simp only [stoi, hc, hdrop, hhead, hm, hp, Bool.or_self, Bool.false_eq_true, if_false, htake, decimal_ne_nil,
    value_decimal]
  rw [if_neg (by omega)]

theorem substr_split (a m b : Str) : substr (a ++ (m ++ b)) a.length m.length = m := by
  simp [substr]

end Iggy
