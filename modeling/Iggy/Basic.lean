/-
  Iggy.Basic — strings and exceptions, as the client's code uses them.

  A `std::string` is its bytes, embedded NUL bytes included; its C view (`c_str`) ends at
  the first NUL. An exception is its class and its message.
-/

import Mathlib.Data.List.TakeWhile

namespace Iggy

/-- A `std::string`. -/
abbrev Str := List UInt8

/-- A string literal of the source (ASCII only). -/
def str (s : String) : Str := s.toList.map fun c => UInt8.ofNat c.toNat

/-- What a C function reads of `s.c_str()`. -/
def cStr (s : Str) : Str := s.takeWhile (· != 0)

theorem nul_notMem_cStr (s : Str) : 0 ∉ cStr s := by
  intro h
  simpa using List.mem_takeWhile_imp h

theorem cStr_append_of_notMem {s : Str} (h : 0 ∉ s) (t : Str) : cStr (s ++ t) = s ++ cStr t := by
  apply List.takeWhile_append_of_pos
  intro b hb
  have hne : b ≠ 0 := fun h0 => h (h0 ▸ hb)
  simpa using hne

theorem cStr_eq_self {s : Str} (h : 0 ∉ s) : cStr s = s := by
  have happ := cStr_append_of_notMem h []
  rw [List.append_nil] at happ
  exact happ.trans (List.append_nil s)

theorem cStr_append_of_mem {s : Str} (h : 0 ∈ s) (t : Str) : cStr (s ++ t) = cStr s := by
  induction s with
  | nil => cases h
  | cons b s ih =>
    unfold cStr at ih ⊢
    rw [List.cons_append, List.takeWhile_cons, List.takeWhile_cons]
    split
    · rename_i hb
      have hs : 0 ∈ s := (List.mem_cons.mp h).resolve_left fun h0 => by simp [← h0] at hb
      rw [ih hs]
    · rfl

/-- The standard exception classes the code throws. -/
inductive ErrKind where
  | invalidArgument
  | outOfRange
  | runtimeError
  deriving DecidableEq, Repr

structure Err where
  kind : ErrKind
  what : Str
  deriving DecidableEq, Repr

end Iggy
