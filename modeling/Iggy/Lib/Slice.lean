/-
  Iggy.Lib.Slice — objects at addresses, assigned through references to a base class.

  An object of a class derived from `B` is its base part and whatever the derived class
  adds (`Obj`). Assigning one object to another through base-class references copies the
  base part alone (`assign`): the derived part, and with it the dynamic type, stays.

  - `assign_base`: the base part of the assigned object afterwards.
  - `assign_of_ne`: every other object is untouched.
  - `assign_eq_iff`: an assignment changes nothing at all exactly if the two base parts
    are equal, as they are when the base class has no data (`assign_of_subsingleton`).
-/

import Mathlib.Logic.Function.Basic

namespace Iggy.Lib.Slice

open Function (update)

structure Obj (B D : Type) where
  base : B
  derived : D

variable {B D : Type}

/-- `*dst = *src`, both of static type the base class. -/
def assign (m : Nat → Obj B D) (dst src : Nat) : Nat → Obj B D :=
  update m dst { m dst with base := (m src).base }

variable (m : Nat → Obj B D) (dst src a : Nat)

@[simp] theorem assign_base : (assign m dst src dst).base = (m src).base := by simp [assign]

variable {a} in
theorem assign_of_ne (h : a ≠ dst) : assign m dst src a = m a := by simp [assign, h]

theorem assign_eq_iff : assign m dst src = m ↔ (m src).base = (m dst).base := by
  constructor
  · intro h
    rw [← assign_base m dst src, h]
  · intro h
    rw [assign, h, Function.update_eq_self]

theorem assign_of_subsingleton [Subsingleton B] : assign m dst src = m :=
  (assign_eq_iff m dst src).mpr (Subsingleton.elim _ _)

end Iggy.Lib.Slice
