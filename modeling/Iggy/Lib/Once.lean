/-
  Iggy.Lib.Once — a cell made when it is first used, and kept.

  `get` gives what the cell holds, or makes it: if that fails the failure is the answer and
  the cell stays empty, to be tried again at the next use.

  `uses_iff`: along a run from the empty cell, every value answered is good for its use
  exactly if the first value that could be made is good for that use and all later ones.
-/

import Iggy.Lib.Run

namespace Iggy.Lib.Once

open Iggy.Lib.Run (run after Steps)

variable {A E X : Type}

def get (make : Except X A) : Option A → Except X A × Option A
  | some a => (.ok a, some a)
  | none =>
    match make with
    | .ok a => (.ok a, some a)
    | .error x => (.error x, none)

theorem get_ok {make : Except X A} {a : A} (h : make = .ok a) : get make none = (.ok a, some a) := by rw [h]; rfl

theorem get_error {make : Except X A} {x : X} (h : make = .error x) : get make none = (.error x, none) := by
  rw [h]; rfl

def fails : Except X A → Bool
  | .ok _ => false
  | .error _ => true

variable (make : E → Except X A) (Q : A → E → Prop)

/-- A use: the event says what making the cell would give. -/
def use (c : Option A) (e : E) : Except X A × Option A := get (make e) c

/-- The value a use answers, if any, is good for it. -/
def Good (c : Option A) (e : E) : Prop := ∀ a, (use make c e).1 = .ok a → Q a e

variable {make Q}

theorem uses_some (a : A) (es : List E) : Steps (after (use make)) (Good make Q) (some a) es ↔ ∀ e ∈ es, Q a e := by
  induction es with
  | nil => exact iff_of_true trivial (List.forall_mem_nil _)
  | cons e es ih =>
    rw [List.forall_mem_cons, Steps]
    refine and_congr ⟨fun h => h a rfl, fun h b hb => ?_⟩ ih
    cases hb
    exact h

theorem uses_iff (make : E → Except X A) (Q : A → E → Prop) (es : List E) :
    Steps (after (use make)) (Good make Q) none es ↔
      ∀ first rest a, es.dropWhile (fun e => fails (make e)) = first :: rest → make first = .ok a →
        ∀ e ∈ first :: rest, Q a e := by
  induction es with
  | nil => exact iff_of_true trivial fun first rest a h => by cases h
  | cons e es ih =>
    rw [Steps]
    cases hm : make e with
    | error x =>
      -- the cell stays empty, and nothing is asked of a failure
      have huse : use make none e = (.error x, none) := get_error hm
      have hgood : Good make Q none e := fun a ha => by rw [huse] at ha; cases ha
      have hdrop : (e :: es).dropWhile (fun e => fails (make e)) = es.dropWhile fun e => fails (make e) :=
        List.dropWhile_cons_of_pos (by rw [hm]; rfl)
      rw [and_iff_right hgood, after, huse, ih, hdrop]
    | ok a =>
      have huse : use make none e = (.ok a, some a) := get_ok hm
      have hdrop : (e :: es).dropWhile (fun e => fails (make e)) = e :: es :=
        List.dropWhile_cons_of_neg (by rw [hm]; exact Bool.false_ne_true)
      rw [after, huse, uses_some, hdrop]
      constructor
      · intro h first rest b heq hb
        cases heq
        rw [hm] at hb
        cases hb
        exact List.forall_mem_cons.mpr ⟨h.1 a (by rw [huse]), h.2⟩
      · intro h
        have hall := List.forall_mem_cons.mp (h e es a rfl hm)
        refine ⟨fun b hb => ?_, hall.2⟩
        rw [huse] at hb
        cases hb
        exact hall.1

end Iggy.Lib.Once
