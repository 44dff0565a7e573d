/-
  Iggy.Lib.Scan — scanning a list for the elements in and outside a class `p`.

  - `takeWhile_stops` / `dropWhile_stops`: the longest prefix in the class, of a list made
    of such a prefix and a rest that starts outside it.
  - `firstNot_split` / `lastNot_split`: where the first and the last element outside the
    class are, in a list padded at both ends with elements of the class; `exists_split`:
    every list that is not all in the class is one.
-/

import Mathlib.Data.List.DropRight
import Mathlib.Data.List.TakeWhile

namespace Iggy.Lib.Scan

variable {α : Type} {p : α → Bool}

/-! ## A prefix in the class -/

/-- `rest` is empty or starts outside the class. -/
def Stops (p : α → Bool) (rest : List α) : Prop := ∀ a, rest.head? = some a → p a = false

theorem stops_cons {a : α} (rest : List α) (h : p a = false) : Stops p (a :: rest) := by
  intro b hb
  cases hb
  exact h

theorem stops_dropWhile (p : α → Bool) (s : List α) : Stops p (s.dropWhile p) := by
  intro a ha
  have h := List.head?_dropWhile_not p s
  rw [ha] at h
  exact h

theorem dropWhile_of_stops {rest : List α} (h : Stops p rest) : rest.dropWhile p = rest := by
  cases rest with
  | nil => rfl
  | cons a _ => simp [h a rfl]

theorem takeWhile_of_stops {rest : List α} (h : Stops p rest) : rest.takeWhile p = [] := by
  cases rest with
  | nil => rfl
  | cons a _ => simp [h a rfl]

variable {s rest : List α}

theorem takeWhile_stops (hs : ∀ a ∈ s, p a = true) (hr : Stops p rest) : (s ++ rest).takeWhile p = s := by
  rw [List.takeWhile_append_of_pos hs, takeWhile_of_stops hr, List.append_nil]

theorem dropWhile_stops (hs : ∀ a ∈ s, p a = true) (hr : Stops p rest) : (s ++ rest).dropWhile p = rest := by
  rw [List.dropWhile_append_of_pos hs, dropWhile_of_stops hr]

/-! ## Between the first and the last element outside the class -/

def firstNot (p : α → Bool) (s : List α) : Option Nat := s.findIdx? fun a => !p a

def lastNot (p : α → Bool) (s : List α) : Option Nat := (firstNot p s.reverse).map (s.length - 1 - ·)

theorem firstNot_append {a m : List α} (ha : ∀ x ∈ a, p x = true) (hm : m ≠ []) (hs : Stops p m) :
    firstNot p (a ++ m) = some a.length := by
  have hn : a.findIdx? (fun x => !p x) = none := by
    rw [List.findIdx?_eq_none_iff]
    intro x hx
    simp [ha x hx]
  cases m with
  | nil => exact absurd rfl hm
  | cons b m => simp [firstNot, List.findIdx?_append, hn, List.findIdx?_cons, hs b rfl]

/-- Neither end is in the class, and there is something between them. -/
structure Trimmed (p : α → Bool) (m : List α) : Prop where
  ne_nil : m ≠ []
  start : Stops p m
  stop : Stops p m.reverse

variable {a m b : List α}

theorem Trimmed.stops_append (hm : Trimmed p m) (b : List α) : Stops p (m ++ b) := by
  intro x hx
  cases m with
  | nil => exact absurd rfl hm.ne_nil
  | cons c m => exact hm.start x hx

theorem Trimmed.reverse (hm : Trimmed p m) : Trimmed p m.reverse := by
  refine ⟨?_, hm.stop, ?_⟩
  · simpa using hm.ne_nil
  · rw [List.reverse_reverse]
    exact hm.start

theorem firstNot_split (ha : ∀ x ∈ a, p x = true) (hm : Trimmed p m) (b : List α) :
    firstNot p (a ++ (m ++ b)) = some a.length :=
  firstNot_append ha (List.append_ne_nil_of_left_ne_nil hm.ne_nil b) (hm.stops_append b)

theorem lastNot_split (a : List α) (hm : Trimmed p m) (hb : ∀ x ∈ b, p x = true) :
    lastNot p (a ++ (m ++ b)) = some (a.length + m.length - 1) := by
  have hr : (a ++ (m ++ b)).reverse = b.reverse ++ (m.reverse ++ a.reverse) := by simp
  have hb' : ∀ x ∈ b.reverse, p x = true := by simpa using hb
  rw [lastNot, hr, firstNot_split hb' hm.reverse]
  simp only [Option.map_some, List.length_append, List.length_reverse]
  congr 1
  omega

theorem exists_split (p : α → Bool) (s : List α) : (∀ x ∈ s, p x = true) ∨
    ∃ a m b, s = a ++ (m ++ b) ∧ (∀ x ∈ a, p x = true) ∧ Trimmed p m ∧ ∀ x ∈ b, p x = true := by
  by_cases hall : ∀ x ∈ s, p x = true
  · exact Or.inl hall
  · right
    have hr : s.dropWhile p ≠ [] := fun h => hall (List.dropWhile_eq_nil_iff.mp h)
    have hstart := stops_dropWhile p s
    generalize hrest : s.dropWhile p = r at hr hstart
    have hm : r.rdropWhile p ≠ [] := by
      intro h
      obtain ⟨c, r', rfl⟩ := List.exists_cons_of_ne_nil hr
      have hc : p c = true := List.rdropWhile_eq_nil_iff.mp h c List.mem_cons_self
      rw [hstart c rfl] at hc
      cases hc
    refine ⟨s.takeWhile p, r.rdropWhile p, r.rtakeWhile p, ?_, ?_, ⟨hm, ?_, ?_⟩, ?_⟩
    · rw [List.rdropWhile_append_rtakeWhile, ← hrest, List.takeWhile_append_dropWhile]
    · intro x hx
      exact List.mem_takeWhile_imp hx
    · -- what is left of `r` starts as `r` does
      intro x hx
      obtain ⟨t, ht⟩ := List.rdropWhile_prefix p r
      rw [← ht] at hstart
      cases hd : r.rdropWhile p with
      | nil => exact absurd hd hm
      | cons c m =>
        rw [hd] at hx hstart
        exact hstart x hx
    · rw [List.rdropWhile, List.reverse_reverse]
      exact stops_dropWhile p r.reverse
    · intro x hx
      exact List.mem_rtakeWhile_imp hx

end Iggy.Lib.Scan
