/-
  Iggy.Lib.Trim — a list without the padding at its two ends, and the edits that do not
  show once its elements are folded.

  `p` says which elements are padding, `r` which elements may stand for one another, and
  `f` folds those that may into one.

  - `trim_split`, `trim_eq_nil_iff`: what is left of a padded list, and when nothing is.
  - `edits_iff`: a list can be edited into another, by padding and respelling, exactly if
    the two fold and trim to the same list.
-/

import Iggy.Lib.Scan
import Mathlib.Logic.Relation

namespace Iggy.Lib.Trim

open Iggy.Lib.Scan
open Relation (ReflTransGen)

variable {α : Type} (p : α → Bool)

def trim (s : List α) : List α := (s.dropWhile p).rdropWhile p

variable {p} {s t : List α}

theorem trim_split {b c m : List α} (hb : ∀ x ∈ b, p x = true) (hm : Trimmed p m) (hc : ∀ x ∈ c, p x = true) :
    trim p (b ++ (m ++ c)) = m := by
  have hc' : ∀ x ∈ c.reverse, p x = true := by simpa using hc
  unfold trim List.rdropWhile
  rw [dropWhile_stops hb (hm.stops_append c), List.reverse_append, dropWhile_stops hc' hm.stop, List.reverse_reverse]

theorem trim_eq_nil_iff : trim p s = [] ↔ ∀ x ∈ s, p x = true := by
  constructor
  · intro h
    rcases exists_split p s with hall | ⟨b, m, c, rfl, hb, hm, hc⟩
    · exact hall
    · rw [trim_split hb hm hc] at h
      exact absurd h hm.ne_nil
  · intro h
    unfold trim
    rw [List.dropWhile_eq_nil_iff.mpr h]
    rfl

theorem trim_cons {a : α} (ha : p a = true) (s : List α) : trim p (a :: s) = trim p s := by
  unfold trim
  rw [List.dropWhile_cons_of_pos ha]

theorem trim_concat {a : α} (ha : p a = true) (s : List α) : trim p (s ++ [a]) = trim p s := by
  unfold trim
  rw [List.dropWhile_append]
  split
  · rename_i h
    have hnil : s.dropWhile p = [] := by simpa using h
    rw [hnil, List.dropWhile_cons_of_pos ha]
    rfl
  · rw [List.rdropWhile_concat_pos p _ a ha]

theorem trim_map {f : α → α} (hf : ∀ x, p (f x) = p x) (s : List α) : trim p (s.map f) = (trim p s).map f := by
  have hp : p ∘ f = p := funext hf
  unfold trim List.rdropWhile
  rw [List.dropWhile_map, hp, ← List.map_reverse, List.dropWhile_map, hp, ← List.map_reverse]

/-! ## Edits -/

inductive Edit (p : α → Bool) (r : α → α → Prop) : List α → List α → Prop
  | addFirst (a : α) (s : List α) : p a = true → Edit p r s (a :: s)
  | dropFirst (a : α) (s : List α) : p a = true → Edit p r (a :: s) s
  | addLast (s : List α) (a : α) : p a = true → Edit p r s (s ++ [a])
  | dropLast (s : List α) (a : α) : p a = true → Edit p r (s ++ [a]) s
  | respell (s t : List α) {a b : α} : r a b → Edit p r (s ++ a :: t) (s ++ b :: t)

def Edits (p : α → Bool) (r : α → α → Prop) : List α → List α → Prop := ReflTransGen (Edit p r)

variable {r : α → α → Prop}

theorem Edit.symm (hr : ∀ {a b}, r a b → r b a) (h : Edit p r s t) : Edit p r t s := by
  cases h with
  | addFirst a s ha => exact .dropFirst a _ ha
  | dropFirst a s ha => exact .addFirst a _ ha
  | addLast s a ha => exact .dropLast _ a ha
  | dropLast s a ha => exact .addLast _ a ha
  | respell s t hab => exact .respell s t (hr hab)

theorem Edits.symm (hr : ∀ {a b}, r a b → r b a) (h : Edits p r s t) : Edits p r t s := by
  induction h with
  | refl => exact .refl
  | tail _ hstep ih => exact .head (hstep.symm hr) ih

theorem edits_trim_self (r : α → α → Prop) (s : List α) : Edits p r s (trim p s) := by
  have hfront : Edits p r s (s.dropWhile p) := by
    induction s with
    | nil => exact .refl
    | cons a s ih =>
      by_cases ha : p a = true
      · rw [List.dropWhile_cons_of_pos ha]
        exact .head (.dropFirst a s ha) ih
      · rw [List.dropWhile_cons_of_neg ha]
        exact .refl
  have hback : ∀ s, Edits p r s (s.rdropWhile p) := by
    intro s
    induction s using List.reverseRecOn with
    | nil => exact .refl
    | append_singleton s a ih =>
      by_cases ha : p a = true
      · rw [List.rdropWhile_concat_pos p s a ha]
        exact .head (.dropLast s a ha) ih
      · rw [List.rdropWhile_concat_neg p s a ha]
        exact .refl
  exact hfront.trans (hback _)

section Fold

variable {f : α → α}

theorem edits_respell (hf : ∀ {a b}, f a = f b → a = b ∨ r a b) (b : List α) (h : s.map f = t.map f) :
    Edits p r (b ++ s) (b ++ t) := by
  induction s generalizing b t with
  | nil =>
    rw [List.map_eq_nil_iff.mp h.symm]
    exact .refl
  | cons x s ih =>
    obtain ⟨y, t, rfl, hxy, hst⟩ := List.map_eq_cons_iff.mp h.symm
    -- the first element now, the others behind it
    have hfirst : Edits p r (b ++ x :: s) (b ++ y :: s) := by
      rcases hf hxy.symm with rfl | hr
      · exact .refl
      · exact .single (.respell b s hr)
    have hrest := ih (b ++ [y]) hst.symm
    simp only [List.append_assoc, List.singleton_append] at hrest
    exact hfirst.trans hrest

theorem edit_trim (hr : ∀ {a b}, r a b → f a = f b) (hp : ∀ x, p (f x) = p x) (h : Edit p r s t) :
    trim p (s.map f) = trim p (t.map f) := by
  cases h with
  | addFirst a s ha => rw [List.map_cons, trim_cons (by rw [hp, ha])]
  | dropFirst a s ha => rw [List.map_cons, trim_cons (by rw [hp, ha])]
  | addLast s a ha => rw [List.map_append, List.map_singleton, trim_concat (by rw [hp, ha])]
  | dropLast s a ha => rw [List.map_append, List.map_singleton, trim_concat (by rw [hp, ha])]
  | respell s t hab => rw [List.map_append, List.map_cons, hr hab, List.map_append, List.map_cons]

theorem edits_iff (hsymm : ∀ {a b}, r a b → r b a) (hr : ∀ {a b}, r a b → f a = f b)
    (hf : ∀ {a b}, f a = f b → a = b ∨ r a b) (hp : ∀ x, p (f x) = p x) :
    Edits p r s t ↔ trim p (s.map f) = trim p (t.map f) := by
  constructor
  · intro h
    induction h with
    | refl => rfl
    | tail _ hstep ih => exact ih.trans (edit_trim hr hp hstep)
  · intro h
    rw [trim_map hp, trim_map hp] at h
    have hcore : Edits p r (trim p s) (trim p t) := edits_respell hf [] h
    exact (edits_trim_self r s).trans (hcore.trans ((edits_trim_self r t).symm hsymm))

end Fold

end Iggy.Lib.Trim
