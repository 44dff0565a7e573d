/-
  Iggy.Lib.Path — resolving the components of a path without looking at a file system.

  A place is the list of names from the root down to it. Walking a component stays (`.`),
  goes to the parent (`..`, which at the root stays) or goes down to a name. Any list of
  components does the same as some number of ups followed by names, its route.

  - `walk_eq`: walking the components is following their route, from every place.
  - `within_iff`: a walk ends at or below where it started exactly when the names of its
    route begin with those its ups have left.
  - `within_of_no_up`: a walk without `..` does.
-/

import Mathlib.Data.List.Basic
import Mathlib.Data.List.TakeDrop

namespace Iggy.Lib.Path

variable {α : Type}

inductive Comp (α : Type) where
  | here
  | up
  | name (a : α)
  deriving DecidableEq, Repr

def move (s : List α) : Comp α → List α
  | .here => s
  | .up => s.dropLast
  | .name a => s ++ [a]

def walk (s : List α) (cs : List (Comp α)) : List α := cs.foldl move s

/-- The place an absolute path names. -/
def resolve (cs : List (Comp α)) : List α := walk [] cs

theorem walk_append (s : List α) (cs ds : List (Comp α)) : walk s (cs ++ ds) = walk (walk s cs) ds :=
  List.foldl_append

theorem resolve_append (cs ds : List (Comp α)) : resolve (cs ++ ds) = walk (resolve cs) ds := walk_append [] cs ds

/-! ## Routes -/

structure Route (α : Type) where
  ups : Nat
  names : List α
  deriving DecidableEq, Repr

namespace Route

def start : Route α := ⟨0, []⟩

def move (r : Route α) : Comp α → Route α
  | .here => r
  | .up => if r.names.isEmpty then ⟨r.ups + 1, []⟩ else ⟨r.ups, r.names.dropLast⟩
  | .name a => ⟨r.ups, r.names ++ [a]⟩

/-- Where the route leads from `s`. -/
def follow (s : List α) (r : Route α) : List α := s.take (s.length - r.ups) ++ r.names

theorem follow_start (s : List α) : follow s start = s := by
  show s.take (s.length - 0) ++ [] = s
  simp

theorem follow_move (s : List α) (r : Route α) (c : Comp α) : follow s (r.move c) = Path.move (follow s r) c := by
  obtain ⟨ups, names⟩ := r
  cases c with
  | here => rfl
  | name a => simp [follow, move, Path.move]
  | up =>
    cases names with
    | nil =>
      -- one more name of `s` goes, if any is left
      show s.take (s.length - (ups + 1)) ++ [] = (s.take (s.length - ups) ++ []).dropLast
      rw [List.append_nil, List.append_nil, List.dropLast_eq_take, List.take_take, List.length_take]
      congr 1
      omega
    | cons n ns =>
      show s.take (s.length - ups) ++ (n :: ns).dropLast = (s.take (s.length - ups) ++ n :: ns).dropLast
      rw [List.dropLast_append_of_ne_nil (List.cons_ne_nil n ns)]

end Route

def route (cs : List (Comp α)) : Route α := cs.foldl Route.move Route.start

theorem walk_follow (s : List α) (r : Route α) (cs : List (Comp α)) :
    walk (r.follow s) cs = (cs.foldl Route.move r).follow s := by
  induction cs generalizing r with
  | nil => rfl
  | cons c cs ih =>
    show walk (move (r.follow s) c) cs = (cs.foldl Route.move (r.move c)).follow s
    rw [← Route.follow_move, ih]

theorem walk_eq (s : List α) (cs : List (Comp α)) : walk s cs = (route cs).follow s := by
  have h := walk_follow s Route.start cs
  rwa [Route.follow_start] at h

/-! ## Staying below -/

theorem within_iff (s : List α) (cs : List (Comp α)) :
    s <+: walk s cs ↔ s.drop (s.length - (route cs).ups) <+: (route cs).names := by
  rw [walk_eq]
  unfold Route.follow
  -- what the ups leave of `s` is common to both sides
  generalize s.length - (route cs).ups = k
  constructor
  · intro h
    rw [← List.take_append_drop k s, List.take_append_drop k s] at h
    have h' : s.take k ++ s.drop k <+: s.take k ++ (route cs).names := by rwa [List.take_append_drop]
    exact (List.prefix_append_right_inj _).mp h'
  · intro h
    have h' := (List.prefix_append_right_inj (s.take k)).mpr h
    rwa [List.take_append_drop] at h'

theorem within_of_no_up (s : List α) {cs : List (Comp α)} (h : Comp.up ∉ cs) : s <+: walk s cs := by
  induction cs generalizing s with
  | nil => exact List.prefix_refl s
  | cons c cs ih =>
    have hs : s <+: move s c := by
      cases c with
      | here => exact List.prefix_refl s
      | up => exact absurd List.mem_cons_self h
      | name a => exact List.prefix_append s [a]
    exact hs.trans (ih _ fun hc => h (List.mem_cons_of_mem c hc))

end Iggy.Lib.Path
