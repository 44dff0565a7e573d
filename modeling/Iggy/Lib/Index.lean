/-
  Iggy.Lib.Index — a map filled from a list, each element entered under its key.

  A later element replaces an earlier one of the same key (`index_concat`); where the keys
  differ, the map finds each element by its key, and nothing else (`index_iff`).
-/

import Mathlib.Data.List.Induction
import Mathlib.Data.List.Nodup
import Mathlib.Logic.Function.Basic

namespace Iggy.Lib.Index

open Function (update)

variable {α κ : Type} [DecidableEq κ] (key : α → κ)

/-- `m[key(a)] = a` for each `a` of `l` in turn, from the empty map. -/
def index (l : List α) : κ → Option α := l.foldl (fun m a => update m (key a) (some a)) fun _ => none

theorem index_concat (l : List α) (a : α) : index key (l ++ [a]) = update (index key l) (key a) (some a) := by
  simp [index, List.foldl_append]

variable {key}

theorem index_iff {l : List α} (hn : (l.map key).Nodup) (k : κ) (d : α) :
    index key l k = some d ↔ d ∈ l ∧ key d = k := by
  induction l using List.reverseRecOn with
  | nil => simp [index]
  | append_singleton l a ih =>
    rw [List.map_append, List.nodup_append] at hn
    obtain ⟨hl, -, hdisj⟩ := hn
    rw [index_concat]
    by_cases hk : k = key a
    · subst hk
      rw [Function.update_self, Option.some_inj]
      constructor
      · intro h
        subst h
        exact ⟨List.mem_append_right l List.mem_cons_self, rfl⟩
      · intro ⟨hd, hkey⟩
        rcases List.mem_append.mp hd with hd | hd
        · exact absurd hkey (hdisj _ (List.mem_map_of_mem hd) _ (List.mem_map_of_mem List.mem_cons_self))
        · exact (List.mem_singleton.mp hd).symm
    · rw [Function.update_of_ne hk, ih hl]
      refine and_congr_left fun hkey => ?_
      have hne : d ≠ a := by
        intro h
        subst h
        exact hk hkey.symm
      simp [hne]

end Iggy.Lib.Index
