/-
  Iggy.Lib.Residue — what secrets written one over another leave in a buffer.

  A cell remembers whether it ever held a secret. A secret is written from the front and
  followed by a terminator (`put`); what is behind it stays. `residue` is what of a list
  of secrets, newest first, is then still there, and `Holds` relates the cells to it.

  - `holds_fresh` / `holds_put`: a buffer taken for a secret holds that secret alone, and
    each one put over it is held too.
  - `clean_iff` / `clean_wipe_iff`: such a buffer has no secret left exactly if its residue
    is zero; once its first bytes are wiped, exactly if the residue behind them is.
  - `drop_residue_of_reach_le` / `reach_le_of_drop_residue`: the residue is zero from where
    the lengths alone say the secrets reach, and, if no secret holds a zero, not before.
-/

import Mathlib.Data.List.Basic

namespace Iggy.Lib.Residue

variable {α : Type} [Zero α]

structure Cell (α : Type) where
  val : α
  secret : Bool
  deriving DecidableEq, Repr

/-- No cell still holds a secret. -/
def Clean (cells : List (Cell α)) : Prop := ∀ c ∈ cells, c.secret = true → c.val = 0

instance [DecidableEq α] (cells : List (Cell α)) : Decidable (Clean cells) :=
  inferInstanceAs (Decidable (∀ c ∈ cells, c.secret = true → c.val = 0))

/-- A new buffer for `w`: the secret, its terminator and whatever was there. -/
def fresh (w slack : List α) : List (Cell α) := w.map (⟨·, true⟩) ++ ⟨0, false⟩ :: slack.map (⟨·, false⟩)

/-- Writes `w` and its terminator at the front. -/
def put (cells : List (Cell α)) (w : List α) : List (Cell α) :=
  w.map (⟨·, true⟩) ++
    match cells.drop w.length with
    | [] => []
    | c :: rest => ⟨0, c.secret⟩ :: rest

def wipe (cells : List (Cell α)) (n : Nat) : List (Cell α) :=
  (cells.take n).map (fun c => ⟨0, c.secret⟩) ++ cells.drop n

def residue : List (List α) → List α
  | [] => []
  | w :: ws => w ++ 0 :: (residue ws).drop (w.length + 1)

/-- The cells hold the residue of `ws`, and behind it nothing that ever was a secret. -/
def Holds (cells : List (Cell α)) (ws : List (List α)) : Prop :=
  ∃ kept slack, cells = kept ++ slack ∧ kept.map Cell.val = residue ws ∧
    (∀ c ∈ kept, c.val ≠ 0 → c.secret = true) ∧ ∀ c ∈ slack, c.secret = false

@[simp] theorem length_fresh (w slack : List α) : (fresh w slack).length = w.length + slack.length + 1 := by
  simp [fresh]
  omega

theorem length_put {cells : List (Cell α)} {w : List α} (h : w.length < cells.length) :
    (put cells w).length = cells.length := by
  rw [put, List.drop_eq_getElem_cons h]
  simp
  omega

@[simp] theorem length_wipe (cells : List (Cell α)) (n : Nat) : (wipe cells n).length = cells.length := by
  simp [wipe]
  omega

/-! ## What a buffer holds -/

variable {cells : List (Cell α)} {w : List α} {ws : List (List α)}

theorem holds_fresh (w slack : List α) : Holds (fresh w slack) [w] := by
  refine ⟨w.map (⟨·, true⟩) ++ [⟨0, false⟩], slack.map (⟨·, false⟩), ?_, ?_, ?_, ?_⟩
  · simp [fresh]
  · simp [residue, Function.comp_def]
  · intro c hc h0
    rcases List.mem_append.mp hc with hc | hc
    · obtain ⟨b, -, rfl⟩ := List.mem_map.mp hc
      rfl
    · rw [List.mem_singleton.mp hc] at h0
      exact absurd rfl h0
  · intro c hc
    obtain ⟨b, -, rfl⟩ := List.mem_map.mp hc
    rfl

/-- The secret and its terminator take the place of as many cells, of the residue first. -/
theorem holds_put (h : Holds cells ws) (hw : w.length < cells.length) : Holds (put cells w) (w :: ws) := by
  obtain ⟨kept, slack, rfl, hkept, hsecret, hslack⟩ := h
  obtain ⟨c, hc⟩ : ∃ c, (kept ++ slack).drop w.length =
      c :: (kept.drop (w.length + 1) ++ slack.drop (w.length + 1 - kept.length)) := by
    rw [List.drop_eq_getElem_cons hw, List.drop_append]
    exact ⟨_, rfl⟩
  refine ⟨w.map (⟨·, true⟩) ++ ⟨0, c.secret⟩ :: kept.drop (w.length + 1),
    slack.drop (w.length + 1 - kept.length), ?_, ?_, ?_, ?_⟩
  · rw [put, hc]
    simp
  · simp [residue, ← hkept, Function.comp_def]
  · intro d hd h0
    rcases List.mem_append.mp hd with hd | hd
    · obtain ⟨b, -, rfl⟩ := List.mem_map.mp hd
      rfl
    · rcases List.mem_cons.mp hd with rfl | hd
      · exact absurd rfl h0
      · exact hsecret d (List.mem_of_mem_drop hd) h0
  · intro d hd
    exact hslack d (List.mem_of_mem_drop hd)

theorem length_le_of_kept {kept : List (Cell α)} (hkept : kept.map Cell.val = residue (w :: ws)) :
    w.length ≤ kept.length := by
  have hlen := congrArg List.length hkept
  simp only [residue, List.length_map, List.length_append] at hlen
  omega

theorem take_of_holds (h : Holds cells (w :: ws)) : (cells.take w.length).map Cell.val = w := by
  obtain ⟨kept, slack, rfl, hkept, -, -⟩ := h
  have hlen := length_le_of_kept hkept
  rw [List.take_append_of_le_length hlen, List.map_take, hkept, residue, List.take_left]

/-! ## What is left to find -/

theorem clean_iff (h : Holds cells ws) : Clean cells ↔ ∀ v ∈ residue ws, v = 0 := by
  obtain ⟨kept, slack, rfl, hkept, hsecret, hslack⟩ := h
  rw [← hkept]
  constructor
  · intro hclean v hv
    obtain ⟨c, hc, rfl⟩ := List.mem_map.mp hv
    by_cases h0 : c.val = 0
    · exact h0
    · exact hclean c (List.mem_append_left slack hc) (hsecret c hc h0)
  · intro hzero c hc hs
    rcases List.mem_append.mp hc with hc | hc
    · exact hzero c.val (List.mem_map_of_mem hc)
    · rw [hslack c hc] at hs
      cases hs

/-- Wiping the newest secret leaves what zeros in its place would. -/
theorem holds_wipe (h : Holds cells (w :: ws)) :
    ∃ z : List α, z.length = w.length ∧ (∀ v ∈ z, v = 0) ∧ Holds (wipe cells w.length) (z :: ws) := by
  obtain ⟨kept, slack, rfl, hkept, hsecret, hslack⟩ := h
  have hlen := length_le_of_kept hkept
  refine ⟨List.replicate w.length 0, by simp, fun v hv => List.eq_of_mem_replicate hv,
    wipe kept w.length, slack, ?_, ?_, ?_, hslack⟩
  · rw [wipe, wipe, List.take_append_of_le_length hlen, List.drop_append_of_le_length hlen, List.append_assoc]
  · have hzero : ((kept.take w.length).map fun c => (⟨0, c.secret⟩ : Cell α)).map Cell.val =
        List.replicate w.length 0 := by
      rw [List.eq_replicate_iff]
      refine ⟨by simp [hlen], fun v hv => ?_⟩
      simp only [List.map_map, List.mem_map] at hv
      obtain ⟨d, -, rfl⟩ := hv
      rfl
    rw [wipe, List.map_append, hzero, List.map_drop, hkept, residue, List.drop_left]
    simp [residue]
  · intro c hc h0
    rcases List.mem_append.mp hc with hc | hc
    · obtain ⟨d, -, rfl⟩ := List.mem_map.mp hc
      exact absurd rfl h0
    · exact hsecret c (List.mem_of_mem_drop hc) h0

theorem clean_wipe_iff (h : Holds cells (w :: ws)) :
    Clean (wipe cells w.length) ↔ ∀ v ∈ (residue ws).drop (w.length + 1), v = 0 := by
  obtain ⟨z, hlen, hz, hh⟩ := holds_wipe h
  rw [clean_iff hh, residue, hlen]
  constructor
  · intro hall v hv
    exact hall v (by simp [hv])
  · intro hall v hv
    rcases List.mem_append.mp hv with hv | hv
    · exact hz v hv
    · rcases List.mem_cons.mp hv with rfl | hv
      · rfl
      · exact hall v hv

/-! ## How far secrets reach -/

/-- One past the last cell that still holds a secret, of secrets of these lengths, newest
    first. -/
def reach : List Nat → Nat
  | [] => 0
  | n :: ns => if reach ns ≤ n + 1 then n else reach ns

theorem drop_residue_cons (w : List α) (ws : List (List α)) {k : Nat} (hk : w.length < k) :
    (residue (w :: ws)).drop k = (residue ws).drop k := by
  obtain ⟨j, rfl⟩ := Nat.exists_eq_add_of_lt hk
  rw [residue, List.drop_append, List.drop_of_length_le (by omega), List.nil_append]
  have hj : w.length + j + 1 - w.length = j + 1 := by omega
  rw [hj, List.drop_succ_cons, List.drop_drop]
  congr 1
  omega

theorem drop_residue_cons_of_le (w : List α) (ws : List (List α)) {k : Nat} (hk : k ≤ w.length) :
    (residue (w :: ws)).drop k = w.drop k ++ 0 :: (residue ws).drop (w.length + 1) :=
  List.drop_append_of_le_length hk

theorem drop_residue_of_reach_le {ws : List (List α)} {k : Nat} (h : reach (ws.map List.length) ≤ k) :
    ∀ v ∈ (residue ws).drop k, v = 0 := by
  induction ws generalizing k with
  | nil => simp [residue]
  | cons w ws ih =>
    rw [List.map_cons, reach] at h
    by_cases hk : w.length < k
    · rw [drop_residue_cons w ws hk]
      apply ih
      split at h <;> omega
    · have hreach : reach (ws.map List.length) ≤ w.length + 1 := by split at h <;> omega
      rw [if_pos hreach] at h
      rw [drop_residue_cons_of_le w ws (by omega), List.drop_of_length_le h, List.nil_append]
      exact List.forall_mem_cons.mpr ⟨rfl, ih hreach⟩

theorem reach_le_of_drop_residue {ws : List (List α)} (h0 : ∀ w ∈ ws, 0 ∉ w) {k : Nat}
    (h : ∀ v ∈ (residue ws).drop k, v = 0) : reach (ws.map List.length) ≤ k := by
  induction ws generalizing k with
  | nil => exact Nat.zero_le k
  | cons w ws ih =>
    obtain ⟨hw, hws⟩ := List.forall_mem_cons.mp h0
    rw [List.map_cons, reach]
    by_cases hk : w.length < k
    · rw [drop_residue_cons w ws hk] at h
      have hrest := ih hws h
      split <;> omega
    · rw [drop_residue_cons_of_le w ws (by omega), List.forall_mem_append, List.forall_mem_cons] at h
      have hrest := ih hws h.2.2
      rw [if_pos hrest]
      -- what is left of the newest secret would have to be zero
      by_contra hlt
      have hlen : k < w.length := by omega
      have hmem : w[k] ∈ w.drop k := List.mem_drop_iff_getElem.mpr ⟨0, by omega, by simp⟩
      exact hw (h.1 _ hmem ▸ List.getElem_mem hlen)

end Iggy.Lib.Residue
