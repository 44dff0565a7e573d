/-
  Iggy.Lib.Ledger — handles owned by slots.

  Each owner has one slot, which holds a handle or nothing. A handle is a number given
  out once: `next` is the first one not given out yet. An owner with an empty slot
  acquires the next handle; an owner releases its handle (`freed`), passes it to an owner
  with an empty slot, or loses it (`lost`: the slot is emptied and nobody released the
  handle). A move whose slots are not as it needs them changes nothing.

  Proved, over every run of moves:
  - `run_sound`: no two slots hold one handle, a held handle is neither freed nor lost, no
    handle is freed twice, and every handle given out is held, freed or lost.
  - `lost_run`: nothing is lost in a run without `lose`.
-/

import Mathlib.Logic.Function.Basic
import Iggy.Lib.Run

namespace Iggy.Lib.Ledger

open Function (update)
open Iggy.Lib.Run (run run_inv)

structure Book (O : Type) where
  slot : O → Option Nat
  next : Nat
  freed : List Nat
  lost : List Nat

def empty : Book O := ⟨fun _ => none, 0, [], []⟩

inductive Move (O : Type) where
  | acquire (o : O)
  | release (o : O)
  | pass (o p : O)
  | lose (o : O)
  deriving DecidableEq, Repr

variable {O : Type}

structure Sound (L : Book O) : Prop where
  sole : ∀ o p h, L.slot o = some h → L.slot p = some h → o = p
  given : ∀ o h, L.slot o = some h → h < L.next
  live : ∀ o h, L.slot o = some h → h ∉ L.freed ∧ h ∉ L.lost
  gone : ∀ h, h ∈ L.freed ∨ h ∈ L.lost → h < L.next
  freedOnce : L.freed.Nodup
  apart : ∀ h, h ∈ L.freed → h ∉ L.lost
  accounted : ∀ h, h < L.next → (∃ o, L.slot o = some h) ∨ h ∈ L.freed ∨ h ∈ L.lost

theorem empty_sound : Sound (empty : Book O) := by
  constructor <;> simp [empty]

variable [DecidableEq O]

def move (L : Book O) : Move O → Book O
  | .acquire o =>
    match L.slot o with
    | none => { L with slot := update L.slot o (some L.next), next := L.next + 1 }
    | some _ => L
  | .release o =>
    match L.slot o with
    | some h => { L with slot := update L.slot o none, freed := L.freed ++ [h] }
    | none => L
  | .pass o p =>
    match L.slot o, L.slot p with
    | some h, none => { L with slot := update (update L.slot o none) p (some h) }
    | _, _ => L
  | .lose o =>
    match L.slot o with
    | some h => { L with slot := update L.slot o none, lost := L.lost ++ [h] }
    | none => L

/-! ## What a move does -/

section Shapes

variable {L : Book O} {o p : O} {h : Nat}

theorem move_acquire (ho : L.slot o = none) :
    move L (.acquire o) = { L with slot := update L.slot o (some L.next), next := L.next + 1 } := by
  simp only [move, ho]

theorem move_release (ho : L.slot o = some h) :
    move L (.release o) = { L with slot := update L.slot o none, freed := L.freed ++ [h] } := by
  simp only [move, ho]

theorem move_release_none (ho : L.slot o = none) : move L (.release o) = L := by
  simp only [move, ho]

theorem move_pass (ho : L.slot o = some h) (hp : L.slot p = none) :
    move L (.pass o p) = { L with slot := update (update L.slot o none) p (some h) } := by
  simp only [move, ho, hp]

theorem move_pass_none (ho : L.slot o = none) : move L (.pass o p) = L := by
  simp only [move, ho]

theorem move_lose (ho : L.slot o = some h) :
    move L (.lose o) = { L with slot := update L.slot o none, lost := L.lost ++ [h] } := by
  simp only [move, ho]

end Shapes

/-! ## Every move keeps the books sound -/

/-- A slot that `update` emptied or left alone still holds what it held before. -/
theorem slot_of_emptied {f : O → Option Nat} {o p : O} {h : Nat} (hp : update f o none p = some h) :
    p ≠ o ∧ f p = some h := by
  by_cases e : p = o
  · subst e; simp at hp
  · exact ⟨e, by simpa [e] using hp⟩

theorem acquire_sound {L : Book O} (hL : Sound L) {o : O} (ho : L.slot o = none) :
    Sound (move L (.acquire o)) := by
  rw [move_acquire ho]
  have old : ∀ p h, update L.slot o (some L.next) p = some h →
      (p = o ∧ h = L.next) ∨ (p ≠ o ∧ L.slot p = some h) := by
    intro p h hp
    by_cases e : p = o
    · subst e; left; simpa [eq_comm] using hp
    · right; exact ⟨e, by simpa [e] using hp⟩
  refine ⟨fun p q h hp hq => ?_, fun p h hp => ?_, fun p h hp => ?_, fun h hh => ?_, hL.freedOnce, hL.apart,
    fun h hh => ?_⟩
  · rcases old p h hp with ⟨ep, eh⟩ | ⟨-, hp'⟩ <;> rcases old q h hq with ⟨eq, eh'⟩ | ⟨-, hq'⟩
    · exact ep.trans eq.symm
    · have := hL.given q h hq'; omega
    · have := hL.given p h hp'; omega
    · exact hL.sole p q h hp' hq'
  · show h < L.next + 1
    rcases old p h hp with ⟨-, rfl⟩ | ⟨-, hp⟩
    · omega
    · have := hL.given p h hp; omega
  · rcases old p h hp with ⟨-, rfl⟩ | ⟨-, hp⟩
    · exact ⟨fun hf => by have := hL.gone _ (Or.inl hf); omega, fun hl => by have := hL.gone _ (Or.inr hl); omega⟩
    · exact hL.live p h hp
  · show h < L.next + 1
    have := hL.gone h hh; omega
  · by_cases e : h = L.next
    · exact Or.inl ⟨o, by simp [e]⟩
    · rcases hL.accounted h (by have : h < L.next + 1 := hh; omega) with ⟨p, hp⟩ | hg
      · refine Or.inl ⟨p, ?_⟩
        have hne : p ≠ o := by rintro rfl; rw [ho] at hp; cases hp
        simpa [hne] using hp
      · exact Or.inr hg

/-- A slot that still holds a handle held it before, and it is another than the emptied one's. -/
theorem emptied_sole {L : Book O} (hL : Sound L) {o : O} {h : Nat} (ho : L.slot o = some h) (p : O) (k : Nat)
    (hp : update L.slot o none p = some k) : L.slot p = some k ∧ k ≠ h := by
  obtain ⟨hne, hp⟩ := slot_of_emptied hp
  refine ⟨hp, ?_⟩
  rintro rfl
  exact hne (hL.sole p o _ hp ho)

/-- Emptying a slot keeps the books sound if the logs gain its handle and stay apart. -/
theorem emptied_sound {L : Book O} (hL : Sound L) {o : O} {h : Nat} (ho : L.slot o = some h) {f l : List Nat}
    (hlog : ∀ k, k ∈ f ∨ k ∈ l ↔ (k ∈ L.freed ∨ k ∈ L.lost) ∨ k = h) (hnd : f.Nodup) (hap : ∀ k, k ∈ f → k ∉ l) :
    Sound { L with slot := update L.slot o none, freed := f, lost := l } := by
  have left := emptied_sole hL ho
  refine ⟨fun p q k hp hq => hL.sole p q k (left p k hp).1 (left q k hq).1, fun p k hp => hL.given p k (left p k hp).1,
    fun p k hp => ?_, fun k hk => ?_, hnd, hap, fun k hk => ?_⟩
  · obtain ⟨hp, hne⟩ := left p k hp
    obtain ⟨h1, h2⟩ := hL.live p k hp
    have hno : ¬ (k ∈ f ∨ k ∈ l) := by
      intro hk
      rcases (hlog k).mp hk with (hk | hk) | hk
      · exact h1 hk
      · exact h2 hk
      · exact hne hk
    exact not_or.mp hno
  · rcases (hlog k).mp hk with hk | hk
    · exact hL.gone k hk
    · rw [hk]
      exact hL.given o h ho
  · rcases hL.accounted k hk with ⟨p, hp⟩ | hg
    · by_cases e : p = o
      · subst e
        rw [ho] at hp
        cases hp
        exact Or.inr ((hlog h).mpr (Or.inr rfl))
      · exact Or.inl ⟨p, by simpa [e] using hp⟩
    · exact Or.inr ((hlog k).mpr (Or.inl hg))

theorem release_sound {L : Book O} (hL : Sound L) {o : O} {h : Nat} (ho : L.slot o = some h) :
    Sound (move L (.release o)) := by
  rw [move_release ho]
  obtain ⟨hf, hl⟩ := hL.live o h ho
  apply emptied_sound hL ho
  · intro k
    simp only [List.mem_append, List.mem_singleton]
    exact or_right_comm
  · exact List.nodup_append.mpr ⟨hL.freedOnce, by simp, fun a ha b hb => by
      rw [List.mem_singleton.mp hb]; intro h'; exact hf (h' ▸ ha)⟩
  · intro k hk
    rcases List.mem_append.mp hk with hk | hk
    · exact hL.apart k hk
    · rw [List.mem_singleton.mp hk]
      exact hl

theorem lose_sound {L : Book O} (hL : Sound L) {o : O} {h : Nat} (ho : L.slot o = some h) :
    Sound (move L (.lose o)) := by
  rw [move_lose ho]
  obtain ⟨hf, hl⟩ := hL.live o h ho
  apply emptied_sound hL ho
  · intro k
    simp only [List.mem_append, List.mem_singleton]
    exact or_assoc.symm
  · exact hL.freedOnce
  · intro k hk
    have hne : k ≠ h := fun h' => hf (h' ▸ hk)
    simp [hL.apart k hk, hne]

theorem pass_sound {L : Book O} (hL : Sound L) {o p : O} {h : Nat} (ho : L.slot o = some h)
    (hp : L.slot p = none) : Sound (move L (.pass o p)) := by
  rw [move_pass ho hp]
  -- a slot of the result is the receiver with the handle, or an untouched one without it
  have old : ∀ q k, update (update L.slot o none) p (some h) q = some k →
      (q = p ∧ k = h) ∨ (L.slot q = some k ∧ k ≠ h) := by
    intro q k hq
    by_cases e : q = p
    · subst e; left; simpa [eq_comm] using hq
    · right; exact emptied_sole hL ho q k (by simpa [e] using hq)
  refine ⟨fun q r k hq hr => ?_, fun q k hq => ?_, fun q k hq => ?_, hL.gone, hL.freedOnce, hL.apart, fun k hk => ?_⟩
  · rcases old q k hq with ⟨eq, ek⟩ | ⟨hq', hk⟩ <;> rcases old r k hr with ⟨er, ek'⟩ | ⟨hr', hk'⟩
    · exact eq.trans er.symm
    · exact absurd ek hk'
    · exact absurd ek' hk
    · exact hL.sole q r k hq' hr'
  · rcases old q k hq with ⟨-, rfl⟩ | ⟨hq, -⟩
    · exact hL.given o _ ho
    · exact hL.given q k hq
  · rcases old q k hq with ⟨-, rfl⟩ | ⟨hq, -⟩
    · exact hL.live o _ ho
    · exact hL.live q k hq
  · rcases hL.accounted k hk with ⟨q, hq⟩ | hk
    · by_cases e : q = o
      · subst e; rw [ho] at hq; cases hq
        exact Or.inl ⟨p, by simp⟩
      · have hqp : q ≠ p := by rintro rfl; rw [hp] at hq; cases hq
        exact Or.inl ⟨q, by simpa [e, hqp] using hq⟩
    · exact Or.inr hk

theorem move_sound (L : Book O) (m : Move O) (hL : Sound L) : Sound (move L m) := by
  cases m with
  | acquire o =>
    cases ho : L.slot o with
    | none => exact acquire_sound hL ho
    | some h => simpa only [move, ho] using hL
  | release o =>
    cases ho : L.slot o with
    | none => simpa only [move, ho] using hL
    | some h => exact release_sound hL ho
  | pass o p =>
    cases ho : L.slot o with
    | none => simpa only [move, ho] using hL
    | some h =>
      cases hp : L.slot p with
      | none => exact pass_sound hL ho hp
      | some k => simpa only [move, ho, hp] using hL
  | lose o =>
    cases ho : L.slot o with
    | none => simpa only [move, ho] using hL
    | some h => exact lose_sound hL ho

theorem run_sound {L : Book O} (hL : Sound L) (ms : List (Move O)) : Sound (run move L ms) :=
  run_inv move_sound hL ms

/-! ## Losses -/

/-- The handles a move loses. -/
def losses (L : Book O) : Move O → List Nat
  | .lose o => (L.slot o).toList
  | _ => []

theorem lost_move (L : Book O) (m : Move O) : (move L m).lost = L.lost ++ losses L m := by
  cases m <;> simp only [move, losses] <;> split <;> simp_all

theorem lost_run {L : Book O} {ms : List (Move O)} (h : ∀ o, .lose o ∉ ms) : (run move L ms).lost = L.lost := by
  induction ms generalizing L with
  | nil => rfl
  | cons m ms ih =>
    rw [run, ih fun o ho => h o (List.mem_cons_of_mem _ ho), lost_move]
    cases m with
    | lose o => exact absurd List.mem_cons_self (h o)
    | acquire o => exact List.append_nil _
    | release o => exact List.append_nil _
    | pass o p => exact List.append_nil _

end Iggy.Lib.Ledger
