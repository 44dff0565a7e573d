/-
  Iggy.Lib.Footprint — events that touch different cells of a memory.

  A memory holds a value in every cell, each of its own type. An event changes some cells
  (`writes`), and what it answers and leaves in the cells it uses (`uses`) depends on those
  alone (`Local`). Two events are apart if neither writes what the other uses.

  `Interleaved es fs gs`: `gs` takes the events of `es` and of `fs`, each in their order.

  - `isolated`: where the events of `es` are apart from those of `fs`, every interleaving
    gives each the answers it gets alone, and leaves in the cells it uses what it leaves
    there alone.
  - `frame_run`: a cell no event of a run writes is what it was.
-/

import Iggy.Lib.Run

namespace Iggy.Lib.Footprint

open Iggy.Lib.Run (run after answers)

inductive Interleaved {E : Type} : List E → List E → List E → Prop
  | nil : Interleaved [] [] []
  | left {e : E} {es fs gs : List E} : Interleaved es fs gs → Interleaved (e :: es) fs (e :: gs)
  | right {f : E} {es fs gs : List E} : Interleaved es fs gs → Interleaved es (f :: fs) (f :: gs)

variable {C E R : Type} {V : C → Type}

/-- An event leaves every cell it does not write as it is, and uses nothing but `uses`. -/
structure Local (step : (∀ c, V c) → E → R × (∀ c, V c)) (uses writes : E → C → Prop) : Prop where
  written_used : ∀ e c, writes e c → uses e c
  frame : ∀ m e c, ¬ writes e c → (step m e).2 c = m c
  answer : ∀ m m' e, (∀ c, uses e c → m c = m' c) → (step m e).1 = (step m' e).1
  effect : ∀ m m' e, (∀ c, uses e c → m c = m' c) → ∀ c, uses e c → (step m e).2 c = (step m' e).2 c

/-- Neither event writes what the other uses. -/
def Apart (uses writes : E → C → Prop) (e f : E) : Prop :=
  (∀ c, writes e c → ¬ uses f c) ∧ ∀ c, writes f c → ¬ uses e c

/-- The cells some event of a list uses. -/
def Used (uses : E → C → Prop) (es : List E) (c : C) : Prop := ∃ e ∈ es, uses e c

/-- Two memories agree on some cells. -/
def Agree (U : C → Prop) (m m' : ∀ c, V c) : Prop := ∀ c, U c → m c = m' c

/-- The event does not see what two memories that agree on `U` differ in, nor carry it over. -/
def Blind (step : (∀ c, V c) → E → R × (∀ c, V c)) (U : C → Prop) (e : E) : Prop :=
  ∀ m m', Agree U m m' → (step m e).1 = (step m' e).1 ∧ Agree U (after step m e) (after step m' e)

theorem agree_run {step : (∀ c, V c) → E → R × (∀ c, V c)} {U : C → Prop} {es : List E}
    (h : ∀ e ∈ es, Blind step U e) {m m' : ∀ c, V c} (hm : Agree U m m') :
    answers step m es = answers step m' es ∧ Agree U (run (after step) m es) (run (after step) m' es) := by
  induction es generalizing m m' with
  | nil => exact ⟨rfl, hm⟩
  | cons e es ih =>
    obtain ⟨he, hes⟩ := List.forall_mem_cons.mp h
    obtain ⟨hanswer, hafter⟩ := he m m' hm
    obtain ⟨hans, hrun⟩ := ih hes hafter
    exact ⟨by rw [answers, answers, hanswer, hans], hrun⟩

section Local

variable {step : (∀ c, V c) → E → R × (∀ c, V c)} {uses writes : E → C → Prop} (hl : Local step uses writes)
include hl

/-! ## One event -/

/-- An event keeps the agreement on any cells that are all it uses. -/
theorem agree_step {U : C → Prop} {e : E} (hu : ∀ c, uses e c → U c) {m m' : ∀ c, V c} (h : Agree U m m') :
    Agree U (after step m e) (after step m' e) := by
  intro c hc
  by_cases huc : uses e c
  · exact hl.effect m m' e (fun c huc => h c (hu c huc)) c huc
  · have hw : ¬ writes e c := fun hw => huc (hl.written_used e c hw)
    unfold after
    rw [hl.frame m e c hw, hl.frame m' e c hw, h c hc]

/-- An event of the other side, which writes none of the cells, keeps it too. -/
theorem agree_other {U : C → Prop} {e : E} (hw : ∀ c, writes e c → ¬ U c) {m m' : ∀ c, V c} (h : Agree U m m') :
    Agree U (after step m e) m' := by
  intro c hc
  have hwc : ¬ writes e c := fun hwc => hw c hwc hc
  unfold after
  rw [hl.frame m e c hwc, h c hc]

theorem frame_run {es : List E} {c : C} (h : ∀ e ∈ es, ¬ writes e c) (m : ∀ c, V c) :
    run (after step) m es c = m c := by
  induction es generalizing m with
  | nil => rfl
  | cons e es ih =>
    rw [run, ih fun g hg => h g (List.mem_cons_of_mem _ hg)]
    exact hl.frame m e c (h e List.mem_cons_self)

/-- So is an event that uses no other cells. -/
theorem blind_of_uses {U : C → Prop} {e : E} (hu : ∀ c, uses e c → U c) : Blind step U e :=
  fun m m' h => ⟨hl.answer m m' e fun c hc => h c (hu c hc), agree_step hl hu h⟩

/-! ## Interleavings -/

/-- Two sides that keep to cells `U` and `W`, neither writing the other's: an interleaving
    runs beside each side alone, from memories that agree on its cells. -/
theorem isolated_within {U W : C → Prop} {es fs gs : List E} (hi : Interleaved es fs gs)
    (hes : ∀ e ∈ es, (∀ c, uses e c → U c) ∧ ∀ c, writes e c → ¬ W c)
    (hfs : ∀ f ∈ fs, (∀ c, uses f c → W c) ∧ ∀ c, writes f c → ¬ U c)
    {m mU mW : ∀ c, V c} (hU : Agree U m mU) (hW : Agree W m mW) :
    Interleaved (answers step mU es) (answers step mW fs) (answers step m gs) ∧
      Agree U (run (after step) m gs) (run (after step) mU es) ∧
      Agree W (run (after step) m gs) (run (after step) mW fs) := by
  induction hi generalizing m mU mW with
  | nil => exact ⟨.nil, hU, hW⟩
  | @left e es fs gs _ ih =>
    obtain ⟨hu, hw⟩ := hes e List.mem_cons_self
    have hsame : (step m e).1 = (step mU e).1 := hl.answer m mU e fun c huc => hU c (hu c huc)
    obtain ⟨hans, hrest⟩ := ih (fun g hg => hes g (List.mem_cons_of_mem _ hg)) hfs
      (agree_step hl hu hU) (agree_other hl hw hW)
    refine ⟨?_, hrest⟩
    show Interleaved ((e, (step mU e).1) :: answers step (after step mU e) es) _
      ((e, (step m e).1) :: answers step (after step m e) gs)
    rw [hsame]
    exact .left hans
  | @right f es fs gs _ ih =>
    obtain ⟨hu, hw⟩ := hfs f List.mem_cons_self
    have hsame : (step m f).1 = (step mW f).1 := hl.answer m mW f fun c huc => hW c (hu c huc)
    obtain ⟨hans, hrest⟩ := ih hes (fun g hg => hfs g (List.mem_cons_of_mem _ hg))
      (agree_other hl hw hU) (agree_step hl hu hW)
    refine ⟨?_, hrest⟩
    show Interleaved _ ((f, (step mW f).1) :: answers step (after step mW f) fs)
      ((f, (step m f).1) :: answers step (after step m f) gs)
    rw [hsame]
    exact .right hans

theorem isolated {es fs gs : List E} (hi : Interleaved es fs gs) (hap : ∀ e ∈ es, ∀ f ∈ fs, Apart uses writes e f)
    (m : ∀ c, V c) :
    Interleaved (answers step m es) (answers step m fs) (answers step m gs) ∧
      Agree (Used uses es) (run (after step) m gs) (run (after step) m es) ∧
      Agree (Used uses fs) (run (after step) m gs) (run (after step) m fs) := by
  apply isolated_within hl hi
  · intro e he
    exact ⟨fun c hc => ⟨e, he, hc⟩, fun c hw ⟨f, hf, hfc⟩ => (hap e he f hf).1 c hw hfc⟩
  · intro f hf
    exact ⟨fun c hc => ⟨f, hf, hc⟩, fun c hw ⟨e, he, hec⟩ => (hap e he f hf).2 c hw hec⟩
  · exact fun _ _ => rfl
  · exact fun _ _ => rfl

end Local

end Iggy.Lib.Footprint
