/-
  Iggy.Lib.Run — runs of a machine whose step is a function of the state and an event.

  A run is a list of events taken from a start state. `Steps` says something of every
  step of a run, `States` of every state it passes through. The rules turn what one
  step does into what a whole run does:
  - `run_inv`: an invariant of the step holds at the end of every run.
  - `steps_of_inv`: a condition an invariant gives holds at every step of a run.
  - `steps_congr`: two conditions on a step that agree under an invariant agree on runs.
  - `states_iff_steps`: if, from a state with the property, a step keeps it exactly when
    its guard holds, a run keeps it throughout exactly when every step meets the guard.
  - `log_iff`: everything an append-only log holds at the end is good exactly when every
    step logged only good entries.
  - `steps_sim` / `steps_imp`: a simulation carries conditions on the steps of a run over.
  - `run_map`: a function of the state that commutes with the answering steps commutes with
    runs, and the runs' answers are the same.
-/

namespace Iggy.Lib.Run

variable {S T E A : Type} (step : S → E → S) (step' : T → E → T)

def run : S → List E → S
  | s, [] => s
  | s, e :: es => run (step s e) es

/-- `Q` holds of every step of the run: of the state it starts in and its event. -/
def Steps (Q : S → E → Prop) : S → List E → Prop
  | _, [] => True
  | s, e :: es => Q s e ∧ Steps Q (step s e) es

/-- `P` holds of every state of the run, the first included. -/
def States (P : S → Prop) : S → List E → Prop
  | s, [] => P s
  | s, e :: es => P s ∧ States P (step s e) es

variable {step step'}

theorem run_inv {I : S → Prop} (hI : ∀ s e, I s → I (step s e)) {s : S} (hs : I s) (es : List E) :
    I (run step s es) := by
  induction es generalizing s with
  | nil => exact hs
  | cons e es ih => exact ih (hI s e hs)

theorem steps_congr {I : S → Prop} (hI : ∀ s e, I s → I (step s e)) {Q C : S → E → Prop}
    (h : ∀ s e, I s → (Q s e ↔ C s e)) {s : S} (hs : I s) (es : List E) :
    Steps step Q s es ↔ Steps step C s es := by
  induction es generalizing s with
  | nil => exact Iff.rfl
  | cons e es ih => exact and_congr (h s e hs) (ih (hI s e hs))

/-- Along events of a kind, an invariant that gives a condition gives it at every step. -/
theorem steps_of_inv {P : E → Prop} {I : S → Prop} {Q : S → E → Prop}
    (h : ∀ s e, P e → I s → Q s e ∧ I (step s e)) {s : S} (hs : I s) {es : List E} (hes : ∀ e ∈ es, P e) :
    Steps step Q s es := by
  induction es generalizing s with
  | nil => trivial
  | cons e es ih =>
    obtain ⟨he, hes⟩ := List.forall_mem_cons.mp hes
    obtain ⟨hq, hs'⟩ := h s e he hs
    exact ⟨hq, ih hs' hes⟩

/-- The guard of a property: it says, of a state with the property, which steps keep it. -/
theorem states_iff_steps {I P : S → Prop} (hI : ∀ s e, I s → I (step s e)) {C : S → E → Prop}
    (h : ∀ s e, I s → P s → (P (step s e) ↔ C s e)) {s : S} (hs : I s) (hp : P s) (es : List E) :
    States step P s es ↔ Steps step C s es := by
  induction es generalizing s with
  | nil => simp [States, Steps, hp]
  | cons e es ih =>
    have hg := h s e hs hp
    constructor
    · intro ⟨_, hr⟩
      have hp' : P (step s e) := by
        cases es with
        | nil => exact hr
        | cons _ _ => exact hr.1
      exact ⟨hg.mp hp', (ih (hI s e hs) hp').mp hr⟩
    · intro ⟨hc, hr⟩
      have hp' := hg.mpr hc
      exact ⟨hp, (ih (hI s e hs) hp').mpr hr⟩

theorem steps_append {Q : S → E → Prop} {s : S} {es fs : List E} :
    Steps step Q s (es ++ fs) ↔ Steps step Q s es ∧ Steps step Q (run step s es) fs := by
  induction es generalizing s with
  | nil => exact (and_iff_right trivial).symm
  | cons e es ih => rw [List.cons_append, Steps, Steps, run, ih, and_assoc]

theorem run_append (s : S) (es fs : List E) : run step s (es ++ fs) = run step (run step s es) fs := by
  induction es generalizing s with
  | nil => rfl
  | cons e es ih => exact ih (step s e)

/-! ## Logs -/

theorem log_iff {I : S → Prop} (hI : ∀ s e, I s → I (step s e)) (log : S → List A) (new : S → E → List A)
    (h : ∀ s e, I s → log (step s e) = log s ++ new s e) (P : A → Prop) {s : S} (hs : I s) (es : List E) :
    (∀ a ∈ log (run step s es), P a) ↔
      (∀ a ∈ log s, P a) ∧ Steps step (fun s e => ∀ a ∈ new s e, P a) s es := by
  induction es generalizing s with
  | nil => simp [run, Steps]
  | cons e es ih => rw [run, ih (hI s e hs), h s e hs, Steps, List.forall_mem_append, and_assoc]

/-! ## Simulation -/

/-- Along events of a kind, a condition that implies another on related states implies it
    on related runs. -/
theorem steps_imp {P : E → Prop} {R : S → T → Prop} (h : ∀ s t e, P e → R s t → R (step s e) (step' t e))
    {Q : S → E → Prop} {C : T → E → Prop} (hq : ∀ s t e, P e → R s t → C t e → Q s e) {s : S} {t : T}
    (hr : R s t) {es : List E} (hes : ∀ e ∈ es, P e) (hc : Steps step' C t es) : Steps step Q s es := by
  induction es generalizing s t with
  | nil => trivial
  | cons e es ih =>
    obtain ⟨he, hes⟩ := List.forall_mem_cons.mp hes
    exact ⟨hq s t e he hr hc.1, ih (h s t e he hr) hes hc.2⟩

/-- Conditions that agree on related states agree on related runs. -/
theorem steps_sim {R : S → T → Prop} (h : ∀ s t e, R s t → R (step s e) (step' t e)) {Q : S → E → Prop}
    {C : T → E → Prop} (hq : ∀ s t e, R s t → (Q s e ↔ C t e)) {s : S} {t : T} (hr : R s t) (es : List E) :
    Steps step Q s es ↔ Steps step' C t es := by
  induction es generalizing s t with
  | nil => exact Iff.rfl
  | cons e es ih => exact and_congr (hq s t e hr) (ih (h s t e hr))

/-! ## Answers -/

section Answers

variable {R : Type} (astep : S → E → R × S) {astep' : T → E → R × T}

/-- The step of a machine that also answers. -/
def after (s : S) (e : E) : S := (astep s e).2

/-- The answers of a run, each with its event. -/
def answers : S → List E → List (E × R)
  | _, [] => []
  | s, e :: es => (e, (astep s e).1) :: answers (after astep s e) es

variable {astep}

theorem run_map {I : S → Prop} (hI : ∀ s e, I s → I (after astep s e)) {f : S → T}
    (h : ∀ s e, I s → astep' (f s) e = ((astep s e).1, f (astep s e).2)) {s : S} (hs : I s) (es : List E) :
    answers astep' (f s) es = answers astep s es ∧ run (after astep') (f s) es = f (run (after astep) s es) := by
  induction es generalizing s with
  | nil => exact ⟨rfl, rfl⟩
  | cons e es ih =>
    have hstep := h s e hs
    have hafter : after astep' (f s) e = f (after astep s e) := congrArg Prod.snd hstep
    have hanswer : (astep' (f s) e).1 = (astep s e).1 := congrArg Prod.fst hstep
    obtain ⟨hans, hrun⟩ := ih (hI s e hs)
    rw [answers, answers, run, run, hafter, hanswer, hans, hrun]
    exact ⟨rfl, rfl⟩

end Answers

end Iggy.Lib.Run
