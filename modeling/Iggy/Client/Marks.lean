/-
  Iggy.Client.Marks — the lengths alone say where a run leaves password bytes behind.

  Over the histories of `Iggy.Client.Credentials` stands a machine of numbers: of each
  object the length of its password, how far the earlier ones in the same buffer still
  reach, and the capacity. It reads no byte.

  - `marks_remember`: the numbers follow the histories.
  - `released_clean_by_lengths`: where they leave nothing behind no run releases a buffer
    with a password byte, and, if no password holds a NUL, only there.
  - `careful_programs_leave_nothing`: a program whose passwords all have one length, or
    that never assigns, leaves nothing behind.
-/

import Mathlib.Logic.Function.Basic
import Iggy.Client.Credentials

namespace Iggy.Client

open Function (update)
open Iggy.Lib.Residue
open Iggy.Lib.Run (run Steps steps_imp steps_of_inv)

/-! ## Marks -/

structure Mark where
  length : Nat
  /-- One past the last byte the earlier passwords left. -/
  behind : Nat
  capacity : Nat
  deriving DecidableEq, Repr

namespace Mark

def new (length slack : Nat) : Mark := ⟨length, 0, length + slack⟩

/-- One past the last byte any password left. -/
def left (m : Mark) : Nat := if m.behind ≤ m.length + 1 then m.length else m.behind

def assign (m : Mark) (length slack : Nat) : Mark :=
  if length ≤ m.capacity then ⟨length, m.left, m.capacity⟩ else .new length slack

end Mark

def measure (t : Nat → Option Mark) : Ev → Nat → Option Mark
  | .construct this _ password slack =>
    match t this with
    | some _ => t
    | none => update t this (some (.new password.length slack.length))
  | .copyConstruct this other slack =>
    match t this, t other with
    | none, some g => update t this (some (.new g.length slack.length))
    | _, _ => t
  | .copyAssign this other slack =>
    match t this, t other with
    | some m, some g => update t this (some (m.assign g.length slack.length))
    | _, _ => t
  | .destroy this =>
    match t this with
    | some _ => update t this none
    | none => t

/-- A destruction finds no earlier password reaching past the current one's terminator; an
    assignment fits, or finds none at all. -/
def LeavesNoMark (t : Nat → Option Mark) : Ev → Prop
  | .destroy this => ∀ m, t this = some m → m.behind ≤ m.length + 1
  | .copyAssign this other _ => ∀ m g, t this = some m → t other = some g → g.length ≤ m.capacity ∨ m.left = 0
  | _ => True

/-! ## The marks of histories -/

def History.mark (h : History) : Mark := ⟨h.current.length, reach (h.earlier.map List.length), h.capacity⟩

def marks (t : Nat → Option History) : Nat → Option Mark := Option.map History.mark ∘ t

theorem mark_assign (h : History) (password slack : Str) :
    (h.assign password slack).mark = h.mark.assign password.length slack.length := by
  unfold History.assign Mark.assign
  by_cases hfit : password.length ≤ h.capacity
  · rw [if_pos hfit, if_pos (show password.length ≤ h.mark.capacity from hfit)]
    rfl
  · rw [if_neg hfit, if_neg (show ¬ password.length ≤ h.mark.capacity from hfit)]
    rfl

theorem marks_update (t : Nat → Option History) (this : Nat) (h : Option History) :
    marks (update t this h) = update (marks t) this (h.map History.mark) :=
  Function.comp_update _ t this h

theorem marks_some {t : Nat → Option History} {o : Nat} {h : History} (ht : t o = some h) : marks t o = some h.mark := by
  simp [marks, ht]

theorem marks_none {t : Nat → Option History} {o : Nat} (ht : t o = none) : marks t o = none := by
  simp [marks, ht]

theorem marks_remember (t : Nat → Option History) (e : Ev) : marks (remember t e) = measure (marks t) e := by
  cases e with
  | construct this username password slack =>
    rcases ht : t this with _ | h
    · simp only [remember, measure, ht, marks_none ht, marks_update]
      rfl
    · simp only [remember, measure, ht, marks_some ht]
  | copyConstruct this other slack =>
    rcases ht : t this with _ | h
    · rcases hg : t other with _ | g
      · simp only [remember, measure, ht, hg, marks_none ht, marks_none hg]
      · simp only [remember, measure, ht, hg, marks_none ht, marks_some hg, marks_update]
        rfl
    · simp only [remember, measure, ht, marks_some ht]
  | copyAssign this other slack =>
    rcases ht : t this with _ | h
    · simp only [remember, measure, ht, marks_none ht]
    · rcases hg : t other with _ | g
      · simp only [remember, measure, ht, hg, marks_some ht, marks_none hg]
      · simp only [remember, measure, ht, hg, marks_some ht, marks_some hg, marks_update, Option.map_some, mark_assign]
        rfl
  | destroy this =>
    rcases ht : t this with _ | h
    · simp only [remember, measure, ht, marks_none ht]
    · simp only [remember, measure, ht, marks_some ht, marks_update, Option.map_none]

/-! ## What holds of every object -/

section All

variable {A : Type} {K : A → Prop} {t : Nat → Option A}

def All (K : A → Prop) (t : Nat → Option A) : Prop := ∀ o x, t o = some x → K x

theorem all_empty (K : A → Prop) : All K fun _ => none := fun _ _ h => by cases h

theorem All.put (ht : All K t) (this : Nat) {x : A} (hx : K x) : All K (update t this (some x)) := by
  intro o y hy
  by_cases ho : o = this
  · subst ho
    rw [Function.update_self] at hy
    exact Option.some.inj hy ▸ hx
  · rw [Function.update_of_ne ho] at hy
    exact ht o y hy

theorem All.drop (ht : All K t) (this : Nat) : All K (update t this none) := by
  intro o y hy
  by_cases ho : o = this
  · subst ho
    rw [Function.update_self] at hy
    cases hy
  · rw [Function.update_of_ne ho] at hy
    exact ht o y hy

end All

/-! ## Where the marks are exact -/

/-- A password is given without a NUL in it. -/
def Ev.Plain : Ev → Prop
  | .construct _ _ password _ => 0 ∉ password
  | _ => True

/-- No password its buffer was given has one. -/
def History.Plain (h : History) : Prop := ∀ p ∈ h.current :: h.earlier, 0 ∉ p

variable {t : Nat → Option History}

theorem plain_new {password : Str} (hp : 0 ∉ password) (slack : Str) : (History.new password slack).Plain :=
  List.forall_mem_cons.mpr ⟨hp, List.forall_mem_nil _⟩

theorem History.Plain.current {h : History} (hh : h.Plain) : 0 ∉ h.current := hh h.current List.mem_cons_self

theorem plain_assign {h g : History} (hh : h.Plain) (hg : g.Plain) (slack : Str) :
    (h.assign g.current slack).Plain := by
  unfold History.assign
  split
  · exact List.forall_mem_cons.mpr ⟨hg.current, hh⟩
  · exact plain_new hg.current slack

theorem plain_remember (ht : All History.Plain t) {e : Ev} (he : e.Plain) : All History.Plain (remember t e) := by
  cases e with
  | construct this username password slack =>
    rcases hx : t this with _ | h <;> simp only [remember, hx]
    · exact ht.put this (plain_new he slack)
    · exact ht
  | copyConstruct this other slack =>
    rcases hx : t this with _ | h <;> rcases hy : t other with _ | g <;> simp only [remember, hx, hy]
    · exact ht
    · exact ht.put this (plain_new (ht other g hy).current slack)
    · exact ht
    · exact ht
  | copyAssign this other slack =>
    rcases hx : t this with _ | h <;> rcases hy : t other with _ | g <;> simp only [remember, hx, hy]
    · exact ht
    · exact ht
    · exact ht
    · exact ht.put this (plain_assign (ht this h hx) (ht other g hy) slack)
  | destroy this =>
    rcases hx : t this with _ | h <;> simp only [remember, hx]
    · exact ht
    · exact ht.drop this

theorem leavesNothing_of_marks {e : Ev} (h : LeavesNoMark (marks t) e) : LeavesNothing t e := by
  cases e with
  | construct this username password slack => trivial
  | copyConstruct this other slack => trivial
  | copyAssign this other slack =>
    intro k g hk hg
    exact (h k.mark g.mark (marks_some hk) (marks_some hg)).imp id fun hleft =>
      drop_residue_of_reach_le (k := 0) hleft.le
  | destroy this =>
    intro k hk
    exact drop_residue_of_reach_le (h k.mark (marks_some hk))

theorem exists_of_marks {o : Nat} {m : Mark} (h : marks t o = some m) : ∃ k, t o = some k ∧ k.mark = m :=
  Option.map_eq_some_iff.mp h

theorem marks_of_leavesNothing (ht : All History.Plain t) {e : Ev} (h : LeavesNothing t e) : LeavesNoMark (marks t) e := by
  cases e with
  | construct this username password slack => trivial
  | copyConstruct this other slack => trivial
  | copyAssign this other slack =>
    intro m n hm hn
    obtain ⟨k, hk, rfl⟩ := exists_of_marks hm
    obtain ⟨g, hg, rfl⟩ := exists_of_marks hn
    refine (h k g hk hg).imp id fun hzero => ?_
    exact Nat.le_zero.mp (reach_le_of_drop_residue (k := 0) (ht this k hk) hzero)
  | destroy this =>
    intro m hm
    obtain ⟨k, hk, rfl⟩ := exists_of_marks hm
    exact reach_le_of_drop_residue (fun p hp => ht this k hk p (List.mem_cons_of_mem _ hp)) (h k hk)

/-! ## Runs -/

theorem clean_of_no_mark {es : List Ev} (hm : Steps measure LeavesNoMark (fun _ => none) es) :
    ∀ b ∈ (run step init es).released, Clean b.cells := by
  rw [released_clean_steps]
  have hempty : Sim init.objs fun _ => none := fun _ => Or.inl ⟨rfl, rfl⟩
  refine steps_imp (P := fun _ => True) (R := fun (s : St) m => ∃ t, Sim s.objs t ∧ marks t = m) ?_ ?_
    ⟨fun _ => none, hempty, rfl⟩ (fun _ _ => trivial) hm
  · rintro s m e - ⟨t, hs, rfl⟩
    exact ⟨remember t e, sim_remember hs e, marks_remember t e⟩
  · rintro s m e - ⟨t, hs, rfl⟩ hmark
    exact (releases_clean_iff hs e).mpr (leavesNothing_of_marks hmark)

theorem no_mark_of_clean {es : List Ev} (hplain : ∀ e ∈ es, e.Plain)
    (hclean : ∀ b ∈ (run step init es).released, Clean b.cells) :
    Steps measure LeavesNoMark (fun _ => none) es := by
  rw [released_clean_steps] at hclean
  have hempty : Sim init.objs fun _ => none := fun _ => Or.inl ⟨rfl, rfl⟩
  refine steps_imp (P := Ev.Plain) (R := fun m (s : St) => ∃ t, Sim s.objs t ∧ marks t = m ∧ All History.Plain t) ?_ ?_
    ⟨fun _ => none, hempty, rfl, all_empty _⟩ hplain hclean
  · rintro m s e he ⟨t, hs, rfl, ht⟩
    exact ⟨remember t e, sim_remember hs e, marks_remember t e, plain_remember ht he⟩
  · rintro m s e - ⟨t, hs, rfl, ht⟩ hrel
    exact marks_of_leavesNothing ht ((releases_clean_iff hs e).mp hrel)

theorem released_clean_by_lengths (es : List Ev) :
    (Steps measure LeavesNoMark (fun _ => none) es → ∀ b ∈ (run step init es).released, Clean b.cells) ∧
      ((∀ e ∈ es, e.Plain) → (∀ b ∈ (run step init es).released, Clean b.cells) →
        Steps measure LeavesNoMark (fun _ => none) es) :=
  ⟨clean_of_no_mark, no_mark_of_clean⟩

/-! ## Careful programs -/

def Ev.HasLength (n : Nat) : Ev → Prop
  | .construct _ _ password _ => password.length = n
  | _ => True

def Ev.Assigns : Ev → Prop
  | .copyAssign .. => True
  | _ => False

/-- What new buffers, copies and assignments keep of a mark, every step keeps of all. -/
theorem all_measure {K : Mark → Prop} {m : Nat → Option Mark} (hm : All K m) {e : Ev}
    (hnew : ∀ this username password slack, e = .construct this username password slack →
      K (.new password.length slack.length))
    (hcopy : ∀ g slack, K g → K (.new g.length slack))
    (hassign : e.Assigns → ∀ k g slack, K k → K g → K (k.assign g.length slack)) : All K (measure m e) := by
  cases e with
  | construct this username password slack =>
    rcases hx : m this with _ | k <;> simp only [measure, hx]
    · exact hm.put this (hnew this username password slack rfl)
    · exact hm
  | copyConstruct this other slack =>
    rcases hx : m this with _ | k <;> rcases hy : m other with _ | g <;> simp only [measure, hx, hy]
    · exact hm
    · exact hm.put this (hcopy g slack.length (hm other g hy))
    · exact hm
    · exact hm
  | copyAssign this other slack =>
    rcases hx : m this with _ | k <;> rcases hy : m other with _ | g <;> simp only [measure, hx, hy]
    · exact hm
    · exact hm
    · exact hm
    · exact hm.put this (hassign trivial k g slack.length (hm this k hx) (hm other g hy))
  | destroy this =>
    rcases hx : m this with _ | k <;> simp only [measure, hx]
    · exact hm
    · exact hm.drop this

/-- Of length `n`, with nothing behind that reaches further, and room for another. -/
def Level (n : Nat) (k : Mark) : Prop := k.length = n ∧ k.behind ≤ n + 1 ∧ n ≤ k.capacity

theorem level_new (n slack : Nat) : Level n (.new n slack) := ⟨rfl, Nat.zero_le _, Nat.le_add_right n slack⟩

theorem level_assign {n : Nat} {k g : Mark} (hk : Level n k) (hg : Level n g) (slack : Nat) :
    Level n (k.assign g.length slack) := by
  obtain ⟨hlen, hbehind, hcap⟩ := hk
  unfold Mark.assign Mark.left
  rw [hg.1, hlen, if_pos hcap, if_pos hbehind]
  exact ⟨rfl, Nat.le_succ n, hcap⟩

theorem no_mark_of_one_length {n : Nat} {es : List Ev} (h : ∀ e ∈ es, e.HasLength n) :
    Steps measure LeavesNoMark (fun _ => none) es := by
  refine steps_of_inv (P := Ev.HasLength n) (I := All (Level n)) (fun m e he hm => ⟨?_, ?_⟩)
    (all_empty _) h
  · cases e with
    | construct this username password slack => trivial
    | copyConstruct this other slack => trivial
    | copyAssign this other slack =>
      intro k g hk hg
      rw [(hm other g hg).1]
      exact Or.inl (hm this k hk).2.2
    | destroy this =>
      intro k hk
      rw [(hm this k hk).1]
      exact (hm this k hk).2.1
  · refine all_measure hm ?_ (fun g slack hg => hg.1 ▸ level_new g.length slack)
      fun _ k g slack hk hg => level_assign hk hg slack
    rintro this username password slack rfl
    exact (show password.length = n from he) ▸ level_new password.length slack.length

theorem no_mark_of_no_assignment {es : List Ev} (h : ∀ e ∈ es, ¬ e.Assigns) :
    Steps measure LeavesNoMark (fun _ => none) es := by
  refine steps_of_inv (P := fun e => ¬ e.Assigns) (I := All fun k => k.behind = 0) (fun m e he hm => ⟨?_, ?_⟩)
    (all_empty _) h
  · cases e with
    | construct this username password slack => trivial
    | copyConstruct this other slack => trivial
    | copyAssign this other slack => exact absurd trivial he
    | destroy this =>
      intro k hk
      rw [hm this k hk]
      exact Nat.zero_le _
  · exact all_measure hm (fun _ _ _ _ _ => rfl) (fun _ _ _ => rfl) fun ha => absurd ha he

theorem careful_programs_leave_nothing {es : List Ev}
    (h : (∃ n, ∀ e ∈ es, e.HasLength n) ∨ ∀ e ∈ es, ¬ e.Assigns) :
    ∀ b ∈ (run step init es).released, Clean b.cells := by
  apply clean_of_no_mark
  rcases h with ⟨n, h⟩ | h
  · exact no_mark_of_one_length h
  · exact no_mark_of_no_assignment h

/-- One password replaced by another as long: both buffers are released, and clean. -/
theorem a_password_replaced :
    let es := [.construct 0 (str "iggy") (str "tiger") [], .construct 1 (str "iggy") (str "eagle") [],
      .copyAssign 0 1 [], .destroy 1, .destroy 0]
    (run step init es).released.length = 2 ∧ ∀ b ∈ (run step init es).released, Clean b.cells := by
  intro es
  refine ⟨rfl, careful_programs_leave_nothing (Or.inl ⟨5, ?_⟩)⟩
  simp only [es, List.forall_mem_cons]
  exact ⟨rfl, rfl, trivial, trivial, trivial, List.forall_mem_nil _⟩

end Iggy.Client
