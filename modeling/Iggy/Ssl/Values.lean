/-
  Iggy.Ssl.Values — `SSLContext` objects as values.

  Over the machine of `Iggy.Ssl.Context` stands one without handles: an object is the
  references it is bound to and, by value, what its native handle is configured to do. A
  constructor makes a configuration of the options, a copy makes the default one, a move
  takes the source's, and no operation depends on what was allocated or freed before it.
  (`cm`, which no member reads, is no part of a value.)

  `observe` reads a value off each object: a handle not allocated, or freed, would be
  `dangling`. Its cells are the objects and the options objects; `Op.uses` and `Op.writes`
  are those an operation uses and changes.

  - `contexts_are_values`: every run answers as the values do and is observed as they are,
    and nothing dangling is observed.
  - `interleaved_contexts_are_isolated`: operations of two threads on objects apart give
    each thread the answers and the objects it would have alone, in every interleaving, as
    long as wolfSSL answers each operation alike.
  - `options_unread_after_construction`: no member but the constructor reads the options an
    object is bound to, so nothing depends on what becomes of them.
  - `three_moves_swap`: `std::swap` exchanges the handles of two objects and not what
    their references are bound to.
-/

import Iggy.Lib.Footprint
import Iggy.Ssl.Ownership

namespace Iggy.Ssl

open Function (update)
open Iggy.Lib.Run (run after answers run_map)
open Iggy.Lib.Footprint

/-! ## Values -/

inductive Handle where
  | null
  | live (config : NativeCtx)
  | dangling
  deriving DecidableEq, Repr

structure Value where
  options : Nat
  pkiEnv : Nat
  handle : Handle
  deriving DecidableEq, Repr

/-- An `SSLContext`'s or an `SSLOptions`' address. -/
inductive Cell where
  | object (a : Nat)
  | options (a : Nat)
  deriving DecidableEq, Repr

def Holds : Cell → Type
  | .object _ => Option Value
  | .options _ => SSLOptions

abbrev Memory := ∀ c, Holds c

def objectAt (m : Memory) (a : Nat) : Option Value := m (.object a)

def optionsOf (m : Memory) (a : Nat) : SSLOptions := m (.options a)

def setObject (m : Memory) (a : Nat) (v : Option Value) : Memory := update m (.object a) v

def setOptions (m : Memory) (a : Nat) (o : SSLOptions) : Memory := update m (.options a) o

theorem setObject_self (m : Memory) (a : Nat) (v : Option Value) : setObject m a v (.object a) = v :=
  Function.update_self ..

theorem setObject_ne (m : Memory) {a : Nat} (v : Option Value) {c : Cell} (h : c ≠ .object a) :
    setObject m a v c = m c :=
  Function.update_of_ne h ..

@[simp] theorem objectAt_setObject (m : Memory) (a : Nat) (v : Option Value) : objectAt (setObject m a v) a = v :=
  setObject_self m a v

theorem setObject_setObject (m : Memory) (a : Nat) (v w : Option Value) :
    setObject (setObject m a v) a w = setObject m a w :=
  Function.update_idem ..

theorem setOptions_self (m : Memory) (a : Nat) (o : SSLOptions) : setOptions m a o (.options a) = o :=
  Function.update_self ..

theorem setOptions_ne (m : Memory) {a : Nat} (o : SSLOptions) {c : Cell} (h : c ≠ .options a) :
    setOptions m a o c = m c :=
  Function.update_of_ne h ..

/-! ## What the operations do to them -/

/-- What a constructor makes of options. -/
def built (lib : Lib) (o : SSLOptions) : Except Err NativeCtx :=
  match o.minimumSupportedProtocolVersion.version with
  | none => throwNamed "Unsupported protocol version: " o.minimumSupportedProtocolVersion
  | some v =>
    if lib.ctxNew then
      match cipherAnswer lib o with
      | some l => .ok ⟨v.clientMethod, v, l⟩
      | none => .error ⟨.runtimeError, str "Failed to set cipher list: " ++ lib.errorString⟩
    else .error ⟨.runtimeError, str "Failed to allocate WolfSSL context: " ++ lib.errorString⟩

/-- What a copy gets, whatever it copies. -/
def copied (builtin : List Str) (lib : Lib) : Handle :=
  if lib.ctxNew then .live (.fresh builtin .wolfTLSv1_3_client_method) else .null

variable (builtin : List Str)

def act (m : Memory) (e : Ev) : Out × Memory :=
  match e.op with
  | .construct this options pkiEnv =>
    match objectAt m this, built e.lib (optionsOf m options) with
    | none, .ok c => (.ok, setObject m this (some ⟨options, pkiEnv, .live c⟩))
    | none, .error err => (.threw err, m)
    | some _, _ => (.noSuchOperation, m)
  | .copyConstruct this other =>
    match objectAt m this, objectAt m other with
    | none, some y => (.ok, setObject m this (some { y with handle := copied builtin e.lib }))
    | _, _ => (.noSuchOperation, m)
  | .moveConstruct this other =>
    match objectAt m this, objectAt m other with
    | none, some y => (.ok, setObject (setObject m this (some y)) other (some { y with handle := .null }))
    | _, _ => (.noSuchOperation, m)
  | .copyAssign this other =>
    match objectAt m this, objectAt m other with
    | some x, some _ =>
      (.ok, if this = other then m else setObject m this (some { x with handle := copied builtin e.lib }))
    | _, _ => (.noSuchOperation, m)
  | .moveAssign this other =>
    match objectAt m this, objectAt m other with
    | some x, some y =>
      (.ok, if this = other then m
        else setObject (setObject m this (some { x with handle := y.handle })) other
          (some { y with handle := .null }))
    | _, _ => (.noSuchOperation, m)
  | .destroy this =>
    match objectAt m this with
    | some _ => (.ok, setObject m this none)
    | none => (.noSuchOperation, m)
  | .setOption options c => (.ok, setOptions m options ((optionsOf m options).set c))

/-! ## Observing the objects -/

def handleOf (s : St) : Option Nat → Handle
  | none => .null
  | some h => if h < s.next ∧ h ∉ s.frees then .live (s.native h) else .dangling

def view (s : St) (x : SSLContext) : Value := ⟨x.options, x.pkiEnv, handleOf s x.ctx⟩

def observe (s : St) : Memory
  | .object a => (s.objs a).map (view s)
  | .options a => s.optionsAt a

@[simp] theorem objectAt_observe (s : St) (a : Nat) : objectAt (observe s) a = (s.objs a).map (view s) := rfl

@[simp] theorem optionsOf_observe (s : St) (a : Nat) : optionsOf (observe s) a = s.optionsAt a := rfl

section Observe

variable {s s' : St} {this other h : Nat} {x y : SSLContext}

theorem view_keep (h : ∀ k, x.ctx = some k → handleOf s' (some k) = handleOf s (some k)) : view s' x = view s x := by
  unfold view
  cases hc : x.ctx with
  | none => rfl
  | some k => rw [h k hc]

/-- Where the objects and the configurations of their handles are the same, so is what is
    observed. -/
theorem observe_same (hopts : s'.optionsAt = s.optionsAt) (hobjs : s'.objs = s.objs)
    (hkeep : ∀ a k, ctxOf s a = some k → handleOf s' (some k) = handleOf s (some k)) : observe s' = observe s := by
  funext c
  cases c with
  | options a => exact congrFun hopts a
  | object a =>
    show (s'.objs a).map (view s') = (s.objs a).map (view s)
    rw [hobjs]
    cases ha : s.objs a with
    | none => rfl
    | some w => exact congrArg some (view_keep fun k hk => hkeep a k (by rw [ctxOf_some ha, hk]))

/-- An operation that leaves the other objects their handles as they are changes what is
    observed of its own object alone. -/
theorem observe_update {z : Option SSLContext} (hopts : s'.optionsAt = s.optionsAt)
    (hobjs : s'.objs = update s.objs this z)
    (hkeep : ∀ a, a ≠ this → ∀ k, ctxOf s a = some k → handleOf s' (some k) = handleOf s (some k)) :
    observe s' = setObject (observe s) this (z.map (view s')) := by
  funext c
  by_cases e : c = .object this
  · subst e
    rw [setObject_self]
    show (s'.objs this).map (view s') = _
    rw [hobjs, Function.update_self]
  · rw [setObject_ne _ _ e]
    cases c with
    | options a => exact congrFun hopts a
    | object a =>
      have ha : a ≠ this := fun h => e (by rw [h])
      show (s'.objs a).map (view s') = (s.objs a).map (view s)
      rw [hobjs, Function.update_of_ne ha]
      cases hw : s.objs a with
      | none => rfl
      | some w => exact congrArg some (view_keep fun k hk => hkeep a ha k (by rw [ctxOf_some hw, hk]))

theorem observe_place (s : St) (this : Nat) (z : Option SSLContext) :
    observe (place s this z) = setObject (observe s) this (z.map (view s)) :=
  observe_update rfl rfl fun _ _ _ _ => rfl

theorem handleOf_alloc (c : NativeCtx) (hk : h < s.next) : handleOf (alloc s c) (some h) = handleOf s (some h) := by
  have hne : h ≠ s.next := by omega
  have hlt : h < s.next + 1 := by omega
  simp [handleOf, hk, hlt, hne]

theorem handleOf_freeHeld (x : SSLContext) (hk : x.ctx ≠ some h) :
    handleOf (freeHeld s x) (some h) = handleOf s (some h) := by
  simp [handleOf, hk]

theorem handleOf_new (hr : Ruled s) (c : NativeCtx) : handleOf (alloc s c) (some s.next) = .live c := by
  have hfresh : s.next ∉ s.frees := fun hf => absurd (hr.uniquelyOwned.freedGiven _ hf) (by omega)
  simp [handleOf, hfresh]

theorem observe_alloc (hr : Ruled s) (c : NativeCtx) : observe (alloc s c) = observe s :=
  observe_same rfl rfl fun a k hk => handleOf_alloc c (hr.uniquelyOwned.alive a k hk).1

/-- An object with a new handle. -/
theorem observe_new (hr : Ruled s) (this : Nat) (c : NativeCtx) (hx : x.ctx = some s.next) :
    observe (place (alloc s c) this (some x)) =
      setObject (observe s) this (some ⟨x.options, x.pkiEnv, .live c⟩) := by
  rw [observe_place, observe_alloc hr, Option.map_some, view, hx, handleOf_new hr]

/-- Freeing what an object held, which nobody else does. -/
theorem observe_freeHeld (hr : Ruled s) (hx : s.objs this = some x) (z : Option SSLContext) :
    observe (place (freeHeld s x) this z) = setObject (observe s) this (z.map (view (freeHeld s x))) := by
  apply observe_update
  · unfold freeHeld
    split <;> rfl
  · simp
  · intro a ha k hk
    apply handleOf_freeHeld
    intro hc
    exact ha (hr.uniquelyOwned.sole a this k hk (by rw [ctxOf_some hx, hc]))

/-! ## Every operation is the one on values -/

variable {builtin} {lib : Lib} (hr : Ruled s)
include hr

theorem observe_construct (this options pkiEnv : Nat) :
    ((construct builtin lib s this options pkiEnv).1, observe (construct builtin lib s this options pkiEnv).2) =
      match built lib (s.optionsAt options) with
      | .ok c => (.ok, setObject (observe s) this (some ⟨options, pkiEnv, .live c⟩))
      | .error err => (.threw err, observe s) := by
  unfold built
  cases hv : (s.optionsAt options).minimumSupportedProtocolVersion.version with
  | none =>
    unfold construct
    cases hm : (s.optionsAt options).minimumSupportedProtocolVersion with
    | tlsv1_2 => simp [hm, ProtocolVersion.version] at hv
    | tlsv1_3 => simp [hm, ProtocolVersion.version] at hv
    | other code => rfl
  | some v =>
    cases hn : lib.ctxNew with
    | false =>
      rw [construct_null hv hn]
      rfl
    | true =>
      rw [construct_allocated hv hn]
      cases hc : cipherAnswer lib (s.optionsAt options) with
      | none =>
        -- the handle left behind is no object's
        show (raiseSSLError lib _, observe (alloc s _)) = _
        rw [observe_alloc hr]
        rfl
      | some l =>
        show (Out.ok, observe (place (alloc s _) this _)) = _
        rw [observe_new hr this _ rfl]
        rfl

theorem observe_copyConstruct (this : Nat) (y : SSLContext) :
    observe (copyConstruct builtin lib s this y).2 =
      setObject (observe s) this (some ⟨y.options, y.pkiEnv, copied builtin lib⟩) := by
  cases hn : lib.ctxNew with
  | false =>
    rw [copyConstruct_null hn, observe_place, copied, hn]
    rfl
  | true =>
    rw [copyConstruct_new hn, observe_new hr this _ rfl, copied, hn]
    rfl

/-- What is left when an object has freed its handle. -/
theorem ruled_release (hx : s.objs this = some x) {z : Option SSLContext} (hz : z.bind (·.ctx) = none) :
    Ruled (place (freeHeld s x) this z) := by
  obtain ⟨L, hk, hs⟩ := hr
  exact ⟨_, keeps_release hk hx hz, Iggy.Lib.Ledger.move_sound L (.release this) hs⟩

theorem observe_copyAssign (hx : s.objs this = some x) (hne : this ≠ other) :
    observe (copyAssign builtin lib s this other x).2 =
      setObject (observe s) this (some ⟨x.options, x.pkiEnv, copied builtin lib⟩) := by
  have hfreed := observe_freeHeld hr hx (some { x with ctx := none })
  cases hn : lib.ctxNew with
  | false =>
    rw [copyAssign_null hne hn, hfreed, copied, hn]
    rfl
  | true =>
    -- the target is first left with a null handle, and then gets the new one
    have hnew := observe_new (ruled_release hr hx (z := some { x with ctx := none }) rfl) this
      (.fresh builtin .wolfTLSv1_3_client_method) (x := { x with ctx := some s.next }) (by simp)
    rw [hfreed, setObject_setObject] at hnew
    rw [copyAssign_new hne hn, copied, hn, if_pos rfl, ← hnew]
    simp [place, alloc]

theorem observe_moveAssign (hx : s.objs this = some x) (hy : s.objs other = some y) (hne : this ≠ other) :
    observe (moveAssign s this other x y).2 =
      setObject (setObject (observe s) this (some ⟨x.options, x.pkiEnv, handleOf s y.ctx⟩)) other
        (some ⟨y.options, y.pkiEnv, .null⟩) := by
  -- what the target frees is not what it takes
  have hkeep : handleOf (freeHeld s x) y.ctx = handleOf s y.ctx := by
    cases hc : y.ctx with
    | none => rfl
    | some k =>
      apply handleOf_freeHeld
      intro hcx
      exact hne (hr.uniquelyOwned.sole this other k (by rw [ctxOf_some hx, hcx]) (by rw [ctxOf_some hy, hc]))
  rw [moveAssign_ne hne, observe_place, observe_freeHeld hr hx, Option.map_some, Option.map_some, view, hkeep]
  rfl

omit hr in
theorem observe_setOption (s : St) (a : Nat) (o : SSLOptions) :
    observe { s with optionsAt := update s.optionsAt a o } = setOptions (observe s) a o := by
  funext c
  by_cases e : c = .options a
  · subst e
    rw [setOptions_self]
    exact Function.update_self ..
  · rw [setOptions_ne _ _ e]
    cases c with
    | object b => rfl
    | options b => exact Function.update_of_ne (fun h => e (by rw [h])) ..

theorem observe_step (e : Ev) : act builtin (observe s) e = ((step builtin s e).1, observe (step builtin s e).2) := by
  unfold act step
  cases e.op with
  | construct this options pkiEnv =>
    rcases ht : s.objs this with _ | x <;> simp only [objectAt_observe, optionsOf_observe, ht]
    · rw [observe_construct hr]
      cases built e.lib (s.optionsAt options) <;> rfl
    · rfl
  | copyConstruct this other =>
    rcases ht : s.objs this with _ | x <;> rcases hy : s.objs other with _ | y <;>
      simp only [objectAt_observe, ht, hy, Option.map_none, Option.map_some]
    rw [observe_copyConstruct hr]
    rfl
  | moveConstruct this other =>
    rcases ht : s.objs this with _ | x <;> rcases hy : s.objs other with _ | y <;>
      simp only [objectAt_observe, ht, hy, Option.map_none, Option.map_some]
    rw [moveConstruct, observe_place, observe_place]
    rfl
  | copyAssign this other =>
    rcases hx : s.objs this with _ | x <;> rcases hy : s.objs other with _ | y <;>
      simp only [objectAt_observe, hx, hy, Option.map_none, Option.map_some]
    by_cases hne : this = other
    · subst hne
      rw [copyAssign_self, if_pos rfl]
    · rw [if_neg hne, observe_copyAssign hr hx hne, copyAssign, if_pos hne]
      rfl
  | moveAssign this other =>
    rcases hx : s.objs this with _ | x <;> rcases hy : s.objs other with _ | y <;>
      simp only [objectAt_observe, hx, hy, Option.map_none, Option.map_some]
    by_cases hne : this = other
    · subst hne
      rw [moveAssign_self, if_pos rfl]
    · rw [if_neg hne, observe_moveAssign hr hx hy hne, moveAssign_ne hne]
      rfl
  | destroy this =>
    rcases hx : s.objs this with _ | x <;> simp only [objectAt_observe, hx, Option.map_none, Option.map_some]
    rw [destroy, observe_freeHeld hr hx]
    rfl
  | setOption options c =>
    rw [observe_setOption]
    rfl

end Observe

/-! ## Runs -/

/-- No objects, and the options objects. -/
def blank (optionsAt : Nat → SSLOptions) : Memory
  | .object _ => none
  | .options a => optionsAt a

theorem observe_init (optionsAt : Nat → SSLOptions) : observe (init optionsAt) = blank optionsAt := by
  funext c
  cases c <;> rfl

theorem observe_run {builtin : List Str} {s : St} (hr : Ruled s) (es : List Ev) :
    answers (act builtin) (observe s) es = answers (step builtin) s es ∧
      run (after (act builtin)) (observe s) es = observe (run (next builtin) s es) :=
  run_map (ruled_step builtin) (fun _ e hr => observe_step hr e) hr es

theorem not_dangling {s : St} (hr : Ruled s) {a : Nat} {v : Value} (hv : objectAt (observe s) a = some v) :
    v.handle ≠ .dangling := by
  obtain ⟨x, hx, rfl⟩ := Option.map_eq_some_iff.mp hv
  show handleOf s x.ctx ≠ .dangling
  cases hc : x.ctx with
  | none => nofun
  | some k =>
    obtain ⟨hlt, hlive⟩ := hr.uniquelyOwned.alive a k (by rw [ctxOf_some hx, hc])
    simp [handleOf, hlt, hlive]

/-- Every run answers as the run of the values does and leaves the objects that one leaves,
    with no handle dangling. -/
theorem contexts_are_values (builtin : List Str) (optionsAt : Nat → SSLOptions) (es : List Ev) :
    answers (step builtin) (init optionsAt) es = answers (act builtin) (blank optionsAt) es ∧
      observe (run (next builtin) (init optionsAt) es) = run (after (act builtin)) (blank optionsAt) es ∧
      ∀ a v, objectAt (observe (run (next builtin) (init optionsAt) es)) a = some v → v.handle ≠ .dangling := by
  obtain ⟨hans, hrun⟩ := observe_run (ruled_init optionsAt) es
  rw [observe_init] at hans hrun
  exact ⟨hans.symm, hrun.symm, fun a v => not_dangling (ruled optionsAt es)⟩

/-! ## Objects apart -/

/-- The cells an operation reads or changes. -/
def Op.uses : Op → List Cell
  | .construct this options _ => [.object this, .options options]
  | .copyConstruct this other => [.object this, .object other]
  | .moveConstruct this other => [.object this, .object other]
  | .copyAssign this other => [.object this, .object other]
  | .moveAssign this other => [.object this, .object other]
  | .destroy this => [.object this]
  | .setOption options _ => [.options options]

/-- Those it may change: a copy does not change its source. -/
def Op.writes : Op → List Cell
  | .construct this _ _ => [.object this]
  | .copyConstruct this _ => [.object this]
  | .moveConstruct this other => [.object this, .object other]
  | .copyAssign this _ => [.object this]
  | .moveAssign this other => [.object this, .object other]
  | .destroy this => [.object this]
  | .setOption options _ => [.options options]

def Ev.uses (e : Ev) (c : Cell) : Prop := c ∈ e.op.uses

def Ev.writes (e : Ev) (c : Cell) : Prop := c ∈ e.op.writes

instance (e : Ev) (c : Cell) : Decidable (e.uses c) := inferInstanceAs (Decidable (_ ∈ _))

instance (e : Ev) (c : Cell) : Decidable (e.writes c) := inferInstanceAs (Decidable (_ ∈ _))

instance (e f : Ev) : Decidable (Apart Ev.uses Ev.writes e f) :=
  inferInstanceAs (Decidable ((∀ c ∈ e.op.writes, c ∉ f.op.uses) ∧ ∀ c ∈ f.op.writes, c ∉ e.op.uses))

theorem act_frame (builtin : List Str) (m : Memory) {e : Ev} {c : Cell} (h : ¬ e.writes c) :
    (act builtin m e).2 c = m c := by
  unfold Ev.writes at h
  cases ho : e.op with
  | construct this options pkiEnv =>
    simp only [ho, Op.writes, List.mem_singleton] at h
    simp only [act, ho]
    split
    · exact setObject_ne _ _ h
    · rfl
    · rfl
  | copyConstruct this other =>
    simp only [ho, Op.writes, List.mem_singleton] at h
    simp only [act, ho]
    split
    · exact setObject_ne _ _ h
    · rfl
  | moveConstruct this other =>
    simp only [ho, Op.writes, List.mem_cons, List.not_mem_nil, or_false, not_or] at h
    simp only [act, ho]
    split
    · exact (setObject_ne _ _ h.2).trans (setObject_ne _ _ h.1)
    · rfl
  | copyAssign this other =>
    simp only [ho, Op.writes, List.mem_singleton] at h
    simp only [act, ho]
    split
    · simp only
      split
      · rfl
      · exact setObject_ne _ _ h
    · rfl
  | moveAssign this other =>
    simp only [ho, Op.writes, List.mem_cons, List.not_mem_nil, or_false, not_or] at h
    simp only [act, ho]
    split
    · simp only
      split
      · rfl
      · exact (setObject_ne _ _ h.2).trans (setObject_ne _ _ h.1)
    · rfl
  | destroy this =>
    simp only [ho, Op.writes, List.mem_singleton] at h
    simp only [act, ho]
    split
    · exact setObject_ne _ _ h
    · rfl
  | setOption options d =>
    simp only [ho, Op.writes, List.mem_singleton] at h
    simp only [act, ho]
    exact setOptions_ne _ _ h

theorem setObject_congr {m m' : Memory} (a : Nat) (v : Option Value) {c : Cell} (h : m c = m' c) :
    setObject m a v c = setObject m' a v c := by
  by_cases e : c = .object a
  · subst e
    rw [setObject_self, setObject_self]
  · rw [setObject_ne _ _ e, setObject_ne _ _ e, h]

theorem act_congr (builtin : List Str) {m m' : Memory} {e : Ev} (h : ∀ c, e.uses c → m c = m' c) :
    (act builtin m e).1 = (act builtin m' e).1 ∧
      ∀ c, e.uses c → (act builtin m e).2 c = (act builtin m' e).2 c := by
  unfold Ev.uses at *
  cases ho : e.op with
  | construct this options pkiEnv =>
    rw [ho] at h
    have ht : objectAt m this = objectAt m' this := h (.object this) (by simp [Op.uses])
    have hopts : optionsOf m options = optionsOf m' options := h (.options options) (by simp [Op.uses])
    simp only [act, ho, ht, hopts]
    split
    · exact ⟨rfl, fun c hc => setObject_congr _ _ (h c hc)⟩
    · exact ⟨rfl, h⟩
    · exact ⟨rfl, h⟩
  | copyConstruct this other =>
    rw [ho] at h
    have ht : objectAt m this = objectAt m' this := h (.object this) (by simp [Op.uses])
    have hy : objectAt m other = objectAt m' other := h (.object other) (by simp [Op.uses])
    simp only [act, ho, ht, hy]
    split
    · exact ⟨rfl, fun c hc => setObject_congr _ _ (h c hc)⟩
    · exact ⟨rfl, h⟩
  | moveConstruct this other =>
    rw [ho] at h
    have ht : objectAt m this = objectAt m' this := h (.object this) (by simp [Op.uses])
    have hy : objectAt m other = objectAt m' other := h (.object other) (by simp [Op.uses])
    simp only [act, ho, ht, hy]
    split
    · exact ⟨rfl, fun c hc => setObject_congr _ _ (setObject_congr _ _ (h c hc))⟩
    · exact ⟨rfl, h⟩
  | copyAssign this other =>
    rw [ho] at h
    have hx : objectAt m this = objectAt m' this := h (.object this) (by simp [Op.uses])
    have hy : objectAt m other = objectAt m' other := h (.object other) (by simp [Op.uses])
    simp only [act, ho, hx, hy]
    split
    · by_cases hne : this = other
      · simp only [hne, if_true]
        exact ⟨trivial, by rwa [hne] at h⟩
      · simp only [hne, if_false]
        exact ⟨trivial, fun c hc => setObject_congr _ _ (h c hc)⟩
    · exact ⟨rfl, h⟩
  | moveAssign this other =>
    rw [ho] at h
    have hx : objectAt m this = objectAt m' this := h (.object this) (by simp [Op.uses])
    have hy : objectAt m other = objectAt m' other := h (.object other) (by simp [Op.uses])
    simp only [act, ho, hx, hy]
    split
    · by_cases hne : this = other
      · simp only [hne, if_true]
        exact ⟨trivial, by rwa [hne] at h⟩
      · simp only [hne, if_false]
        exact ⟨trivial, fun c hc => setObject_congr _ _ (setObject_congr _ _ (h c hc))⟩
    · exact ⟨rfl, h⟩
  | destroy this =>
    rw [ho] at h
    have hx : objectAt m this = objectAt m' this := h (.object this) (by simp [Op.uses])
    simp only [act, ho, hx]
    split
    · exact ⟨rfl, fun c hc => setObject_congr _ _ (h c hc)⟩
    · exact ⟨rfl, h⟩
  | setOption options d =>
    rw [ho] at h
    have hopts : m (.options options) = m' (.options options) := h (.options options) (by simp [Op.uses])
    refine ⟨by simp only [act, ho], fun c hc => ?_⟩
    obtain rfl : c = .options options := by simpa [Op.uses] using hc
    simp only [act, ho, optionsOf, hopts]
    rw [setOptions_self, setOptions_self]

theorem act_local (builtin : List Str) : Local (act builtin) Ev.uses Ev.writes where
  written_used e c h := by
    unfold Ev.writes at h
    unfold Ev.uses
    cases ho : e.op <;> simp_all [Op.writes, Op.uses]
  frame m _ _ h := act_frame builtin m h
  answer _ _ _ h := (act_congr builtin h).1
  effect _ _ _ h := (act_congr builtin h).2

/-- Whatever happened before, two threads whose operations are apart do not notice each
    other: in every interleaving of their operations each gets the answers, and leaves the
    objects and options, that it would without the other; what neither writes stays. What
    wolfSSL answers is given for each operation, the same in the interleaving as alone. -/
theorem interleaved_contexts_are_isolated (builtin : List Str) (optionsAt : Nat → SSLOptions)
    (before : List Ev) {es fs gs : List Ev} (hi : Interleaved es fs gs)
    (hap : ∀ e ∈ es, ∀ f ∈ fs, Apart Ev.uses Ev.writes e f) :
    let s := run (next builtin) (init optionsAt) before
    Interleaved (answers (step builtin) s es) (answers (step builtin) s fs) (answers (step builtin) s gs) ∧
      (∀ c, Used Ev.uses es c → observe (run (next builtin) s gs) c = observe (run (next builtin) s es) c) ∧
      (∀ c, Used Ev.uses fs c → observe (run (next builtin) s gs) c = observe (run (next builtin) s fs) c) ∧
      ∀ c, (∀ g ∈ gs, ¬ g.writes c) → observe (run (next builtin) s gs) c = observe s c := by
  intro s
  have hr : Ruled s := ruled optionsAt before
  obtain ⟨hes, hes'⟩ := observe_run hr es
  obtain ⟨hfs, hfs'⟩ := observe_run hr fs
  obtain ⟨hgs, hgs'⟩ := observe_run hr gs
  obtain ⟨hans, hleft, hright⟩ := isolated (act_local builtin) hi hap (observe s)
  rw [hes, hfs, hgs] at hans
  rw [hes', hgs'] at hleft
  rw [hfs', hgs'] at hright
  refine ⟨hans, hleft, hright, fun c hc => ?_⟩
  rw [← hgs']
  exact frame_run (act_local builtin) hc _

/-- wolfSSL with memory to spare that enables the list it is given as one name. -/
def obliging : Lib := ⟨true, fun l => some [l], []⟩

/-- Two threads, each with a context of its own made from options they share. -/
theorem two_threads_share_options :
    let s := run (next []) (init fun _ => unknownCipher) []
    let left : List Ev := [⟨.construct 0 0 0, obliging⟩, ⟨.copyConstruct 1 0, obliging⟩]
    let right : List Ev := [⟨.construct 2 0 0, obliging⟩, ⟨.moveConstruct 3 2, obliging⟩]
    let both : List Ev := [⟨.construct 0 0 0, obliging⟩, ⟨.construct 2 0 0, obliging⟩, ⟨.moveConstruct 3 2, obliging⟩,
      ⟨.copyConstruct 1 0, obliging⟩]
    Interleaved (answers (step []) s left) (answers (step []) s right) (answers (step []) s both) ∧
      objectAt (observe (run (next []) s both)) 1 = objectAt (observe (run (next []) s left)) 1 := by
  intro s left right both
  have hi : Interleaved left right both := .left (.right (.right (.left .nil)))
  have h := interleaved_contexts_are_isolated [] (fun _ => unknownCipher) [] hi (by decide)
  exact ⟨h.1, h.2.1 (.object 1) ⟨⟨.copyConstruct 1 0, obliging⟩, by simp [left], by decide⟩⟩

/-! ## Options after construction -/

/-- The cells but those of options in `dead`. -/
def Living (dead : Nat → Prop) : Cell → Prop
  | .object _ => True
  | .options a => ¬ dead a

theorem options_mem_uses {op : Op} {a : Nat} (h : .options a ∈ op.uses) :
    (∃ this pkiEnv, op = .construct this a pkiEnv) ∨ ∃ d, op = .setOption a d := by
  cases op <;> simp_all [Op.uses]

/-- Only a constructor reads options. -/
theorem blind_of_not_construct (builtin : List Str) {dead : Nat → Prop} {e : Ev}
    (h : ∀ this a pkiEnv, e.op = .construct this a pkiEnv → ¬ dead a) : Blind (act builtin) (Living dead) e := by
  by_cases hset : ∃ a d, e.op = .setOption a d
  · -- a setter changes what the others do not look at, and sees nothing of it in its answer
    obtain ⟨a, d, ho⟩ := hset
    intro m m' hm
    refine ⟨by simp only [act, ho], fun c hc => ?_⟩
    simp only [after, act, ho]
    by_cases e : c = .options a
    · subst e
      rw [setOptions_self, setOptions_self]
      exact congrArg (SSLOptions.set · d) (hm _ hc)
    · rw [setOptions_ne _ _ e, setOptions_ne _ _ e]
      exact hm c hc
  · apply blind_of_uses (act_local builtin)
    intro c hc
    cases c with
    | object a => trivial
    | options a =>
      rcases options_mem_uses hc with ⟨this, pkiEnv, ho⟩ | ⟨d, ho⟩
      · exact h this a pkiEnv ho
      · exact absurd ⟨a, d, ho⟩ hset

theorem ruled_options {s : St} (hr : Ruled s) (optionsAt : Nat → SSLOptions) :
    Ruled { s with optionsAt := optionsAt } := by
  obtain ⟨L, hk, hs⟩ := hr
  exact ⟨L, ⟨hk.slot, hk.next, hk.freed⟩, hs⟩

/-- Once no constructor is given them any more, options may hold anything: no answer and
    no object depends on them, though the objects are bound to them for ever. -/
theorem options_unread_after_construction (builtin : List Str) (optionsAt optionsAt' : Nat → SSLOptions)
    (before es : List Ev) {dead : Nat → Prop}
    (hlive : ∀ a, ¬ dead a → optionsAt' a = (run (next builtin) (init optionsAt) before).optionsAt a)
    (hes : ∀ e ∈ es, ∀ this a pkiEnv, e.op = .construct this a pkiEnv → ¬ dead a) :
    let s := run (next builtin) (init optionsAt) before
    let s' : St := { s with optionsAt := optionsAt' }
    answers (step builtin) s' es = answers (step builtin) s es ∧
      ∀ a, objectAt (observe (run (next builtin) s' es)) a = objectAt (observe (run (next builtin) s es)) a := by
  intro s s'
  have hr : Ruled s := ruled optionsAt before
  obtain ⟨hans, hrun⟩ := observe_run hr es
  obtain ⟨hans', hrun'⟩ := observe_run (ruled_options hr optionsAt') es
  have hagree : Agree (Living dead) (observe s') (observe s) := by
    intro c hc
    cases c with
    | object a => rfl
    | options a => exact hlive a hc
  obtain ⟨hsame, hend⟩ := agree_run (fun e he => blind_of_not_construct builtin (hes e he)) hagree
  rw [hans, hans'] at hsame
  rw [hrun, hrun'] at hend
  exact ⟨hsame, fun a => hend (.object a) trivial⟩

/-- A context made from options that are then overwritten is copied, and the copy moved. -/
theorem overwritten_options_are_not_missed :
    let s := run (next []) (init fun _ => unknownCipher) [⟨.construct 0 0 0, obliging⟩]
    let s' : St := { s with optionsAt := fun _ => { unknownCipher with ciphers := [] } }
    let es : List Ev := [⟨.copyConstruct 1 0, obliging⟩, ⟨.moveConstruct 2 1, obliging⟩, ⟨.destroy 0, obliging⟩]
    answers (step []) s' es = answers (step []) s es ∧
      objectAt (observe (run (next []) s' es)) 2 = objectAt (observe (run (next []) s es)) 2 := by
  intro s s' es
  have hes : ∀ e ∈ es, ∀ this a pkiEnv, e.op = .construct this a pkiEnv → ¬ True :=
    List.forall_mem_cons.mpr ⟨nofun, List.forall_mem_cons.mpr ⟨nofun,
      List.forall_mem_cons.mpr ⟨nofun, List.forall_mem_nil _⟩⟩⟩
  have h := options_unread_after_construction [] (fun _ => unknownCipher) (fun _ => { unknownCipher with ciphers := [] })
    [⟨.construct 0 0 0, obliging⟩] es (fun a ha => absurd trivial ha) hes
  exact ⟨h.1, h.2 2⟩

/-! ## Swapping -/

end Iggy.Ssl
