/-
  Iggy.Ssl.Allocation — operations whose `wolfSSL_CTX_new` returns null.

  The constructor checks the handle before anything lives at `this`, and throws. The two
  copies do not look at it: copy construction makes an object without a handle, and copy
  assignment has by then freed the target's.

  Proved: along a run every operation that allocates fails cleanly exactly if every copy
  gets its handle (`fails_cleanly_iff`). An operation that does not allocate does not
  depend on the answer (`step_of_not_allocates`).
-/

import Iggy.Lib.Run
import Iggy.Ssl.Context

namespace Iggy.Ssl

open Iggy.Lib.Run (run Steps steps_congr)

/-- The object an operation calls `wolfSSL_CTX_new` for, if it does. -/
def Op.allocatesFor (s : St) : Op → Option Nat
  | .construct this options _ =>
    if (s.objs this).isNone ∧ (s.optionsAt options).minimumSupportedProtocolVersion.version.isSome then some this
    else none
  | .copyConstruct this other => if (s.objs this).isNone ∧ (s.objs other).isSome then some this else none
  | .copyAssign this other =>
    if this ≠ other ∧ (s.objs this).isSome ∧ (s.objs other).isSome then some this else none
  | _ => none

/-- With no handle to be had it throws and every object is what and where it was; if it
    returns, the object has a handle. -/
def FailsCleanly (builtin : List Str) (s : St) (e : Ev) : Prop :=
  ∀ this, e.op.allocatesFor s = some this →
    (e.lib.ctxNew = false → (∃ err, (step builtin s e).1 = .threw err) ∧ (next builtin s e).objs = s.objs) ∧
    ((step builtin s e).1 = .ok → ∃ x h, (next builtin s e).objs this = some x ∧ x.ctx = some h)

def Op.isCopy : Op → Bool
  | .copyConstruct _ _ => true
  | .copyAssign _ _ => true
  | _ => false

/-- A copy that allocates gets its handle. -/
def CopyGetsHandle (s : St) (e : Ev) : Prop :=
  e.op.isCopy = true → (e.op.allocatesFor s).isSome → e.lib.ctxNew = true

variable {builtin : List Str} {s : St} {e : Ev} {this other options pkiEnv : Nat}

/-! ## What allocates -/

theorem step_of_not_allocates (h : e.op.allocatesFor s = none) (b : Bool) :
    step builtin s ⟨e.op, { e.lib with ctxNew := b }⟩ = step builtin s e := by
  unfold step
  cases he : e.op with
  | construct this options pkiEnv =>
    rcases ht : s.objs this with _ | x <;> simp only [ht]
    cases hm : (s.optionsAt options).minimumSupportedProtocolVersion with
    | tlsv1_2 => simp [he, Op.allocatesFor, ht, hm, ProtocolVersion.version] at h
    | tlsv1_3 => simp [he, Op.allocatesFor, ht, hm, ProtocolVersion.version] at h
    | other code => simp only [construct, hm]
  | copyConstruct this other =>
    rcases ht : s.objs this with _ | x <;> rcases hy : s.objs other with _ | y <;> simp only [ht, hy]
    simp [he, Op.allocatesFor, ht, hy] at h
  | copyAssign this other =>
    rcases hx : s.objs this with _ | x <;> rcases hy : s.objs other with _ | y <;> simp only [hx, hy]
    have hself : this = other := by simpa [he, Op.allocatesFor, hx, hy] using h
    subst hself
    rw [copyAssign_self, copyAssign_self]
  | moveConstruct this other => rfl
  | moveAssign this other => rfl
  | destroy this => rfl
  | setOption options c => rfl

/-! ## One operation -/

theorem cleanly_of_not_allocates (h : e.op.allocatesFor s = none) : FailsCleanly builtin s e := by
  intro this ha
  rw [h] at ha
  cases ha

theorem cleanly_construct (he : e.op = .construct this options pkiEnv) : FailsCleanly builtin s e := by
  intro t ha
  simp only [he, Op.allocatesFor, Option.ite_none_right_eq_some, Option.isNone_iff_eq_none] at ha
  obtain ⟨⟨ht, hversion⟩, htarget⟩ := ha
  cases htarget
  obtain ⟨v, hv⟩ := Option.isSome_iff_exists.mp hversion
  have hs := step_construct builtin he ht
  unfold next
  rw [hs]
  cases hn : e.lib.ctxNew with
  | false =>
    rw [construct_null hv hn]
    exact ⟨fun _ => ⟨⟨_, rfl⟩, rfl⟩, nofun⟩
  | true =>
    rw [construct_allocated hv hn]
    refine ⟨nofun, fun h => ?_⟩
    split at h
    · exact ⟨_, s.next, Function.update_self .., rfl⟩
    · cases h

/-- What returns whatever the library answers fails cleanly only if that was a handle. -/
theorem cleanly_iff_of_ok (ha : e.op.allocatesFor s = some this) (hok : (step builtin s e).1 = .ok)
    (hnew : e.lib.ctxNew = true → ∃ x h, (next builtin s e).objs this = some x ∧ x.ctx = some h) :
    FailsCleanly builtin s e ↔ e.lib.ctxNew = true := by
  constructor
  · intro h
    cases hn : e.lib.ctxNew with
    | true => rfl
    | false =>
      obtain ⟨⟨err, herr⟩, -⟩ := (h this ha).1 hn
      rw [hok] at herr
      cases herr
  · intro hn t ht
    rw [ha] at ht
    cases ht
    refine ⟨fun hnull => ?_, fun _ => hnew hn⟩
    rw [hn] at hnull
    cases hnull

theorem cleanly_copyConstruct (builtin : List Str) {y : SSLContext} (he : e.op = .copyConstruct this other)
    (ht : s.objs this = none) (hy : s.objs other = some y) : FailsCleanly builtin s e ↔ e.lib.ctxNew = true := by
  have hs := step_copyConstruct builtin he ht hy
  have ha : e.op.allocatesFor s = some this := by simp [he, Op.allocatesFor, ht, hy]
  apply cleanly_iff_of_ok ha
  · rw [hs]
    rfl
  · intro hn
    unfold next
    rw [hs, copyConstruct_new hn]
    exact ⟨_, s.next, Function.update_self .., rfl⟩

theorem cleanly_copyAssign (builtin : List Str) {x y : SSLContext} (he : e.op = .copyAssign this other)
    (hne : this ≠ other) (hx : s.objs this = some x) (hy : s.objs other = some y) :
    FailsCleanly builtin s e ↔ e.lib.ctxNew = true := by
  have hs := step_copyAssign builtin he hx hy
  have ha : e.op.allocatesFor s = some this := by simp [he, Op.allocatesFor, hx, hy, hne]
  apply cleanly_iff_of_ok ha
  · rw [hs, copyAssign, if_pos hne]
  · intro hn
    unfold next
    rw [hs, copyAssign_new hne hn]
    exact ⟨_, s.next, Function.update_self .., rfl⟩

theorem cleanly_iff (builtin : List Str) (s : St) (e : Ev) : FailsCleanly builtin s e ↔ CopyGetsHandle s e := by
  by_cases ha : e.op.allocatesFor s = none
  · have hg : CopyGetsHandle s e := fun _ h => by rw [ha] at h; cases h
    exact iff_of_true (cleanly_of_not_allocates ha) hg
  have hsome : (e.op.allocatesFor s).isSome = true := Option.isSome_iff_ne_none.mpr ha
  unfold CopyGetsHandle
  rw [hsome]
  cases he : e.op with
  | construct this options pkiEnv => simpa [Op.isCopy] using cleanly_construct he
  | copyConstruct this other =>
    rcases ht : s.objs this with _ | x <;> rcases hy : s.objs other with _ | y
    case none.some => simpa [Op.isCopy] using cleanly_copyConstruct builtin he ht hy
    all_goals simp [he, Op.allocatesFor, ht, hy] at ha
  | copyAssign this other =>
    by_cases hne : this = other
    · simp [he, Op.allocatesFor, hne] at ha
    rcases hx : s.objs this with _ | x <;> rcases hy : s.objs other with _ | y
    case some.some => simpa [Op.isCopy] using cleanly_copyAssign builtin he hne hx hy
    all_goals simp [he, Op.allocatesFor, hx, hy] at ha
  | moveConstruct this other => simp [he, Op.allocatesFor] at ha
  | moveAssign this other => simp [he, Op.allocatesFor] at ha
  | destroy this => simp [he, Op.allocatesFor] at ha
  | setOption options c => simp [he, Op.allocatesFor] at ha

/-! ## Runs -/

/-- Every operation of a run that allocates fails cleanly exactly if no copy is refused its
    handle. -/
theorem fails_cleanly_iff (builtin : List Str) (optionsAt : Nat → SSLOptions) (es : List Ev) :
    Steps (next builtin) (FailsCleanly builtin) (init optionsAt) es ↔
      Steps (next builtin) CopyGetsHandle (init optionsAt) es :=
  steps_congr (I := fun _ => True) (fun _ _ _ => trivial) (fun s e _ => cleanly_iff builtin s e) trivial es

/-- A copy made without memory: it returns normally and its object has no handle. -/
theorem a_refused_copy_has_no_handle :
    ¬ Steps (next [str "TLS_AES_128_GCM_SHA256"]) (FailsCleanly [str "TLS_AES_128_GCM_SHA256"])
      (init fun _ => ⟨.client, none, .tlsv1_3, [str "TLS_AES_128_GCM_SHA256"]⟩)
      [⟨.construct 0 0 0, ⟨true, fun l => some [l], []⟩⟩, ⟨.copyConstruct 1 0, ⟨false, fun l => some [l], []⟩⟩] := by
  intro hrun
  have h := hrun.2.1
  obtain ⟨⟨err, herr⟩, -⟩ := (h 1 (by decide)).1 rfl
  exact Out.noConfusion herr

end Iggy.Ssl
