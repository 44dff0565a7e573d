/-
  Iggy.Ssl.Carry — whether a copy or a move carries the source's configuration.

  A native handle's configuration is its method (role and version), minimum version and
  cipher list (`NativeCtx`). The `options` and `pkiEnv` members are references, so an
  object's options are the object its reference is bound to.

  Only the move constructor carries everything. The copies make a new TLS 1.3 client
  context with the built-in cipher list, whatever the source's handle was set to, and a
  reference cannot be rebound, so the assignments leave the target with its own options.

  Proved: along a run every copy and move carries exactly if each one meets `CanCarry`
  (`copies_carry_iff`).
-/

import Iggy.Lib.Run
import Iggy.Ssl.Context

namespace Iggy.Ssl

open Iggy.Lib.Run (run Steps steps_congr)

/-- The target and the source of a copy or a move. -/
def Op.transfer : Op → Option (Nat × Nat)
  | .copyConstruct this other => some (this, other)
  | .moveConstruct this other => some (this, other)
  | .copyAssign this other => some (this, other)
  | .moveAssign this other => some (this, other)
  | _ => none

/-- A copy or move from an object `y` with a handle `h` leaves the target with a handle
    configured as `h` was, and with `y`'s options and environment. -/
def Carries (builtin : List Str) (s : St) (e : Ev) : Prop :=
  ∀ t o, e.op.transfer = some (t, o) → t ≠ o → (step builtin s e).1 ≠ .noSuchOperation →
    ∀ y, s.objs o = some y → ∀ h, y.ctx = some h →
      ∃ x k, (next builtin s e).objs t = some x ∧ x.ctx = some k ∧
        (next builtin s e).native k = s.native h ∧ x.options = y.options ∧ x.pkiEnv = y.pkiEnv

/-- A copy gets its handle, and the source's is configured as a new TLS 1.3 client's. -/
def PlainSource (builtin : List Str) (lib : Lib) (s : St) (h : Nat) : Prop :=
  lib.ctxNew = true ∧ s.native h = .fresh builtin .wolfTLSv1_3_client_method

def SameReferences (x y : SSLContext) : Prop := x.options = y.options ∧ x.pkiEnv = y.pkiEnv

/-- The copies and moves that carry the configuration: every move construction, a copy of
    a plain source, and an assignment between objects bound to the same options and
    environment, from a plain source if it copies. -/
def CanCarry (builtin : List Str) (s : St) (e : Ev) : Prop :=
  match e.op with
  | .copyConstruct this other =>
    s.objs this = none → ∀ y, s.objs other = some y → ∀ h, y.ctx = some h → PlainSource builtin e.lib s h
  | .copyAssign this other =>
    this ≠ other → ∀ x, s.objs this = some x → ∀ y, s.objs other = some y → ∀ h, y.ctx = some h →
      PlainSource builtin e.lib s h ∧ SameReferences x y
  | .moveAssign this other =>
    this ≠ other → ∀ x, s.objs this = some x → ∀ y, s.objs other = some y → ∀ h, y.ctx = some h →
      SameReferences x y
  | _ => True

variable {builtin : List Str} {s : St} {e : Ev} {this other : Nat} {x y : SSLContext}

/-- `Carries`, once the operation and its source are known. -/
theorem carries_of_transfer (he : e.op.transfer = some (this, other)) (hne : this ≠ other)
    (hstep : (step builtin s e).1 ≠ .noSuchOperation) (hy : s.objs other = some y) :
    Carries builtin s e ↔ ∀ h, y.ctx = some h →
      ∃ x k, (next builtin s e).objs this = some x ∧ x.ctx = some k ∧
        (next builtin s e).native k = s.native h ∧ x.options = y.options ∧ x.pkiEnv = y.pkiEnv := by
  constructor
  · intro hc h hh
    exact hc this other he hne hstep y hy h hh
  · intro hc t o he' _ _ y' hy' h hh
    rw [he] at he'
    cases he'
    rw [hy] at hy'
    cases hy'
    exact hc h hh

theorem carries_of_noSuchOperation (h : (step builtin s e).1 = .noSuchOperation) : Carries builtin s e :=
  fun _ _ _ _ hne => absurd h hne

/-- Nothing is asked of a self-assignment. -/
theorem carries_of_self (h : e.op.transfer = some (this, this)) : Carries builtin s e := by
  intro t o ht hne
  rw [h] at ht
  cases ht
  exact absurd rfl hne

theorem carries_copyConstruct (builtin : List Str) (he : e.op = .copyConstruct this other) (ht : s.objs this = none)
    (hy : s.objs other = some y) : Carries builtin s e ↔ ∀ h, y.ctx = some h → PlainSource builtin e.lib s h := by
  have hne := ne_of_live ht hy
  have hs := step_copyConstruct builtin he ht hy
  cases hn : e.lib.ctxNew with
  | false =>
    rw [copyConstruct_null hn] at hs
    rw [carries_of_transfer (by rw [he]; rfl) hne (by rw [hs]; simp) hy]
    simp [next, hs, PlainSource, hn]
  | true =>
    rw [copyConstruct_new hn] at hs
    rw [carries_of_transfer (by rw [he]; rfl) hne (by rw [hs]; simp) hy]
    simp [next, hs, PlainSource, hn, eq_comm]

theorem carries_moveConstruct (he : e.op = .moveConstruct this other) (ht : s.objs this = none)
    (hy : s.objs other = some y) : Carries builtin s e := by
  have hne := ne_of_live ht hy
  have hs := step_moveConstruct builtin he ht hy
  rw [carries_of_transfer (by rw [he]; rfl) hne (by rw [hs]; simp [moveConstruct]) hy]
  intro h hh
  refine ⟨⟨y.options, y.pkiEnv, y.ctx, y.cm⟩, h, ?_, hh, ?_, rfl, rfl⟩
  · simp [next, hs, moveConstruct, hne]
  · simp [next, hs, moveConstruct]

theorem carries_copyAssign (builtin : List Str) (he : e.op = .copyAssign this other) (hx : s.objs this = some x)
    (hy : s.objs other = some y) (hne : this ≠ other) :
    Carries builtin s e ↔ ∀ h, y.ctx = some h → PlainSource builtin e.lib s h ∧ SameReferences x y := by
  have hs := step_copyAssign builtin he hx hy
  cases hn : e.lib.ctxNew with
  | false =>
    rw [copyAssign_null hne hn] at hs
    rw [carries_of_transfer (by rw [he]; rfl) hne (by rw [hs]; simp) hy]
    simp [next, hs, PlainSource, hn]
  | true =>
    rw [copyAssign_new hne hn] at hs
    rw [carries_of_transfer (by rw [he]; rfl) hne (by rw [hs]; simp) hy]
    simp [next, hs, PlainSource, SameReferences, hn, eq_comm]

theorem carries_moveAssign (builtin : List Str) (he : e.op = .moveAssign this other) (hx : s.objs this = some x)
    (hy : s.objs other = some y) (hne : this ≠ other) :
    Carries builtin s e ↔ ∀ h, y.ctx = some h → SameReferences x y := by
  have hs := step_moveAssign builtin he hx hy
  rw [moveAssign_ne hne] at hs
  rw [carries_of_transfer (by rw [he]; rfl) hne (by rw [hs]; simp) hy]
  refine forall₂_congr fun h hh => ?_
  -- the target keeps its references and takes the source's handle as it is
  simp [next, hs, SameReferences, hne, hh]

theorem carries_iff (builtin : List Str) (s : St) (e : Ev) : Carries builtin s e ↔ CanCarry builtin s e := by
  unfold CanCarry
  cases he : e.op with
  | construct this options pkiEnv => simp [Carries, he, Op.transfer]
  | destroy this => simp [Carries, he, Op.transfer]
  | setOption options c => simp [Carries, he, Op.transfer]
  | copyConstruct this other =>
    rcases ht : s.objs this with _ | x <;> rcases hy : s.objs other with _ | y
    case none.some => simpa [ht, hy] using carries_copyConstruct builtin he ht hy
    all_goals
      have hc : Carries builtin s e := carries_of_noSuchOperation (by simp only [step, he, ht, hy])
      simpa [ht, hy] using hc
  | moveConstruct this other =>
    rw [iff_true]
    rcases ht : s.objs this with _ | x <;> rcases hy : s.objs other with _ | y
    case none.some => exact carries_moveConstruct he ht hy
    all_goals exact carries_of_noSuchOperation (by simp only [step, he, ht, hy])
  | copyAssign this other =>
    by_cases hne : this = other
    · subst hne
      have hc : Carries builtin s e := carries_of_self (by rw [he]; rfl)
      simpa using hc
    rcases hx : s.objs this with _ | x <;> rcases hy : s.objs other with _ | y
    case some.some => simpa [hne, hx, hy] using carries_copyAssign builtin he hx hy hne
    all_goals
      have hc : Carries builtin s e := carries_of_noSuchOperation (by simp only [step, he, hx, hy])
      simpa [hx, hy] using hc
  | moveAssign this other =>
    by_cases hne : this = other
    · subst hne
      have hc : Carries builtin s e := carries_of_self (by rw [he]; rfl)
      simpa using hc
    rcases hx : s.objs this with _ | x <;> rcases hy : s.objs other with _ | y
    case some.some => simpa [hne, hx, hy] using carries_moveAssign builtin he hx hy hne
    all_goals
      have hc : Carries builtin s e := carries_of_noSuchOperation (by simp only [step, he, hx, hy])
      simpa [hx, hy] using hc

/-- Every copy and move of a run carries the configuration exactly if each one is of the
    kinds that can. -/
theorem copies_carry_iff (builtin : List Str) (optionsAt : Nat → SSLOptions) (es : List Ev) :
    Steps (next builtin) (Carries builtin) (init optionsAt) es ↔
      Steps (next builtin) (CanCarry builtin) (init optionsAt) es :=
  steps_congr (I := fun _ => True) (fun _ _ _ => trivial) (fun s e _ => carries_iff builtin s e) trivial es

/-- A TLS 1.2 context, and a copy of it: the copy is a TLS 1.3 one. -/
theorem a_copy_of_a_tls12_context_is_tls13 :
    ¬ Steps (next [str "TLS_AES_128_GCM_SHA256"]) (Carries [str "TLS_AES_128_GCM_SHA256"])
      (init fun _ => ⟨.client, none, .tlsv1_2, [str "TLS_ECDHE_RSA_WITH_AES_128_GCM_SHA256"]⟩)
      [⟨.construct 0 0 0, ⟨true, fun l => some [l], []⟩⟩, ⟨.copyConstruct 1 0, ⟨true, fun l => some [l], []⟩⟩] := by
  intro hrun
  have h := hrun.2.1
  obtain ⟨x, k, hx, hk, hn, -⟩ := h 1 0 rfl (by decide) (by decide) ⟨0, 0, some 0, some ⟨0⟩⟩ rfl 0 rfl
  obtain rfl : (⟨0, 0, some 1, some ⟨1⟩⟩ : SSLContext) = x := Option.some.inj hx
  obtain rfl : 1 = k := Option.some.inj hk
  revert hn
  decide

end Iggy.Ssl
