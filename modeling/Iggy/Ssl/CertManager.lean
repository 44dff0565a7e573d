/-
  Iggy.Ssl.CertManager — the `cm` member, which is meant to be the certificate manager of
  the object's own handle.

  The constructors set it with `ctx`; the two assignments replace `ctx` and leave `cm`
  alone, so the target keeps the manager of the handle it just freed, and the source of a
  move the manager of the handle it gave away.

  Proved: along a run every `cm` stays current exactly if every assignment is a
  self-assignment, or copies into an object without a handle and gets none, or moves
  between two objects without a handle (`cert_manager_current_iff`).
-/

import Iggy.Ssl.Ownership

namespace Iggy.Ssl

open Iggy.Lib.Run (run Steps States states_iff_steps)

/-- Every live object's `cm` is its own handle's manager, or null with a null handle; so
    its owner is not freed and no other object's handle. -/
def CmCurrent (s : St) : Prop :=
  ∀ o x, s.objs o = some x → x.cm = wolfSSL_CTX_GetCertManager x.ctx ∧
    ∀ m, x.cm = some m → m.owner ∉ s.frees ∧ ∀ p, p ≠ o → ctxOf s p ≠ some m.owner

/-- The assignments that leave every `cm` current. -/
def KeepsCm (s : St) (e : Ev) : Prop :=
  match e.op with
  | .copyAssign this other =>
    ∀ x y, s.objs this = some x → s.objs other = some y → this ≠ other → x.ctx = none ∧ e.lib.ctxNew = false
  | .moveAssign this other =>
    ∀ x y, s.objs this = some x → s.objs other = some y → this ≠ other → x.ctx = none ∧ y.ctx = none
  | _ => True

/-! ## The first half is the whole of it -/

def Matching (objs : Nat → Option SSLContext) : Prop :=
  ∀ o x, objs o = some x → x.cm = wolfSSL_CTX_GetCertManager x.ctx

theorem cmCurrent_iff {s : St} (hr : Ruled s) : CmCurrent s ↔ Matching s.objs := by
  constructor
  · intro h o x hx
    exact (h o x hx).1
  · intro h o x hx
    have hm := h o x hx
    refine ⟨hm, fun m hcm => ?_⟩
    -- the manager's owner is the object's handle, which is its own
    rw [hm] at hcm
    obtain ⟨k, hk, rfl⟩ := Option.map_eq_some_iff.mp hcm
    have ho : ctxOf s o = some k := (ctxOf_some hx).trans hk
    have hu := hr.uniquelyOwned
    exact ⟨(hu.alive o k ho).2, fun p hp hp' => hp (hu.sole p o k hp' ho)⟩

theorem getCertManager_inj {a b : Option Nat}
    (h : wolfSSL_CTX_GetCertManager a = wolfSSL_CTX_GetCertManager b) : a = b := by
  cases a <;> cases b <;> simp_all [wolfSSL_CTX_GetCertManager]

theorem matching_update {objs : Nat → Option SSLContext} (h : Matching objs) (o : Nat) {x : Option SSLContext}
    (hx : ∀ y, x = some y → y.cm = wolfSSL_CTX_GetCertManager y.ctx) : Matching (Function.update objs o x) := by
  intro p y hp
  by_cases e : p = o
  · subst e
    rw [Function.update_self] at hp
    exact hx y hp
  · rw [Function.update_of_ne e] at hp
    exact h p y hp

/-! ## What each operation does to it -/

variable {builtin : List Str} {lib : Lib} {s : St}

theorem matching_construct (h : Matching s.objs) (this options pkiEnv : Nat) :
    Matching (construct builtin lib s this options pkiEnv).2.objs := by
  cases hv : (s.optionsAt options).minimumSupportedProtocolVersion.version with
  | none =>
    obtain ⟨e, he, -⟩ := construct_unsupported builtin lib this pkiEnv hv
    rw [he]; exact h
  | some v =>
    cases hn : lib.ctxNew with
    | false => rw [construct_null hv hn]; exact h
    | true =>
      rw [construct_allocated hv hn]
      split
      · exact matching_update h this fun y hy => by cases hy; rfl
      · exact h

theorem matching_copyConstruct (h : Matching s.objs) (this : Nat) (y : SSLContext) :
    Matching (copyConstruct builtin lib s this y).2.objs := by
  cases hn : lib.ctxNew
  · rw [copyConstruct_null hn]
    exact matching_update h this fun y hy => by cases hy; rfl
  · rw [copyConstruct_new hn]
    exact matching_update h this fun y hy => by cases hy; rfl

theorem matching_moveConstruct (h : Matching s.objs) (this : Nat) {other : Nat} {y : SSLContext}
    (hy : s.objs other = some y) : Matching (moveConstruct s this other y).2.objs :=
  matching_update (matching_update h this fun z hz => by cases hz; exact h other y hy) other
    fun z hz => by cases hz; rfl

/-- A new handle is nobody's, so the manager the target keeps is not its manager. -/
theorem matching_copyAssign (hr : Ruled s) (h : Matching s.objs) {this other : Nat} {x : SSLContext}
    (hx : s.objs this = some x) (hne : this ≠ other) :
    Matching (copyAssign builtin lib s this other x).2.objs ↔ x.ctx = none ∧ lib.ctxNew = false := by
  have hm := h this x hx
  cases hn : lib.ctxNew with
  | false =>
    rw [copyAssign_null hne hn, place_objs, freeHeld_objs, and_iff_left rfl]
    constructor
    · intro h'
      have h1 := h' this _ (Function.update_self ..)
      exact getCertManager_inj (hm.symm.trans h1)
    · intro hc
      exact matching_update h this fun z hz => by cases hz; rw [hc] at hm; exact hm
  | true =>
    rw [copyAssign_new hne hn]
    refine ⟨fun h' => ?_, fun hf => absurd hf.2 (by simp)⟩
    have h1 := h' this _ (Function.update_self ..)
    have hc : ctxOf s this = some s.next := (ctxOf_some hx).trans (getCertManager_inj (hm.symm.trans h1))
    have := (hr.uniquelyOwned.alive this _ hc).1
    omega

theorem matching_moveAssign (h : Matching s.objs) {this other : Nat} {x y : SSLContext}
    (hx : s.objs this = some x) (hy : s.objs other = some y) (hne : this ≠ other) :
    Matching (moveAssign s this other x y).2.objs ↔ x.ctx = none ∧ y.ctx = none := by
  have hmx := h this x hx
  have hmy := h other y hy
  rw [moveAssign_ne hne]
  simp only [place_objs, freeHeld_objs]
  constructor
  · intro h'
    have ho := h' other _ (Function.update_self ..)
    have ht := h' this { x with ctx := y.ctx } (by simp [hne])
    have hcy : y.ctx = none := getCertManager_inj (hmy.symm.trans ho)
    exact ⟨(getCertManager_inj (hmx.symm.trans ht)).trans hcy, hcy⟩
  · intro ⟨hcx, hcy⟩
    refine matching_update (matching_update h this fun z hz => ?_) other fun z hz => ?_
    · cases hz; rw [hcx] at hmx; rw [hcy]; exact hmx
    · cases hz; rw [hcy] at hmy; exact hmy

theorem matching_next (hr : Ruled s) (h : Matching s.objs) (e : Ev) :
    Matching (next builtin s e).objs ↔ KeepsCm s e := by
  unfold next step KeepsCm
  cases e.op with
  | construct this options pkiEnv =>
    rcases ht : s.objs this with _ | x <;> simp only [ht, iff_true]
    · exact matching_construct h this options pkiEnv
    · exact h
  | copyConstruct this other =>
    rcases ht : s.objs this with _ | x <;> rcases hy : s.objs other with _ | y <;> simp only [ht, hy, iff_true]
    · exact h
    · exact matching_copyConstruct h this y
    · exact h
    · exact h
  | moveConstruct this other =>
    rcases ht : s.objs this with _ | x <;> rcases hy : s.objs other with _ | y <;> simp only [ht, hy, iff_true]
    · exact h
    · exact matching_moveConstruct h this hy
    · exact h
    · exact h
  | copyAssign this other =>
    rcases hx : s.objs this with _ | x <;> rcases hy : s.objs other with _ | y <;> simp only [hx, hy]
    · simpa using h
    · simpa using h
    · simpa using h
    · by_cases hne : this = other
      · subst hne; simpa [copyAssign_self] using h
      · simpa [hne] using matching_copyAssign hr h hx hne
  | moveAssign this other =>
    rcases hx : s.objs this with _ | x <;> rcases hy : s.objs other with _ | y <;> simp only [hx, hy]
    · simpa using h
    · simpa using h
    · simpa using h
    · by_cases hne : this = other
      · subst hne; simpa [moveAssign_self] using h
      · simpa [hne] using matching_moveAssign h hx hy hne
  | destroy this =>
    rcases hx : s.objs this with _ | x <;> simp only [hx, iff_true]
    · exact h
    · exact matching_update (by rwa [freeHeld_objs]) this fun z hz => by cases hz
  | setOption options c => simpa using h

/-- The certificate managers stay current throughout a run exactly if every copy assignment
    has a target without a handle that gets none, and every move assignment two objects
    without a handle, self-assignments aside. -/
theorem cert_manager_current_iff (builtin : List Str) (optionsAt : Nat → SSLOptions) (es : List Ev) :
    States (next builtin) CmCurrent (init optionsAt) es ↔
      Steps (next builtin) KeepsCm (init optionsAt) es := by
  refine states_iff_steps (ruled_step builtin) (fun s e hr h => ?_) (ruled_init optionsAt) ?_ es
  · rw [cmCurrent_iff (ruled_step builtin s e hr)]
    exact matching_next hr ((cmCurrent_iff hr).mp h) e
  · intro o x hx
    cases hx

/-- wolfSSL with memory to spare that takes every cipher list as it is. -/
def accepting : Lib := ⟨true, fun l => some [l], []⟩

/-- Two contexts and a copy assignment: the target's `cm` is the manager of the handle the
    assignment freed. -/
theorem a_copy_assignment_keeps_the_freed_manager :
    ¬ States (next [str "TLS_AES_128_GCM_SHA256"]) CmCurrent
      (init fun _ => ⟨.client, none, .tlsv1_3, [str "TLS_AES_128_GCM_SHA256"]⟩)
      [⟨.construct 0 0 0, accepting⟩, ⟨.construct 1 0 0, accepting⟩, ⟨.copyAssign 0 1, accepting⟩] := by
  intro hrun
  have h := hrun.2.2.2
  have h0 := (h 0 ⟨0, 0, some 2, some ⟨0⟩⟩ rfl).1
  revert h0
  decide

end Iggy.Ssl
