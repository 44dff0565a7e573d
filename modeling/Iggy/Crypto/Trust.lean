/-
  Iggy.Crypto.Trust — what PKI environments trust after any run.

  Authorities are copied into one another by the setters and grow by
  `addTrustedPeerCertificate`, each through whichever environments share them. An authority
  that starts as another and is given `paths` is `extend` of it.

  - `auths_inherit`: an authority is, at the end of a run, some authority of its start with
    the paths of some of the run's calls added, in their order.
  - `auths_grow`: one that no setter replaces is itself with all the paths it was given.
  - `environments_over_runs`: an environment stays bound to what it was built with, looks
    up where it did, and its authority is as above. So what it trusts is what one authority
    said and what was added to it: never one's CA path with another's revocation method,
    and no path that nobody gave.
-/

import Iggy.Crypto.Pki

namespace Iggy.Crypto

open Function (update)
open Iggy.Lib.Run (run Steps run_inv)
open Iggy.Lib.Slice

variable {CA CS KS Ex : Type}

/-! ## Authorities that grow -/

def CertificateAuthority.extend (c : CertificateAuthority) (paths : List Str) : CertificateAuthority :=
  { c with trustedPeerCertificatePaths := c.trustedPeerCertificatePaths ++ paths }

theorem extend_nil (c : CertificateAuthority) : c.extend [] = c := by
  unfold CertificateAuthority.extend
  rw [List.append_nil]

theorem extend_extend (c : CertificateAuthority) (ps qs : List Str) : (c.extend ps).extend qs = c.extend (ps ++ qs) := by
  unfold CertificateAuthority.extend
  rw [List.append_assoc]

/-! ## What an operation does to an authority -/

/-- The path an operation gives, and the authority it gives it to. -/
def Op.added? : Op → Option (Nat × Str)
  | .addTrustedPeerCertificate a path => some (a, path)
  | _ => none

def added (ops : List Op) : List Str := (ops.filterMap Op.added?).map Prod.snd

def addedTo (a : Nat) (ops : List Op) : List Str := ((ops.filterMap Op.added?).filter (·.1 == a)).map Prod.snd

/-- The operation sets another authority in the place of `a`. -/
def Replaces (w : World CA CS KS) (a : Nat) (op : Op) : Prop :=
  ∃ this c e, op = .set this (.certificateAuthority c) ∧ w.envs this = some e ∧ e.certAuth = a

/-- It is replaced by another, or grows by what it is given. -/
theorem auths_step (w : World CA CS KS) (op : Op) (a : Nat) :
    (Replaces w a op ∧ added [op] = [] ∧ ∃ b, ((step w op).auths a).base = (w.auths b).base) ∨
      ((step w op).auths a).base = (w.auths a).base.extend (addedTo a [op]) := by
  cases op with
  | build this ca cs ks =>
    right
    have hnone : addedTo a [.build this ca cs ks] = [] := rfl
    rw [hnone, extend_nil]
    cases hb : w.envs this <;> simp [step, hb]
  | addTrustedPeerCertificate c path =>
    right
    unfold step addedTo
    by_cases hc : c = a
    · subst hc
      simp [Op.added?, CertificateAuthority.addTrustedPeerCertificate, CertificateAuthority.extend]
    · simp [Op.added?, hc, Ne.symm hc, extend_nil]
  | set this c =>
    have hnone : addedTo a [.set this c] = [] := rfl
    rw [hnone, extend_nil]
    cases he : w.envs this with
    | none =>
      right
      simp [step, he]
    | some e =>
      have hs : step w (.set this c) = { w with toHeap := call e w.toHeap c } := by simp [step, he]
      rw [hs]
      cases c with
      | certificateStore s => exact Or.inr (by simp [call])
      | keyStore k => exact Or.inr (by simp [call])
      | certificateAuthority c =>
        by_cases ha : e.certAuth = a
        · left
          subst ha
          exact ⟨⟨this, c, e, rfl, he, rfl⟩, rfl, c, assign_base w.auths e.certAuth c⟩
        · right
          show (assign w.auths e.certAuth c a).base = (w.auths a).base
          rw [assign_of_ne _ _ _ (Ne.symm ha)]

/-! ## Runs -/

theorem added_cons (op : Op) (ops : List Op) : added (op :: ops) = added [op] ++ added ops := by
  unfold added
  rw [← List.map_append, ← List.filterMap_append]
  rfl

theorem addedTo_cons (a : Nat) (op : Op) (ops : List Op) : addedTo a (op :: ops) = addedTo a [op] ++ addedTo a ops := by
  unfold addedTo
  rw [← List.map_append, ← List.filter_append, ← List.filterMap_append]
  rfl

theorem addedTo_sublist (a : Nat) (ops : List Op) : (addedTo a ops).Sublist (added ops) :=
  List.filter_sublist.map Prod.snd

/-- Every authority of `w` is one of `w0` with paths added that were `seen`. -/
def Inherits (w0 : World CA CS KS) (seen : List Str) (w : World CA CS KS) : Prop :=
  ∀ a, ∃ b paths, paths.Sublist seen ∧ (w.auths a).base = (w0.auths b).base.extend paths

theorem inherits_step {w0 w : World CA CS KS} {seen : List Str} (h : Inherits w0 seen w) (op : Op) :
    Inherits w0 (seen ++ added [op]) (step w op) := by
  intro a
  rcases auths_step w op a with ⟨-, hnone, c, hc⟩ | hgrow
  · obtain ⟨b, paths, hsub, hb⟩ := h c
    refine ⟨b, paths, ?_, hc.trans hb⟩
    rw [hnone, List.append_nil]
    exact hsub
  · obtain ⟨b, paths, hsub, hb⟩ := h a
    refine ⟨b, paths ++ addedTo a [op], hsub.append (addedTo_sublist a [op]), ?_⟩
    rw [hgrow, hb, extend_extend]

theorem inherits_run {w0 w : World CA CS KS} {seen : List Str} (h : Inherits w0 seen w) (ops : List Op) :
    Inherits w0 (seen ++ added ops) (run step w ops) := by
  induction ops generalizing w seen with
  | nil =>
    rw [show added [] = [] from rfl, List.append_nil]
    exact h
  | cons op ops ih =>
    rw [added_cons, ← List.append_assoc]
    exact ih (inherits_step h op)

theorem auths_inherit (w : World CA CS KS) (ops : List Op) : Inherits w (added ops) (run step w ops) :=
  inherits_run (fun a => ⟨a, [], List.Sublist.refl [], (extend_nil _).symm⟩) ops

theorem auths_grow {w : World CA CS KS} {a : Nat} {ops : List Op}
    (h : Steps step (fun w op => ¬ Replaces w a op) w ops) :
    ((run step w ops).auths a).base = (w.auths a).base.extend (addedTo a ops) := by
  induction ops generalizing w with
  | nil => exact (extend_nil _).symm
  | cons op ops ih =>
    have hstep := (auths_step w op a).resolve_left fun hr => h.1 hr.1
    rw [run, ih h.2, hstep, extend_extend, addedTo_cons a op ops]

/-- No operation binds an environment anew, and none reaches a store. -/
theorem step_keeps (w : World CA CS KS) (op : Op) :
    (∀ f g, w.envs f = some g → (step w op).envs f = some g) ∧ (step w op).stores = w.stores ∧
      (step w op).keys = w.keys := by
  cases op with
  | build this ca cs ks =>
    cases hb : w.envs this with
    | some e => simp [step, hb]
    | none =>
      simp only [step, hb, and_true]
      intro f g hf
      have hne : f ≠ this := by
        intro h
        subst h
        rw [hb] at hf
        cases hf
      rw [Function.update_of_ne hne, hf]
  | set this c => cases he : w.envs this <;> simp [step, he, call_stores, call_keys]
  | addTrustedPeerCertificate a path => exact ⟨fun _ _ h => h, rfl, rfl⟩

theorem run_keeps (w : World CA CS KS) (ops : List Op) :
    (∀ f g, w.envs f = some g → (run step w ops).envs f = some g) ∧ (run step w ops).stores = w.stores ∧
      (run step w ops).keys = w.keys :=
  run_inv (I := fun w' : World CA CS KS => (∀ f g, w.envs f = some g → w'.envs f = some g) ∧
      w'.stores = w.stores ∧ w'.keys = w.keys)
    (fun w' op h =>
      have hs := step_keeps w' op
      ⟨fun f g hf => hs.1 f g (h.1 f g hf), hs.2.1.trans h.2.1, hs.2.2.trans h.2.2⟩)
    ⟨fun _ _ h => h, rfl, rfl⟩ ops

section Lookups

variable (getCertificate : Obj CertificateStore CS → Str → Except Ex (List UInt8))
  (getPrivateKey : Obj KeyStore KS → Str → Except Ex (List UInt8))

theorem environments_over_runs (w : World CA CS KS) (ops : List Op) {f : Nat} {g : PKIEnvironment}
    (hf : w.envs f = some g) :
    let w' := run step w ops
    w'.envs f = some g ∧
      (∃ b paths, paths.Sublist (added ops) ∧
        g.getCertificateAuthority w'.toHeap = (w.auths b).base.extend paths) ∧
      (Steps step (fun w op => ¬ Replaces w g.certAuth op) w ops →
        g.getCertificateAuthority w'.toHeap =
          (g.getCertificateAuthority w.toHeap).extend (addedTo g.certAuth ops)) ∧
      ∀ path, getCertificate (g.getCertificateStore w'.toHeap) path =
          getCertificate (g.getCertificateStore w.toHeap) path ∧
        getPrivateKey (g.getKeyStore w'.toHeap) path = getPrivateKey (g.getKeyStore w.toHeap) path := by
  intro w'
  obtain ⟨henvs, hstores, hkeys⟩ := run_keeps w ops
  refine ⟨henvs f g hf, auths_inherit w ops g.certAuth, auths_grow, fun path => ?_⟩
  simp only [PKIEnvironment.getCertificateStore, PKIEnvironment.getKeyStore, w', hstores, hkeys, and_self]

end Lookups

/-- The first environment is given a path, takes over the authority of the second, and the
    second is then given another: the first trusts neither path. -/
theorem a_path_added_is_replaced :
    let w : World Unit (Option (List UInt8)) (Option (List UInt8)) :=
      ⟨⟨fun a => ⟨.new (if a = 2 then some (str "ca.pem") else none) none, ()⟩, fun _ => ⟨{}, none⟩,
        fun _ => ⟨{}, none⟩⟩, fun f => some (.new (some (f + 1)) none none)⟩
    let ops := [.addTrustedPeerCertificate 1 (str "a.pem"), .set 0 (.certificateAuthority 2),
      .addTrustedPeerCertificate 2 (str "b.pem")]
    (∃ b paths, paths.Sublist (added ops) ∧
      (PKIEnvironment.new (some 1) none none).getCertificateAuthority (run step w ops).toHeap =
        (w.auths b).base.extend paths) ∧
      (PKIEnvironment.new (some 1) none none).getCertificateAuthority (run step w ops).toHeap =
        .new (some (str "ca.pem")) none := by
  intro w ops
  exact ⟨(environments_over_runs answer answer w ops (f := 0) rfl).2.1, by decide⟩

end Iggy.Crypto
