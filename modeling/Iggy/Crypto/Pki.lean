/-
  Iggy.Crypto.Pki — `PKIEnvironment` and the objects its members refer to
  (sdk/net/crypto/crypto.h).

  The members are references, so an environment is three addresses, fixed when it is
  built, and a setter is the copy assignment of the static type into the object referred
  to (`Iggy.Lib.Slice`). `CertificateAuthority` has data; the two store classes are
  abstract and have none, so assigning one store to another through them changes nothing,
  whatever the two objects are. A derived class is any type (`CA`, `CS`, `KS`), and the
  virtual lookups any functions of the whole object.

  - `setters_take_effect_iff`: after any setter calls on an environment its authority is
    the last one set, but its stores are those it was built with; so the calls took effect
    exactly if the last stores set answer every lookup as those do.
  - `setters_undisturbing_iff`: along a run a setter call disturbs no other environment
    and no default object exactly if each authority set replaces an equal one or goes into
    an object that neither another environment nor `getDefault()` shares.
  - `a_store_set_is_not_used`, `a_default_environment_sets_the_others_authority`: runs
    where they do not hold.
-/

import Iggy.Basic
import Iggy.Lib.Run
import Iggy.Lib.Slice

namespace Iggy.Crypto

open Function (update)
open Iggy.Lib.Run (run Steps run_inv steps_congr)
open Iggy.Lib.Slice

/-! ## The objects -/

/-- The revocation method is a pointer; copies share what it points to. -/
structure CertificateAuthority where
  overrideCaCertificatePath : Option Str
  trustedPeerCertificatePaths : List Str
  revocationMethod : Option Nat
  deriving DecidableEq, Repr

/-- The abstract base class: virtual functions and no data. -/
structure CertificateStore where
  deriving DecidableEq, Repr

structure KeyStore where
  deriving DecidableEq, Repr

instance : Subsingleton CertificateStore := ⟨fun _ _ => rfl⟩

instance : Subsingleton KeyStore := ⟨fun _ _ => rfl⟩

def CertificateAuthority.new (overrideCaCertificatePath : Option Str) (revocationMethod : Option Nat) :
    CertificateAuthority :=
  ⟨overrideCaCertificatePath, [], revocationMethod⟩

def CertificateAuthority.addTrustedPeerCertificate (a : CertificateAuthority) (certPath : Str) :
    CertificateAuthority :=
  { a with trustedPeerCertificatePaths := a.trustedPeerCertificatePaths ++ [certPath] }

/-- What lives at each address. -/
structure Heap (CA CS KS : Type) where
  auths : Nat → Obj CertificateAuthority CA
  stores : Nat → Obj CertificateStore CS
  keys : Nat → Obj KeyStore KS

/-- Where the function-local static of each `getDefault()` lives. -/
def CertificateAuthority.getDefault : Nat := 0

def LocalCertificateStore.getDefault : Nat := 0

def LocalKeyStore.getDefault : Nat := 0

/-! ## `PKIEnvironment` -/

structure PKIEnvironment where
  certAuth : Nat
  certStore : Nat
  keyStore : Nat
  deriving DecidableEq, Repr

/-- The constructor; `none` is an argument left to its default. -/
def PKIEnvironment.new (certAuth certStore keyStore : Option Nat) : PKIEnvironment :=
  ⟨certAuth.getD CertificateAuthority.getDefault, certStore.getD LocalCertificateStore.getDefault,
    keyStore.getD LocalKeyStore.getDefault⟩

variable {CA CS KS Ex : Type}

namespace PKIEnvironment

variable (e : PKIEnvironment) (m : Heap CA CS KS)

def getCertificateAuthority : CertificateAuthority := (m.auths e.certAuth).base

def getCertificateStore : Obj CertificateStore CS := m.stores e.certStore

def getKeyStore : Obj KeyStore KS := m.keys e.keyStore

def setCertificateAuthority (certAuth : Nat) : Heap CA CS KS :=
  { m with auths := assign m.auths e.certAuth certAuth }

def setCertificateStore (certStore : Nat) : Heap CA CS KS :=
  { m with stores := assign m.stores e.certStore certStore }

def setKeyStore (keyStore : Nat) : Heap CA CS KS :=
  { m with keys := assign m.keys e.keyStore keyStore }

/-- The assignment slices: of the store given it copies the base class, which has no data. -/
@[simp] theorem setCertificateStore_eq (s : Nat) : e.setCertificateStore m s = m := by
  simp [setCertificateStore, assign_of_subsingleton]

@[simp] theorem setKeyStore_eq (k : Nat) : e.setKeyStore m k = m := by
  simp [setKeyStore, assign_of_subsingleton]

@[simp] theorem setCertificateAuthority_self (a : Nat) :
    e.getCertificateAuthority (e.setCertificateAuthority m a) = (m.auths a).base := by
  simp [getCertificateAuthority, setCertificateAuthority]

end PKIEnvironment

/-! ## Calling the setters -/

inductive Setter where
  | certificateAuthority (certAuth : Nat)
  | certificateStore (certStore : Nat)
  | keyStore (keyStore : Nat)
  deriving DecidableEq, Repr

def Setter.store? : Setter → Option Nat
  | .certificateStore s => some s
  | _ => none

def Setter.key? : Setter → Option Nat
  | .keyStore k => some k
  | _ => none

def call (e : PKIEnvironment) (m : Heap CA CS KS) : Setter → Heap CA CS KS
  | .certificateAuthority a => e.setCertificateAuthority m a
  | .certificateStore s => e.setCertificateStore m s
  | .keyStore k => e.setKeyStore m k

/-- What the authority last set held at the call; before any call, the one the
    environment was built with. -/
def authorityWhenSet (e : PKIEnvironment) : Heap CA CS KS → CertificateAuthority → List Setter → CertificateAuthority
  | _, last, [] => last
  | m, _, .certificateAuthority a :: cs =>
    authorityWhenSet e (call e m (.certificateAuthority a)) (m.auths a).base cs
  | m, last, c :: cs => authorityWhenSet e (call e m c) last cs

/-- The store last set, or the one the environment was built with. -/
def storeSet (e : PKIEnvironment) (calls : List Setter) : Nat := (calls.filterMap Setter.store?).getLastD e.certStore

def keySet (e : PKIEnvironment) (calls : List Setter) : Nat := (calls.filterMap Setter.key?).getLastD e.keyStore

section Lookups

variable (getCertificate : Obj CertificateStore CS → Str → Except Ex (List UInt8))
  (getPrivateKey : Obj KeyStore KS → Str → Except Ex (List UInt8))

/-- Every setter called took effect. -/
structure TakesEffect (e : PKIEnvironment) (m : Heap CA CS KS) (calls : List Setter) : Prop where
  authority : e.getCertificateAuthority (run (call e) m calls) =
    authorityWhenSet e m (e.getCertificateAuthority m) calls
  certificates : ∀ path, getCertificate (e.getCertificateStore (run (call e) m calls)) path =
    getCertificate (m.stores (storeSet e calls)) path
  privateKeys : ∀ path, getPrivateKey (e.getKeyStore (run (call e) m calls)) path =
    getPrivateKey (m.keys (keySet e calls)) path

/-! ## What calls on one environment do to it -/

theorem call_stores (e : PKIEnvironment) (m : Heap CA CS KS) (c : Setter) : (call e m c).stores = m.stores := by
  cases c <;> simp [call, PKIEnvironment.setCertificateAuthority]

theorem call_keys (e : PKIEnvironment) (m : Heap CA CS KS) (c : Setter) : (call e m c).keys = m.keys := by
  cases c <;> simp [call, PKIEnvironment.setCertificateAuthority]

theorem calls_authority (e : PKIEnvironment) (m : Heap CA CS KS) (calls : List Setter) :
    e.getCertificateAuthority (run (call e) m calls) =
      authorityWhenSet e m (e.getCertificateAuthority m) calls := by
  induction calls generalizing m with
  | nil => rfl
  | cons c cs ih =>
    rw [run, ih]
    cases c with
    | certificateAuthority a => simp [authorityWhenSet, call]
    | certificateStore s => simp [authorityWhenSet, call]
    | keyStore k => simp [authorityWhenSet, call]

theorem calls_stores (e : PKIEnvironment) (m : Heap CA CS KS) (calls : List Setter) :
    (run (call e) m calls).stores = m.stores ∧ (run (call e) m calls).keys = m.keys :=
  run_inv (I := fun m' : Heap CA CS KS => m'.stores = m.stores ∧ m'.keys = m.keys)
    (fun m' c h => ⟨(call_stores e m' c).trans h.1, (call_keys e m' c).trans h.2⟩) ⟨rfl, rfl⟩ calls

theorem setters_take_effect_iff (e : PKIEnvironment) (m : Heap CA CS KS) (calls : List Setter) :
    TakesEffect getCertificate getPrivateKey e m calls ↔
      (∀ path, getCertificate (m.stores e.certStore) path = getCertificate (m.stores (storeSet e calls)) path) ∧
      ∀ path, getPrivateKey (m.keys e.keyStore) path = getPrivateKey (m.keys (keySet e calls)) path := by
  obtain ⟨hs, hk⟩ := calls_stores e m calls
  constructor
  · intro h
    have hc := h.certificates
    have hp := h.privateKeys
    simp only [PKIEnvironment.getCertificateStore, PKIEnvironment.getKeyStore, hs, hk] at hc hp
    exact ⟨hc, hp⟩
  · intro ⟨hc, hp⟩
    refine ⟨calls_authority e m calls, ?_, ?_⟩
    · simpa only [PKIEnvironment.getCertificateStore, hs] using hc
    · simpa only [PKIEnvironment.getKeyStore, hk] using hp

end Lookups

/-- A store that answers every path with the bytes it was made with, or has none. -/
def answer {B : Type} (o : Obj B (Option (List UInt8))) (_path : Str) : Except Err (List UInt8) :=
  match o.derived with
  | some bytes => .ok bytes
  | none => .error ⟨.invalidArgument, str "no such entry"⟩

/-- The environment goes on using the empty store it was built with. -/
theorem a_store_set_is_not_used :
    ¬ TakesEffect answer answer (.new none none none)
      (⟨fun _ => ⟨.new none none, ()⟩, fun s => ⟨{}, if s = 1 then some [0x2d] else none⟩, fun _ => ⟨{}, none⟩⟩ :
        Heap Unit _ _)
      [.certificateStore 1] := by
  intro h
  have h1 := h.certificates []
  revert h1
  decide

/-! ## Many environments -/

structure World (CA CS KS : Type) extends Heap CA CS KS where
  envs : Nat → Option PKIEnvironment

inductive Op where
  | build (this : Nat) (certAuth certStore keyStore : Option Nat)
  | set (this : Nat) (c : Setter)
  | addTrustedPeerCertificate (certAuth : Nat) (certPath : Str)
  deriving DecidableEq, Repr

/-- Building over a live environment, or a setter called on none, is no operation. -/
def step (w : World CA CS KS) : Op → World CA CS KS
  | .build this a s k =>
    match w.envs this with
    | some _ => w
    | none => { w with envs := update w.envs this (some (.new a s k)) }
  | .set this c =>
    match w.envs this with
    | some e => { w with toHeap := call e w.toHeap c }
    | none => w
  | .addTrustedPeerCertificate a path =>
    { w with auths := update w.auths a ⟨(w.auths a).base.addTrustedPeerCertificate path, (w.auths a).derived⟩ }

section Worlds

variable (getCertificate : Obj CertificateStore CS → Str → Except Ex (List UInt8))
  (getPrivateKey : Obj KeyStore KS → Str → Except Ex (List UInt8))

/-- `w'` differs from `w` in nothing an environment other than `this` reports, nor in the
    default objects. -/
structure Undisturbed (this : Nat) (w w' : World CA CS KS) : Prop where
  environments : ∀ f, f ≠ this → w'.envs f = w.envs f
  authority : ∀ f g, f ≠ this → w.envs f = some g →
    g.getCertificateAuthority w'.toHeap = g.getCertificateAuthority w.toHeap
  certificates : ∀ f g, f ≠ this → w.envs f = some g → ∀ path,
    getCertificate (g.getCertificateStore w'.toHeap) path = getCertificate (g.getCertificateStore w.toHeap) path
  privateKeys : ∀ f g, f ≠ this → w.envs f = some g → ∀ path,
    getPrivateKey (g.getKeyStore w'.toHeap) path = getPrivateKey (g.getKeyStore w.toHeap) path
  defaultAuthority : w'.auths CertificateAuthority.getDefault = w.auths CertificateAuthority.getDefault
  defaultCertificateStore : w'.stores LocalCertificateStore.getDefault = w.stores LocalCertificateStore.getDefault
  defaultKeyStore : w'.keys LocalKeyStore.getDefault = w.keys LocalKeyStore.getDefault

def Undisturbing (w : World CA CS KS) : Op → Prop
  | .set this c => Undisturbed getCertificate getPrivateKey this w (step w (.set this c))
  | _ => True

end Worlds

/-- The environment's authority is neither the default one nor another environment's. -/
def OwnAuthority (w : World CA CS KS) (this : Nat) (e : PKIEnvironment) : Prop :=
  e.certAuth ≠ CertificateAuthority.getDefault ∧ ∀ f g, f ≠ this → w.envs f = some g → g.certAuth ≠ e.certAuth

/-- An authority set equals the one it replaces, or replaces one nobody shares. -/
def KeepsApart (w : World CA CS KS) : Op → Prop
  | .set this (.certificateAuthority a) =>
    ∀ e, w.envs this = some e → (w.auths a).base = e.getCertificateAuthority w.toHeap ∨ OwnAuthority w this e
  | _ => True

section Frame

variable (getCertificate : Obj CertificateStore CS → Str → Except Ex (List UInt8))
  (getPrivateKey : Obj KeyStore KS → Str → Except Ex (List UInt8))

theorem undisturbed_refl (this : Nat) (w : World CA CS KS) : Undisturbed getCertificate getPrivateKey this w w := by
  refine ⟨?_, ?_, ?_, ?_, rfl, rfl, rfl⟩ <;> intros <;> rfl

/-- Assigning into an authority disturbs those who share it, unless it writes what is there. -/
theorem undisturbed_setAuthority_iff (w : World CA CS KS) (this a : Nat) (e : PKIEnvironment) :
    Undisturbed getCertificate getPrivateKey this w { w with toHeap := e.setCertificateAuthority w.toHeap a } ↔
      (w.auths a).base = e.getCertificateAuthority w.toHeap ∨ OwnAuthority w this e := by
  -- an authority that is the target's keeps its value only if the value assigned is the same
  have hsame : (assign w.auths e.certAuth a e.certAuth).base = (w.auths e.certAuth).base ↔
      (w.auths a).base = e.getCertificateAuthority w.toHeap := by
    rw [assign_base]; rfl
  constructor
  · intro h
    by_cases heq : (w.auths a).base = e.getCertificateAuthority w.toHeap
    · exact Or.inl heq
    · refine Or.inr ⟨fun hd => heq (hsame.mp ?_), fun f g hf hg hshare => heq (hsame.mp ?_)⟩
      · have h1 := h.defaultAuthority
        rw [← hd] at h1
        exact congrArg Obj.base h1
      · have h1 := h.authority f g hf hg
        simp only [PKIEnvironment.getCertificateAuthority, hshare] at h1
        exact h1
  · intro h
    rcases h with heq | ⟨hd, hown⟩
    · have hno : assign w.auths e.certAuth a = w.auths := (assign_eq_iff w.auths e.certAuth a).mpr heq
      simp only [PKIEnvironment.setCertificateAuthority, hno]
      exact undisturbed_refl getCertificate getPrivateKey this w
    · refine ⟨fun _ _ => rfl, ?_, fun _ _ _ _ _ => rfl, fun _ _ _ _ _ => rfl, ?_, rfl, rfl⟩
      · intro f g hf hg
        show (assign w.auths e.certAuth a g.certAuth).base = (w.auths g.certAuth).base
        rw [assign_of_ne _ _ _ (hown f g hf hg)]
      · exact assign_of_ne _ _ _ (Ne.symm hd)

theorem undisturbing_iff (w : World CA CS KS) (op : Op) :
    Undisturbing getCertificate getPrivateKey w op ↔ KeepsApart w op := by
  cases op with
  | build this a s k => exact Iff.rfl
  | addTrustedPeerCertificate a path => exact Iff.rfl
  | set this c =>
    cases he : w.envs this with
    | none =>
      have hs : step w (.set this c) = w := by simp [step, he]
      rw [Undisturbing, hs, iff_true_left (undisturbed_refl getCertificate getPrivateKey this w)]
      cases c <;> simp [KeepsApart, he]
    | some e =>
      have hs : step w (.set this c) = { w with toHeap := call e w.toHeap c } := by simp [step, he]
      rw [Undisturbing, hs]
      cases c with
      | certificateAuthority a =>
        simp only [KeepsApart, he, Option.some.injEq, forall_eq']
        exact undisturbed_setAuthority_iff getCertificate getPrivateKey w this a e
      | certificateStore s =>
        simp only [call, PKIEnvironment.setCertificateStore_eq, KeepsApart]
        exact iff_true_intro (undisturbed_refl getCertificate getPrivateKey this w)
      | keyStore k =>
        simp only [call, PKIEnvironment.setKeyStore_eq, KeepsApart]
        exact iff_true_intro (undisturbed_refl getCertificate getPrivateKey this w)

theorem setters_undisturbing_iff (w : World CA CS KS) (ops : List Op) :
    Steps step (Undisturbing getCertificate getPrivateKey) w ops ↔ Steps step KeepsApart w ops :=
  steps_congr (I := fun _ => True) (fun _ _ _ => trivial)
    (fun w op _ => undisturbing_iff getCertificate getPrivateKey w op) trivial ops

end Frame

/-- Two environments built with the defaults share the default authority: the one set for
    the first is the second's, and every later default-built environment's. -/
theorem a_default_environment_sets_the_others_authority :
    ¬ Steps step (Undisturbing answer answer)
      (⟨⟨fun a => ⟨.new (if a = 1 then some (str "ca.pem") else none) none, ()⟩, fun _ => ⟨{}, none⟩,
        fun _ => ⟨{}, none⟩⟩, fun _ => none⟩ : World Unit _ _)
      [.build 0 none none none, .build 1 none none none, .set 0 (.certificateAuthority 1)] := by
  intro h
  have h1 := h.2.2.1.authority 1 (.new none none none) (by decide) rfl
  revert h1
  decide

end Iggy.Crypto
