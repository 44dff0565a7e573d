/-
  Iggy.Ssl.Defaults — the default cipher lists, the default options, and what any setters
  make of options.

  - `default_lists`: for every build and version code, when there is a default list, and that
    it names each cipher once, in upper case.
  - `default_list_monotone`: a build with more features offers every default cipher of one
    with fewer, in the same order.
  - `default_options_work`: wherever `SSLOptions()` can be built it is strictly valid, and a
    context made of it enforces it, if wolfSSL has a handle and knows its own build's names.
  - `options_after_setters`: options hold what each setter was last given, so calls of
    different setters may be made in any order, and are valid exactly if the last version
    set and the last peer type allow it; a certificate path set once is never lost.
-/

import Iggy.Lib.Run
import Iggy.Ssl.Outcome

namespace Iggy.Ssl

open Iggy.Lib.Run (run)

/-! ## The default lists -/

/-- An upper-case letter, a digit or an underscore. -/
def upperCase (b : UInt8) : Bool := (65 ≤ b && b ≤ 90) || (48 ≤ b && b ≤ 57) || b == 95

theorem ciphers_eq_nil_iff (B : Build) {v : ProtocolVersion} (hv : B.supports v = true) :
    B.ciphers v = [] ↔ (B.aesGcm || B.chachaPoly) = false := by
  cases v with
  | other code => cases hv
  | tlsv1_3 =>
    simp only [Build.ciphers, tls13Ciphers]
    cases B.aesGcm <;> cases B.chachaPoly <;> simp
  | tlsv1_2 =>
    simp only [Build.ciphers, tls12Ciphers]
    cases B.aesGcm <;> cases B.chachaPoly <;> simp

/-! ## More features, more ciphers -/

/-- `B'` has every feature of `B`. -/
structure Build.Within (B B' : Build) : Prop where
  noTls13 : B'.noTls13 = true → B.noTls13 = true
  noTls12 : B'.noTls12 = true → B.noTls12 = true
  aesGcm : B.haveAesGcm = true → B'.haveAesGcm = true
  noAes : B'.noAes = true → B.noAes = true
  sha384 : B.sha384 = true → B'.sha384 = true
  chacha : B.haveChacha = true → B'.haveChacha = true
  poly1305 : B.havePoly1305 = true → B'.havePoly1305 = true
  ecc : B.haveEcc = true → B'.haveEcc = true
  curves : B.haveSupportedCurves = true → B'.haveSupportedCurves = true
  noRsa : B'.noRsa = true → B.noRsa = true

theorem within_fullBuild (B : Build) : B.Within fullBuild :=
  ⟨nofun, nofun, fun _ => rfl, nofun, fun _ => rfl, fun _ => rfl, fun _ => rfl, fun _ => rfl, fun _ => rfl, nofun⟩

theorem offered_sublist {p q : Bool} (h : p = true → q = true) {l m : List Str} (hlm : List.Sublist l m) :
    List.Sublist (if p then l else []) (if q then m else []) := by
  cases p with
  | false => exact List.nil_sublist _
  | true =>
    rw [h rfl]
    exact hlm

theorem withheld_sublist {p q : Bool} (h : q = true → p = true) (l : List Str) :
    List.Sublist (if p then [] else l) (if q then [] else l) := by
  cases p with
  | true => exact List.nil_sublist _
  | false =>
    cases q with
    | false => exact List.Sublist.refl l
    | true => exact absurd (h rfl) Bool.false_ne_true

section Within

variable {B B' : Build} (h : B.Within B')
include h

theorem aesGcm_within (ha : B.aesGcm = true) : B'.aesGcm = true := by
  simp only [Build.aesGcm, Bool.and_eq_true, Bool.not_eq_true'] at ha ⊢
  refine ⟨h.aesGcm ha.1, ?_⟩
  cases hn : B'.noAes with
  | false => rfl
  | true => exact absurd (h.noAes hn) (by simp [ha.2])

theorem chachaPoly_within (hc : B.chachaPoly = true) : B'.chachaPoly = true := by
  simp only [Build.chachaPoly, Bool.and_eq_true] at hc ⊢
  exact ⟨h.chacha hc.1, h.poly1305 hc.2⟩

theorem ciphers_sublist (v : ProtocolVersion) : List.Sublist (B.ciphers v) (B'.ciphers v) := by
  have haes := aesGcm_within h
  have hchacha := chachaPoly_within h
  cases v with
  | other code => exact List.Sublist.refl _
  | tlsv1_3 =>
    show List.Sublist (tls13Ciphers B) (tls13Ciphers B')
    unfold tls13Ciphers
    exact (offered_sublist haes ((List.Sublist.refl _).append (offered_sublist h.sha384 (List.Sublist.refl _)))).append
      (offered_sublist hchacha (List.Sublist.refl _))
  | tlsv1_2 =>
    show List.Sublist (tls12Ciphers B) (tls12Ciphers B')
    unfold tls12Ciphers
    refine (offered_sublist haes ?_).append (offered_sublist hchacha ?_)
    · exact (((List.Sublist.refl _).append (withheld_sublist h.noRsa _)).append
        (offered_sublist h.sha384 (List.Sublist.refl _))).append (withheld_sublist h.noRsa _)
    · exact (List.Sublist.refl _).append (withheld_sublist h.noRsa _)

theorem supports_within {v : ProtocolVersion} (hv : B.supports v = true) : B'.supports v = true := by
  have hno : ∀ {p q : Bool}, (q = true → p = true) → p = false → q = false := by
    intro p q hqp hp
    cases q with
    | false => rfl
    | true => rw [hqp rfl] at hp; cases hp
  cases v with
  | other code => cases hv
  | tlsv1_3 =>
    simp only [Build.supports, Bool.not_eq_true'] at hv ⊢
    exact hno h.noTls13 hv
  | tlsv1_2 =>
    simp only [Build.supports, Bool.and_eq_true, Bool.not_eq_true'] at hv ⊢
    exact ⟨hno h.noTls12 hv.1, h.ecc hv.2.1, h.curves hv.2.2⟩

/-- A build with more features has a default list where one with fewer does, and it offers
    the same ciphers in the same order, and perhaps others among them. -/
theorem default_list_monotone (v : ProtocolVersion) {l : List Str} (hl : getDefaultCipherList B v = .ok l) :
    ∃ l', getDefaultCipherList B' v = .ok l' ∧ List.Sublist l l' := by
  obtain ⟨hv, rfl, hne⟩ := (getDefaultCipherList_ok_iff B v l).mp hl
  have hsub := ciphers_sublist h v
  refine ⟨B'.ciphers v, (getDefaultCipherList_ok_iff B' v _).mpr ⟨supports_within h hv, rfl, ?_⟩, hsub⟩
  intro hnil
  rw [hnil] at hsub
  exact hne (List.sublist_nil.mp hsub)

end Within

/-- A build without RSA and SHA-384 offers two of the full build's six TLS 1.2 ciphers. -/
theorem a_smaller_build_offers_fewer :
    ∃ l', getDefaultCipherList fullBuild .tlsv1_2 = .ok l' ∧
      List.Sublist [str "TLS_ECDHE_ECDSA_WITH_AES_128_GCM_SHA256", str "TLS_ECDHE_ECDSA_WITH_CHACHA20_POLY1305"] l' :=
  default_list_monotone (within_fullBuild ⟨false, false, true, false, false, true, true, true, true, true⟩) .tlsv1_2 rfl

/-! ## Every default list -/

theorem ciphers_nodup (B : Build) (v : ProtocolVersion) : (B.ciphers v).Nodup := by
  apply (ciphers_sublist (within_fullBuild B) v).nodup
  cases v with
  | other code => exact List.nodup_nil
  | tlsv1_3 => decide
  | tlsv1_2 => decide

theorem ciphers_upperCase (B : Build) (v : ProtocolVersion) :
    ∀ n ∈ B.ciphers v, n.all upperCase = true ∧ str "TLS_" <+: n := by
  have h13 : ∀ n ∈ tls13Ciphers fullBuild, n.all upperCase = true ∧ str "TLS_" <+: n := by decide
  have h12 : ∀ n ∈ tls12Ciphers fullBuild, n.all upperCase = true ∧ str "TLS_" <+: n := by decide
  intro n hn
  have hfull := (ciphers_sublist (within_fullBuild B) v).subset hn
  cases v with
  | other code => cases hfull
  | tlsv1_3 => exact h13 n hfull
  | tlsv1_2 => exact h12 n hfull

/-- A default list is returned exactly for a supported version of a build that has AES-GCM
    or ChaCha20-Poly1305; it is not empty and names no cipher twice. -/
theorem default_lists (B : Build) (v : ProtocolVersion) :
    ((∃ l, getDefaultCipherList B v = .ok l) ↔ B.supports v = true ∧ (B.aesGcm || B.chachaPoly) = true) ∧
      (∀ e, getDefaultCipherList B v = .error e → e.kind = .runtimeError) ∧
      ∀ l, getDefaultCipherList B v = .ok l →
        l ≠ [] ∧ l.Nodup ∧ ∀ n ∈ l, n.all upperCase = true ∧ str "TLS_" <+: n := by
  refine ⟨?_, fun e he => getDefaultCipherList_kind he, fun l hl => ?_⟩
  · simp only [getDefaultCipherList_ok_iff]
    constructor
    · intro ⟨l, hv, hl, hne⟩
      rw [hl, ne_eq, ciphers_eq_nil_iff B hv] at hne
      exact ⟨hv, by simpa only [Bool.not_eq_false] using hne⟩
    · intro ⟨hv, hhas⟩
      refine ⟨B.ciphers v, hv, rfl, ?_⟩
      rw [ne_eq, ciphers_eq_nil_iff B hv, hhas]
      simp
  · obtain ⟨-, rfl, hne⟩ := (getDefaultCipherList_ok_iff B v l).mp hl
    exact ⟨hne, ciphers_nodup B v, ciphers_upperCase B v⟩

/-! ## The default options -/

theorem new_ok_iff (B : Build) (peerType : PeerType) (o : SSLOptions) :
    SSLOptions.new B peerType = .ok o ↔
      ∃ l, getDefaultCipherList B .tlsv1_3 = .ok l ∧ o = ⟨peerType, none, .tlsv1_3, l⟩ := by
  unfold SSLOptions.new
  cases getDefaultCipherList B .tlsv1_3 with
  | error e => exact iff_of_false nofun fun ⟨l, hl, _⟩ => by cases hl
  | ok l =>
    constructor
    · intro h
      cases h
      exact ⟨l, rfl, rfl⟩
    · intro ⟨l', hl, ho⟩
      cases hl
      rw [ho]
      rfl

/-- Default options are strictly valid, and what is made of them enforces them, where
    wolfSSL knows the ciphers it was built with and has a handle to give. -/
theorem default_options_work {B : Build} {o : SSLOptions} (ho : SSLOptions.new B .client = .ok o) {T : CipherTable}
    (hT : ∀ n ∈ B.ciphers .tlsv1_3, n ∈ T.known) (errorString : Str) {s : St} {options : Nat}
    (hs : s.optionsAt options = o) (this pkiEnv : Nat) :
    let r := construct T.builtin (T.lib true errorString) s this options pkiEnv
    o.validate true = .ok () ∧ r.1 = .ok ∧
      ∃ h, ctxOf r.2 this = some h ∧ Enforces (r.2.native h) o ∧ (r.2.native h).cipherList = o.ciphers := by
  intro r
  obtain ⟨l, hl, rfl⟩ := (new_ok_iff B .client o).mp ho
  obtain ⟨-, rfl, hne⟩ := (getDefaultCipherList_ok_iff B .tlsv1_3 l).mp hl
  have hanswer : cipherAnswer (T.lib true errorString) (s.optionsAt options) = some (B.ciphers .tlsv1_3) := by
    rw [cipherAnswer, hs]
    exact CipherTable.set_known hne hT
  have hversion : (s.optionsAt options).minimumSupportedProtocolVersion.version = some .tls1_3 := by rw [hs]; rfl
  have hr : construct T.builtin (T.lib true errorString) s this options pkiEnv = _ := construct_allocated hversion rfl
  rw [hanswer] at hr
  have hr : r = _ := hr
  rw [hr]
  refine ⟨rfl, rfl, s.next, by simp [ctxOf_place], ?_, by simp⟩
  simp only [place_native, alloc_native, Function.update_self]
  exact ⟨SSLOptions.validate_client rfl, rfl, (negotiates_iff_newest rfl).mpr rfl, fun n => Iff.rfl⟩

theorem the_full_build_works :
    let r := construct defaultTable.builtin (defaultTable.lib true []) (init fun _ => defaultOptions) 0 0 0
    r.1 = .ok ∧ ∃ h, ctxOf r.2 0 = some h ∧ (r.2.native h).cipherList = tls13Ciphers fullBuild := by
  intro r
  have hT : ∀ n ∈ fullBuild.ciphers .tlsv1_3, n ∈ defaultTable.known := fun n hn => List.mem_append_left _ hn
  have hs : (init fun _ => defaultOptions).optionsAt 0 = defaultOptions := rfl
  obtain ⟨-, hok, h, hh, -, hl⟩ := default_options_work rfl hT [] hs 0 0
  exact ⟨hok, h, hh, hl⟩

/-! ## Setters -/

namespace SSLOptions

def Setter.peerType? : Setter → Option PeerType
  | .setPeerType peerType => some peerType
  | _ => none

def Setter.peerCertPath? : Setter → Option Str
  | .setPeerCertificatePath peerCertPath => some peerCertPath
  | _ => none

def Setter.version? : Setter → Option ProtocolVersion
  | .setMinimumSupportedProtocolVersion version => some version
  | _ => none

def Setter.ciphers? : Setter → Option (List Str)
  | .setCiphers ciphers => some ciphers
  | _ => none

/-- What a setter was last given, or else the value `d`. -/
def lastOf {α : Type} (f : Setter → Option α) (d : α) (calls : List Setter) : α := (calls.filterMap f).getLastD d

theorem lastOf_cons {α : Type} (f : Setter → Option α) (d : α) (c : Setter) (calls : List Setter) :
    lastOf f d (c :: calls) = lastOf f ((f c).getD d) calls := by
  unfold lastOf
  cases hc : f c with
  | none => rw [List.filterMap_cons_none hc, Option.getD_none]
  | some a => rw [List.filterMap_cons_some hc, List.getLastD_cons, Option.getD_some]

/-- After any calls every member is what its setter was last given. -/
theorem run_set (o : SSLOptions) (calls : List Setter) :
    run set o calls =
      ⟨lastOf Setter.peerType? o.peerType calls, lastOf (fun c => c.peerCertPath?.map some) o.peerCertPath calls,
        lastOf Setter.version? o.minimumSupportedProtocolVersion calls, lastOf Setter.ciphers? o.ciphers calls⟩ := by
  induction calls generalizing o with
  | nil => rfl
  | cons c calls ih =>
    rw [run, ih]
    simp only [lastOf_cons]
    cases c <;> rfl

theorem lastOf_path_isSome (d : Option Str) (calls : List Setter) :
    (lastOf (fun c => c.peerCertPath?.map some) d calls).isSome = true ↔
      d.isSome = true ∨ ∃ p, .setPeerCertificatePath p ∈ calls := by
  induction calls generalizing d with
  | nil => exact ⟨Or.inl, fun h => h.resolve_right nofun⟩
  | cons c calls ih =>
    rw [lastOf_cons, ih]
    cases c with
    | setPeerCertificatePath p => exact iff_of_true (Or.inl rfl) (Or.inr ⟨p, List.mem_cons_self⟩)
    | setPeerType peerType => simp [Setter.peerCertPath?]
    | setMinimumSupportedProtocolVersion version => simp [Setter.peerCertPath?]
    | setCiphers ciphers => simp [Setter.peerCertPath?]

theorem validate_ok_iff (o : SSLOptions) (strict : Bool) :
    o.validate strict = .ok () ↔ (strict = true → o.minimumSupportedProtocolVersion = .tlsv1_3) ∧
      (o.peerType = .server → o.peerCertPath.isSome = true) := by
  unfold validate
  by_cases hv : o.minimumSupportedProtocolVersion = .tlsv1_3
  · cases hp : o.peerType <;> cases hc : o.peerCertPath <;> simp [hv]
  · cases strict
    · cases hp : o.peerType <;> cases hc : o.peerCertPath <;> simp
    · simp [hv]

/-- The calls of each setter are the same, in the same order. -/
def Reordered (calls calls' : List Setter) : Prop :=
  calls.filterMap Setter.peerType? = calls'.filterMap Setter.peerType? ∧
    calls.filterMap Setter.peerCertPath? = calls'.filterMap Setter.peerCertPath? ∧
    calls.filterMap Setter.version? = calls'.filterMap Setter.version? ∧
    calls.filterMap Setter.ciphers? = calls'.filterMap Setter.ciphers?

theorem options_after_setters (o : SSLOptions) (calls : List Setter) :
    run set o calls =
        ⟨lastOf Setter.peerType? o.peerType calls, lastOf (fun c => c.peerCertPath?.map some) o.peerCertPath calls,
          lastOf Setter.version? o.minimumSupportedProtocolVersion calls, lastOf Setter.ciphers? o.ciphers calls⟩ ∧
      (∀ calls', Reordered calls calls' → run set o calls' = run set o calls) ∧
      ∀ strict, (run set o calls).validate strict = .ok () ↔
        (strict = true → lastOf Setter.version? o.minimumSupportedProtocolVersion calls = .tlsv1_3) ∧
        (lastOf Setter.peerType? o.peerType calls = .server →
          o.peerCertPath.isSome = true ∨ ∃ p, .setPeerCertificatePath p ∈ calls) := by
  refine ⟨run_set o calls, ?_, ?_⟩
  · intro calls' ⟨hpeer, hpath, hversion, hciphers⟩
    have hsome : ∀ cs : List Setter, cs.filterMap (fun c => c.peerCertPath?.map some) =
        (cs.filterMap Setter.peerCertPath?).map some := fun cs => (List.map_filterMap ..).symm
    rw [run_set, run_set]
    unfold lastOf
    rw [hpeer, hversion, hciphers, hsome, hsome, hpath]
  · intro strict
    rw [validate_ok_iff, run_set, lastOf_path_isSome]

end SSLOptions

end Iggy.Ssl
