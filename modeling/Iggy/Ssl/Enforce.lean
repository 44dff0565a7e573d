/-
  Iggy.Ssl.Enforce — what a constructed context enforces of its options.

  The constructor reads two things, the minimum version and the ciphers. It never
  validates, takes a client method whatever the peer type, and the method of a minimum
  version is fixed to that version. wolfSSL ignores the cipher names it does not know and
  enables its whole built-in list for an empty one.

  Proved: a constructor that returns leaves a context that enforces its options exactly
  if they ask for a client, TLS 1.3, and a non-empty list of names wolfSSL knows
  (`constructed_enforces_iff`).
-/

import Iggy.Ssl.Ciphers

namespace Iggy.Ssl

/-- The version is supported and at or above the minimum. -/
def ProtocolVersion.allows (minimum : ProtocolVersion) (v : Version) : Prop :=
  ∃ m, minimum.version = some m ∧ m.number ≤ v.number

/-- A native context does what the options ask for, and they are valid. -/
structure Enforces (c : NativeCtx) (o : SSLOptions) : Prop where
  valid : o.validate false = .ok ()
  role : c.method.role = o.peerType
  versions : ∀ v, c.negotiates v ↔ o.minimumSupportedProtocolVersion.allows v
  ciphers : ∀ n, n ∈ c.cipherList ↔ n ∈ o.ciphers

/-- The options the constructor can honour. -/
structure Honourable (T : CipherTable) (o : SSLOptions) : Prop where
  client : o.peerType = .client
  tls13 : o.minimumSupportedProtocolVersion = .tlsv1_3
  someCipher : o.ciphers ≠ []
  known : ∀ n ∈ o.ciphers, n ∈ T.known

theorem method_role (m : Method) : m.role = .client := by cases m <;> rfl

/-- A context fixed to a version negotiates what its minimum allows only if that version
    is the newest. -/
theorem negotiates_iff_newest {v : Version} {l : List Str} {minimum : ProtocolVersion} (hm : minimum.version = some v) :
    (∀ w, (⟨v.clientMethod, v, l⟩ : NativeCtx).negotiates w ↔ minimum.allows w) ↔ minimum = .tlsv1_3 := by
  have hv : v.clientMethod.version = v := by cases v <;> rfl
  constructor
  · intro h
    cases minimum with
    | tlsv1_3 => rfl
    | other code => cases hm
    | tlsv1_2 =>
      -- TLS 1.3 is above the minimum, and the method is fixed below it
      cases hm
      have h13 := (h .tls1_3).mpr ⟨.tls1_2, rfl, by decide⟩
      cases h13.1
  · rintro rfl w
    cases hm
    constructor
    · rintro ⟨rfl, hle⟩
      exact ⟨.tls1_3, rfl, hle⟩
    · intro ⟨m, hm, hle⟩
      cases hm
      refine ⟨?_, hle⟩
      cases w with
      | tls1_2 => exact absurd hle (by decide)
      | tls1_3 => rfl

/-- wolfSSL enables exactly the requested names only if there are any and it knows all. -/
theorem enabled_iff_known {T : CipherTable} {cs l : List Str} (h : T.setCipherList (cipherArgument cs) = some l) :
    (∀ n, n ∈ l ↔ n ∈ cs) ↔ cs ≠ [] ∧ ∀ n ∈ cs, n ∈ T.known := by
  constructor
  · intro he
    obtain ⟨hne, hk⟩ := CipherTable.set_sound h
    refine ⟨?_, fun n hn => hk n ((he n).mpr hn)⟩
    rintro rfl
    obtain ⟨n, hn⟩ := List.exists_mem_of_ne_nil l hne
    exact absurd ((he n).mp hn) List.not_mem_nil
  · intro ⟨hne, hk⟩ n
    rw [CipherTable.set_known hne hk] at h
    cases h
    exact Iff.rfl

/-- A constructor that returned got its handle and had its cipher list taken. -/
theorem construct_ok {builtin : List Str} {lib : Lib} {s : St} {this options pkiEnv : Nat}
    (h : (construct builtin lib s this options pkiEnv).1 = .ok) :
    ∃ v l, (s.optionsAt options).minimumSupportedProtocolVersion.version = some v ∧
      cipherAnswer lib (s.optionsAt options) = some l ∧
      (construct builtin lib s this options pkiEnv).2 =
        place (alloc s ⟨v.clientMethod, v, l⟩) this (some ⟨options, pkiEnv, some s.next, some ⟨s.next⟩⟩) := by
  cases hv : (s.optionsAt options).minimumSupportedProtocolVersion.version with
  | none =>
    obtain ⟨e, he, -⟩ := construct_unsupported builtin lib this pkiEnv hv
    rw [he] at h; cases h
  | some v =>
    cases hn : lib.ctxNew with
    | false => rw [construct_null hv hn] at h; cases h
    | true =>
      rw [construct_allocated hv hn] at h ⊢
      cases hc : cipherAnswer lib (s.optionsAt options) with
      | none => rw [hc] at h; cases h
      | some l => exact ⟨v, l, rfl, rfl, rfl⟩

/-- A context whose constructor returned enforces the options it was given, whatever
    setters built them, exactly if they are among those the constructor can honour. -/
theorem constructed_enforces_iff (T : CipherTable) (ctxNew : Bool) (errorString : Str) (s : St)
    (this options pkiEnv : Nat)
    (hok : (construct T.builtin (T.lib ctxNew errorString) s this options pkiEnv).1 = .ok) :
    (∃ h, ctxOf (construct T.builtin (T.lib ctxNew errorString) s this options pkiEnv).2 this = some h ∧
      Enforces ((construct T.builtin (T.lib ctxNew errorString) s this options pkiEnv).2.native h)
        (s.optionsAt options)) ↔
      Honourable T (s.optionsAt options) := by
  obtain ⟨v, l, hv, hl, hs⟩ := construct_ok hok
  have hctx : ctxOf (construct T.builtin (T.lib ctxNew errorString) s this options pkiEnv).2 this = some s.next := by
    rw [hs]; simp [ctxOf_place]
  have hnat : (construct T.builtin (T.lib ctxNew errorString) s this options pkiEnv).2.native s.next =
      ⟨v.clientMethod, v, l⟩ := by
    rw [hs]; simp
  have hver := negotiates_iff_newest (l := l) hv
  have hciph := enabled_iff_known hl
  constructor
  · intro ⟨h, hh, henf⟩
    rw [hctx] at hh
    cases hh
    rw [hnat] at henf
    have hc := hciph.mp henf.ciphers
    exact ⟨henf.role.symm.trans (method_role _), hver.mp henf.versions, hc.1, hc.2⟩
  · intro ho
    refine ⟨s.next, hctx, ?_⟩
    rw [hnat]
    exact ⟨SSLOptions.validate_client ho.client, (method_role _).trans ho.client.symm, hver.mpr ho.tls13,
      hciph.mpr ⟨ho.someCipher, ho.known⟩⟩

/-- A build with every feature the default lists ask for. -/
def fullBuild : Build := ⟨false, false, true, false, true, true, true, true, true, false⟩

/-- A wolfSSL that knows the default lists' names, and enables those of TLS 1.3. -/
def defaultTable : CipherTable where
  known := tls13Ciphers fullBuild ++ tls12Ciphers fullBuild
  builtin := tls13Ciphers fullBuild
  builtin_ne := by decide
  builtin_known := fun _ hn => List.mem_append_left _ hn
  known_name := by decide

/-- The default options, which the constructor honours. -/
def defaultOptions : SSLOptions := ⟨.client, none, .tlsv1_3, tls13Ciphers fullBuild⟩

theorem defaultOptions_reach : SSLOptions.Reach fullBuild defaultOptions := .default rfl

/-- The default options are enforced. -/
theorem default_options_enforced :
    let r := construct defaultTable.builtin (defaultTable.lib true []) (init fun _ => defaultOptions) 0 0 0
    r.1 = .ok ∧ ∃ h, ctxOf r.2 0 = some h ∧ Enforces (r.2.native h) defaultOptions := by
  have hknown : ∀ n ∈ defaultOptions.ciphers, n ∈ defaultTable.known := fun _ hn => List.mem_append_left _ hn
  exact ⟨by decide, (constructed_enforces_iff defaultTable true [] (init fun _ => defaultOptions) 0 0 0
    (by decide)).mpr ⟨rfl, rfl, by decide, hknown⟩⟩

/-- The default options asked to support TLS 1.2 too: the constructor returns, and the
    context does not negotiate TLS 1.3. -/
theorem a_tls12_minimum_excludes_tls13 :
    let o := defaultOptions.set (.setMinimumSupportedProtocolVersion .tlsv1_2)
    let r := construct defaultTable.builtin (defaultTable.lib true []) (init fun _ => o) 0 0 0
    SSLOptions.Reach fullBuild o ∧ r.1 = .ok ∧
      ¬ ∃ h, ctxOf r.2 0 = some h ∧ Enforces (r.2.native h) o := by
  refine ⟨.set _ defaultOptions_reach, by decide, ?_⟩
  intro ⟨h, hh, henf⟩
  obtain rfl : 0 = h := Option.some.inj hh
  have h13 := (henf.versions .tls1_3).mpr ⟨.tls1_2, rfl, by decide⟩
  exact absurd h13.1 (by decide)

end Iggy.Ssl
