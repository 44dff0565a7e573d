/-
  Iggy.Ssl.Options — `SSLOptions` (sdk/net/crypto/ssl.h, ssl.cc).

  The options are plain data with setters; what depends on the build is the default
  cipher list, which the preprocessor assembles from the flags wolfSSL was compiled with
  (`Build`). A `ProtocolVersion` is one of the two enumerators or, for the source's
  default branches, some other code.

  Proved: for which builds and versions there is a default list, and that it is the build's
  ciphers of the version (`getDefaultCipherList_ok_iff`).
-/

import Iggy.Basic

namespace Iggy.Ssl

inductive PeerType where
  | client
  | server
  deriving DecidableEq, Repr

inductive ProtocolVersion where
  | tlsv1_2
  | tlsv1_3
  | other (code : Int)
  deriving DecidableEq, Repr

def getProtocolVersionName : ProtocolVersion → Except Err Str
  | .tlsv1_3 => .ok (str "TLSV1_3")
  | .tlsv1_2 => .ok (str "TLSV1_2")
  | .other code => .error ⟨.runtimeError, str "Unsupported protocol version code: " ++ str (toString code)⟩

/-- `throw std::runtime_error(fmt::format(message, protocolVersionName))`: naming the
    version may itself throw. -/
def throwNamed {α : Type} (message : String) (protocolVersion : ProtocolVersion) : Except Err α := do
  let protocolVersionName ← getProtocolVersionName protocolVersion
  throw ⟨.runtimeError, str message ++ protocolVersionName⟩

/-- The wolfSSL feature macros the default cipher list depends on. -/
structure Build where
  noTls13 : Bool
  noTls12 : Bool
  haveAesGcm : Bool
  noAes : Bool
  sha384 : Bool
  haveChacha : Bool
  havePoly1305 : Bool
  haveEcc : Bool
  haveSupportedCurves : Bool
  noRsa : Bool
  deriving DecidableEq, Repr

def Build.aesGcm (B : Build) : Bool := B.haveAesGcm && !B.noAes

def Build.chachaPoly (B : Build) : Bool := B.haveChacha && B.havePoly1305

/-- The recommended TLS 1.3 ciphers a build has. -/
def tls13Ciphers (B : Build) : List Str :=
  (if B.aesGcm then
    [str "TLS_AES_128_GCM_SHA256"] ++ (if B.sha384 then [str "TLS_AES_256_GCM_SHA384"] else [])
  else []) ++
  if B.chachaPoly then [str "TLS_CHACHA20_POLY1305_SHA256"] else []

/-- The recommended TLS 1.2 ciphers a build has. -/
def tls12Ciphers (B : Build) : List Str :=
  (if B.aesGcm then
    [str "TLS_ECDHE_ECDSA_WITH_AES_128_GCM_SHA256"] ++
    (if B.noRsa then [] else [str "TLS_ECDHE_RSA_WITH_AES_128_GCM_SHA256"]) ++
    (if B.sha384 then [str "TLS_ECDHE_ECDSA_WITH_AES_256_GCM_SHA384"] else []) ++
    (if B.noRsa then [] else [str "TLS_ECDHE_RSA_WITH_AES_256_GCM_SHA384"])
  else []) ++
  if B.chachaPoly then
    [str "TLS_ECDHE_ECDSA_WITH_CHACHA20_POLY1305"] ++
    (if B.noRsa then [] else [str "TLS_ECDHE_RSA_WITH_CHACHA20_POLY1305"])
  else []

def getDefaultCipherList (B : Build) (protocolVersion : ProtocolVersion) : Except Err (List Str) := do
  let ciphers ← match protocolVersion with
    | .tlsv1_3 =>
      if B.noTls13 then throw ⟨.runtimeError, str "TLS 1.3 is not supported by this build of WolfSSL"⟩
      else pure (tls13Ciphers B)
    | .tlsv1_2 =>
      if B.noTls12 then throw ⟨.runtimeError, str "TLS 1.2 is not supported by this build of WolfSSL"⟩
      else if !B.haveEcc || !B.haveSupportedCurves then
        throw ⟨.runtimeError, str "ECC + Supported Curves must be enabled to support ECDHE"⟩
      else pure (tls12Ciphers B)
    | .other _ => throwNamed "Unsupported protocol version: " protocolVersion
  if ciphers.isEmpty then throwNamed "No ciphers available for the specified protocol version: " protocolVersion
  else pure ciphers

/-! ## The default list -/

/-- The build has what the version needs. -/
def Build.supports (B : Build) : ProtocolVersion → Bool
  | .tlsv1_3 => !B.noTls13
  | .tlsv1_2 => !B.noTls12 && (B.haveEcc && B.haveSupportedCurves)
  | .other _ => false

/-- The build's ciphers of a version. -/
def Build.ciphers (B : Build) : ProtocolVersion → List Str
  | .tlsv1_3 => tls13Ciphers B
  | .tlsv1_2 => tls12Ciphers B
  | .other _ => []

theorem throwNamed_error {α : Type} (message : String) (v : ProtocolVersion) :
    ∃ e, (throwNamed message v : Except Err α) = .error e ∧ e.kind = .runtimeError := by
  cases v with
  | tlsv1_2 => exact ⟨_, rfl, rfl⟩
  | tlsv1_3 => exact ⟨_, rfl, rfl⟩
  | other code => exact ⟨_, rfl, rfl⟩

/-- An empty list is not returned. -/
theorem kept_cases (message : String) (v : ProtocolVersion) (l : List Str) :
    let r : Except Err (List Str) := if l.isEmpty then throwNamed message v else pure l
    (l ≠ [] ∧ r = .ok l) ∨ (l = [] ∧ ∃ e, r = .error e ∧ e.kind = .runtimeError) := by
  cases l with
  | nil => exact Or.inr ⟨rfl, throwNamed_error message v⟩
  | cons c cs => exact Or.inl ⟨by simp, rfl⟩

/-- It returns the build's ciphers of a version the build supports, if it has any. -/
theorem getDefaultCipherList_cases (B : Build) (v : ProtocolVersion) :
    (B.supports v = true ∧ B.ciphers v ≠ [] ∧ getDefaultCipherList B v = .ok (B.ciphers v)) ∨
    (¬ (B.supports v = true ∧ B.ciphers v ≠ []) ∧
      ∃ e, getDefaultCipherList B v = .error e ∧ e.kind = .runtimeError) := by
  unfold getDefaultCipherList Build.supports Build.ciphers
  cases v with
  | other code => exact Or.inr ⟨fun h => Bool.false_ne_true h.1, _, rfl, rfl⟩
  | tlsv1_3 =>
    cases hno : B.noTls13 with
    | true => exact Or.inr ⟨fun h => Bool.false_ne_true h.1, _, rfl, rfl⟩
    | false =>
      rcases kept_cases _ .tlsv1_3 (tls13Ciphers B) with ⟨hne, hok⟩ | ⟨hnil, herr⟩
      · exact Or.inl ⟨rfl, hne, hok⟩
      · exact Or.inr ⟨fun h => h.2 hnil, herr⟩
  | tlsv1_2 =>
    cases hno : B.noTls12 with
    | true => exact Or.inr ⟨fun h => Bool.false_ne_true h.1, _, rfl, rfl⟩
    | false =>
      cases hecc : B.haveEcc <;> cases hcur : B.haveSupportedCurves
      case true.true =>
        rcases kept_cases _ .tlsv1_2 (tls12Ciphers B) with ⟨hne, hok⟩ | ⟨hnil, herr⟩
        · exact Or.inl ⟨rfl, hne, hok⟩
        · exact Or.inr ⟨fun h => h.2 hnil, herr⟩
      -- no ECC, or no supported curves
      all_goals exact Or.inr ⟨fun h => Bool.false_ne_true h.1, _, rfl, rfl⟩

theorem getDefaultCipherList_ok_iff (B : Build) (v : ProtocolVersion) (l : List Str) :
    getDefaultCipherList B v = .ok l ↔ B.supports v = true ∧ l = B.ciphers v ∧ l ≠ [] := by
  rcases getDefaultCipherList_cases B v with ⟨hv, hne, hok⟩ | ⟨hno, e, he, -⟩
  · rw [hok, Except.ok.injEq, eq_comm]
    exact ⟨fun h => ⟨hv, h, by rw [h]; exact hne⟩, fun h => h.2.1⟩
  · rw [he]
    exact iff_of_false nofun fun ⟨hv, hl, hne⟩ => hno ⟨hv, hl ▸ hne⟩

theorem getDefaultCipherList_kind {B : Build} {v : ProtocolVersion} {e : Err}
    (h : getDefaultCipherList B v = .error e) : e.kind = .runtimeError := by
  rcases getDefaultCipherList_cases B v with ⟨-, -, hok⟩ | ⟨-, e', he, hkind⟩
  · rw [hok] at h
    cases h
  · rw [he] at h
    cases h
    exact hkind

/-! ## Options -/

structure SSLOptions where
  peerType : PeerType
  peerCertPath : Option Str
  minimumSupportedProtocolVersion : ProtocolVersion
  ciphers : List Str
  deriving DecidableEq, Repr

namespace SSLOptions

/-- `SSLOptions(peerType)`: the other members have default initialisers. -/
def new (B : Build) (peerType : PeerType) : Except Err SSLOptions := do
  let ciphers ← getDefaultCipherList B .tlsv1_3
  pure ⟨peerType, none, .tlsv1_3, ciphers⟩

inductive Setter where
  | setPeerType (peerType : PeerType)
  | setPeerCertificatePath (peerCertPath : Str)
  | setMinimumSupportedProtocolVersion (version : ProtocolVersion)
  | setCiphers (ciphers : List Str)
  deriving DecidableEq, Repr

def set (o : SSLOptions) : Setter → SSLOptions
  | .setPeerType peerType => { o with peerType }
  | .setPeerCertificatePath peerCertPath => { o with peerCertPath := some peerCertPath }
  | .setMinimumSupportedProtocolVersion version => { o with minimumSupportedProtocolVersion := version }
  | .setCiphers ciphers => { o with ciphers }

def validate (o : SSLOptions) (strict : Bool) : Except Err Unit :=
  if strict && o.minimumSupportedProtocolVersion != .tlsv1_3 then
    .error ⟨.runtimeError, str "Only TLS 1.3 is supported in strict mode"⟩
  else if o.peerType == .server && o.peerCertPath.isNone then
    .error ⟨.runtimeError, str "Server mode requires a peer certificate path"⟩
  else .ok ()

/-- The options a program can build: the default ones changed by any setters. -/
inductive Reach (B : Build) : SSLOptions → Prop
  | default {o : SSLOptions} : new B .client = .ok o → Reach B o
  | set {o : SSLOptions} (c : Setter) : Reach B o → Reach B (o.set c)

theorem validate_client {o : SSLOptions} (h : o.peerType = .client) : o.validate false = .ok () := by
  simp [validate, h]

end SSLOptions

end Iggy.Ssl
