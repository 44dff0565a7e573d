/-
  Iggy.Ssl.Context — `SSLContext` over wolfSSL handles (sdk/net/crypto/ssl.h, ssl.cc).

  Objects live at addresses: `objs` the live `SSLContext`s, `optionsAt` the `SSLOptions`
  their `options` members are bound to (the member is a reference, so only the address is
  held; a `pkiEnv` is held the same way). A handle is a number `wolfSSL_CTX_new` gave out
  once; `native` is what each handle is configured to do, and `frees` the arguments of
  `wolfSSL_CTX_free` so far, in call order. A certificate manager is known by the handle
  that owns it.

  What wolfSSL answers during an operation is `Lib`: whether an allocation succeeds, what
  `wolfSSL_CTX_set_cipher_list` makes of its argument (`none`: it fails), and the text of
  its last error. `builtin` is the cipher list a new context starts with.

  An operation is one special member function of `SSLContext`, or a client's call of a
  setter on an options object. One whose objects are not there (constructing where an
  object lives, using one that does not) is no C++ operation and changes nothing.
-/

import Mathlib.Logic.Function.Basic
import Iggy.Ssl.Options

namespace Iggy.Ssl

open Function (update)

/-! ## wolfSSL -/

/-- `TLS1_2_VERSION`, `TLS1_3_VERSION`. -/
inductive Version where
  | tls1_2
  | tls1_3
  deriving DecidableEq, Repr

def Version.number : Version → Nat
  | .tls1_2 => 0x0303
  | .tls1_3 => 0x0304

inductive Method where
  | wolfTLSv1_2_client_method
  | wolfTLSv1_3_client_method
  deriving DecidableEq, Repr

/-- The one version a method is fixed to. -/
def Method.version : Method → Version
  | .wolfTLSv1_2_client_method => .tls1_2
  | .wolfTLSv1_3_client_method => .tls1_3

def Method.role : Method → PeerType
  | .wolfTLSv1_2_client_method => .client
  | .wolfTLSv1_3_client_method => .client

/-- What a `WOLFSSL_CTX` is configured to do. -/
structure NativeCtx where
  method : Method
  minProtoVersion : Version
  cipherList : List Str
  deriving DecidableEq, Repr

/-- A context fresh from `wolfSSL_CTX_new(m)`. -/
def NativeCtx.fresh (builtin : List Str) (m : Method) : NativeCtx := ⟨m, m.version, builtin⟩

/-- The versions a context negotiates: its method's, if not below the minimum. -/
def NativeCtx.negotiates (c : NativeCtx) (v : Version) : Prop :=
  v = c.method.version ∧ c.minProtoVersion.number ≤ v.number

/-- A `WOLFSSL_CERT_MANAGER`, by the handle that owns it. -/
structure CertManager where
  owner : Nat
  deriving DecidableEq, Repr

structure Lib where
  ctxNew : Bool
  setCipherList : Str → Option (List Str)
  errorString : Str

/-! ## The state -/

structure SSLContext where
  options : Nat
  pkiEnv : Nat
  ctx : Option Nat
  cm : Option CertManager
  deriving DecidableEq, Repr

structure St where
  optionsAt : Nat → SSLOptions
  objs : Nat → Option SSLContext
  next : Nat
  native : Nat → NativeCtx
  frees : List Nat

/-- No `SSLContext` yet and no handle given out. -/
def init (optionsAt : Nat → SSLOptions) : St :=
  ⟨optionsAt, fun _ => none, 0, fun _ => .fresh [] .wolfTLSv1_3_client_method, []⟩

/-- The handle of the live `SSLContext` at `o`, if it has one. -/
def ctxOf (s : St) (o : Nat) : Option Nat := (s.objs o).bind (·.ctx)

def place (s : St) (o : Nat) (x : Option SSLContext) : St := { s with objs := update s.objs o x }

/-- A new handle, configured as `c`. -/
def alloc (s : St) (c : NativeCtx) : St := { s with next := s.next + 1, native := update s.native s.next c }

/-! ## The library's calls -/

section Calls

variable (builtin : List Str) (lib : Lib) (s : St)

def wolfSSL_CTX_new (m : Method) : Option Nat × St :=
  if lib.ctxNew then (some s.next, alloc s (.fresh builtin m)) else (none, s)

def wolfSSL_CTX_free (h : Nat) : St := { s with frees := s.frees ++ [h] }

def wolfSSL_CTX_GetCertManager (ctx : Option Nat) : Option CertManager := ctx.map CertManager.mk

def wolfSSL_CTX_set_min_proto_version (h : Nat) (v : Version) : St :=
  { s with native := update s.native h { s.native h with minProtoVersion := v } }

/-- Whether the call succeeded, and the state after it. -/
def wolfSSL_CTX_set_cipher_list (h : Nat) (list : Str) : Bool × St :=
  match lib.setCipherList list with
  | some l => (true, { s with native := update s.native h { s.native h with cipherList := l } })
  | none => (false, s)

end Calls

/-! ## `SSLContext` -/

inductive Out where
  | ok
  | threw (e : Err)
  | noSuchOperation
  deriving DecidableEq, Repr

/-- The names joined by `:`, by the source's fold from the first one. -/
def joinedCiphers : List Str → Str
  | [] => []
  | c :: cs => cs.foldl (fun a b => a ++ str ":" ++ b) c

/-- `joinedCiphers.c_str()`, what `wolfSSL_CTX_set_cipher_list` is handed. -/
def cipherArgument (ciphers : List Str) : Str := cStr (joinedCiphers ciphers)

section Members

variable (builtin : List Str) (lib : Lib) (s : St)

def raiseSSLError (message : String) : Out :=
  .threw ⟨.runtimeError, str message ++ str ": " ++ lib.errorString⟩

/-- The constructor once it has its handle: the certificate manager and the ciphers. If
    it throws, no object comes to live at `this`. -/
def constructOn (this options pkiEnv h : Nat) : Out × St :=
  match wolfSSL_CTX_set_cipher_list lib s h (cipherArgument (s.optionsAt options).ciphers) with
  | (true, s) => (.ok, place s this (some ⟨options, pkiEnv, some h, wolfSSL_CTX_GetCertManager (some h)⟩))
  | (false, s) => (raiseSSLError lib "Failed to set cipher list", s)

/-- `SSLContext(options, pkiEnv)`. -/
def construct (this options pkiEnv : Nat) : Out × St :=
  match (s.optionsAt options).minimumSupportedProtocolVersion with
  | .tlsv1_2 =>
    match wolfSSL_CTX_new builtin lib s .wolfTLSv1_2_client_method with
    | (none, s) => (raiseSSLError lib "Failed to allocate WolfSSL context", s)
    | (some h, s) => constructOn lib (wolfSSL_CTX_set_min_proto_version s h .tls1_2) this options pkiEnv h
  | .tlsv1_3 =>
    match wolfSSL_CTX_new builtin lib s .wolfTLSv1_3_client_method with
    | (none, s) => (raiseSSLError lib "Failed to allocate WolfSSL context", s)
    | (some h, s) => constructOn lib (wolfSSL_CTX_set_min_proto_version s h .tls1_3) this options pkiEnv h
  | .other code =>
    match throwNamed (α := Empty) "Unsupported protocol version: " (.other code) with
    | .error e => (.threw e, s)

/-- `SSLContext(const SSLContext& other)`, `y` the object at `other`. -/
def copyConstruct (this : Nat) (y : SSLContext) : Out × St :=
  let (ctx, s) := wolfSSL_CTX_new builtin lib s .wolfTLSv1_3_client_method
  (.ok, place s this (some ⟨y.options, y.pkiEnv, ctx, wolfSSL_CTX_GetCertManager ctx⟩))

/-- `SSLContext(SSLContext&& other)`, `y` the object at `other`. -/
def moveConstruct (this other : Nat) (y : SSLContext) : Out × St :=
  let s := place s this (some ⟨y.options, y.pkiEnv, y.ctx, y.cm⟩)
  (.ok, place s other (some { y with ctx := none, cm := none }))

/-- `if (this->ctx) wolfSSL_CTX_free(this->ctx)`. -/
def freeHeld (x : SSLContext) : St :=
  match x.ctx with
  | some h => wolfSSL_CTX_free s h
  | none => s

/-- `~SSLContext()`. -/
def destroy (this : Nat) (x : SSLContext) : Out × St := (.ok, place (freeHeld s x) this none)

/-- `operator=(const SSLContext& other)`, `x` the object at `this`. -/
def copyAssign (this other : Nat) (x : SSLContext) : Out × St :=
  if this ≠ other then
    let s := freeHeld s x
    let (ctx, s) := wolfSSL_CTX_new builtin lib s .wolfTLSv1_3_client_method
    (.ok, place s this (some { x with ctx }))
  else (.ok, s)

/-- `operator=(SSLContext&& other)`, `x` and `y` the objects at `this` and `other`. -/
def moveAssign (this other : Nat) (x y : SSLContext) : Out × St :=
  if this ≠ other then
    let s := freeHeld s x
    let s := place s this (some { x with ctx := y.ctx })
    (.ok, place s other (some { y with ctx := none }))
  else (.ok, s)

end Members

/-! ## Runs -/

inductive Op where
  | construct (this options pkiEnv : Nat)
  | copyConstruct (this other : Nat)
  | moveConstruct (this other : Nat)
  | copyAssign (this other : Nat)
  | moveAssign (this other : Nat)
  | destroy (this : Nat)
  /-- A client's call of a setter on the options object at an address. -/
  | setOption (options : Nat) (c : SSLOptions.Setter)
  deriving DecidableEq, Repr

/-- An operation, and what wolfSSL answers during it. -/
structure Ev where
  op : Op
  lib : Lib

variable (builtin : List Str)

def step (s : St) (e : Ev) : Out × St :=
  match e.op with
  | .construct this options pkiEnv =>
    match s.objs this with
    | none => construct builtin e.lib s this options pkiEnv
    | some _ => (.noSuchOperation, s)
  | .copyConstruct this other =>
    match s.objs this, s.objs other with
    | none, some y => copyConstruct builtin e.lib s this y
    | _, _ => (.noSuchOperation, s)
  | .moveConstruct this other =>
    match s.objs this, s.objs other with
    | none, some y => moveConstruct s this other y
    | _, _ => (.noSuchOperation, s)
  | .copyAssign this other =>
    match s.objs this, s.objs other with
    | some x, some _ => copyAssign builtin e.lib s this other x
    | _, _ => (.noSuchOperation, s)
  | .moveAssign this other =>
    match s.objs this, s.objs other with
    | some x, some y => moveAssign s this other x y
    | _, _ => (.noSuchOperation, s)
  | .destroy this =>
    match s.objs this with
    | some x => destroy s this x
    | none => (.noSuchOperation, s)
  | .setOption options c =>
    (.ok, { s with optionsAt := update s.optionsAt options ((s.optionsAt options).set c) })

def next (s : St) (e : Ev) : St := (step builtin s e).2

/-! ## What the primitives do -/

section Fields

variable (s : St) (o p h : Nat) (x : Option SSLContext) (y : SSLContext) (c : NativeCtx)

@[simp] theorem place_next : (place s o x).next = s.next := rfl
@[simp] theorem place_native : (place s o x).native = s.native := rfl
@[simp] theorem place_frees : (place s o x).frees = s.frees := rfl
@[simp] theorem place_optionsAt : (place s o x).optionsAt = s.optionsAt := rfl
@[simp] theorem place_objs : (place s o x).objs = update s.objs o x := rfl
@[simp] theorem alloc_objs : (alloc s c).objs = s.objs := rfl
@[simp] theorem alloc_frees : (alloc s c).frees = s.frees := rfl
@[simp] theorem alloc_next : (alloc s c).next = s.next + 1 := rfl
@[simp] theorem alloc_optionsAt : (alloc s c).optionsAt = s.optionsAt := rfl
@[simp] theorem alloc_native : (alloc s c).native = update s.native s.next c := rfl
@[simp] theorem freeHeld_objs : (freeHeld s y).objs = s.objs := by unfold freeHeld; split <;> rfl
@[simp] theorem freeHeld_next : (freeHeld s y).next = s.next := by unfold freeHeld; split <;> rfl
@[simp] theorem freeHeld_native : (freeHeld s y).native = s.native := by unfold freeHeld; split <;> rfl
@[simp] theorem freeHeld_frees : (freeHeld s y).frees = s.frees ++ y.ctx.toList := by
  unfold freeHeld; split <;> simp [wolfSSL_CTX_free, *]
@[simp] theorem ctxOf_alloc : ctxOf (alloc s c) = ctxOf s := rfl
@[simp] theorem ctxOf_freeHeld : ctxOf (freeHeld s y) = ctxOf s := by funext o; simp [ctxOf]

theorem ctxOf_place : ctxOf (place s o x) = update (ctxOf s) o (x.bind (·.ctx)) := by
  funext p
  by_cases e : p = o
  · subst e; simp [ctxOf]
  · simp [ctxOf, e]

theorem ne_of_live {s : St} {o p : Nat} {y : SSLContext} (ho : s.objs o = none) (hp : s.objs p = some y) : o ≠ p := by
  intro h
  subst h
  rw [ho] at hp
  cases hp

end Fields

/-! ## The constructor's outcomes -/

def ProtocolVersion.version : ProtocolVersion → Option Version
  | .tlsv1_2 => some .tls1_2
  | .tlsv1_3 => some .tls1_3
  | .other _ => none

def Version.clientMethod : Version → Method
  | .tls1_2 => .wolfTLSv1_2_client_method
  | .tls1_3 => .wolfTLSv1_3_client_method

/-- What `wolfSSL_CTX_set_cipher_list` answers to the constructor. -/
def cipherAnswer (lib : Lib) (o : SSLOptions) : Option (List Str) :=
  lib.setCipherList (cipherArgument o.ciphers)

section Construct

variable {builtin} {lib : Lib} {s : St} {this options pkiEnv : Nat} {v : Version} {l : List Str}

theorem construct_unsupported (builtin : List Str) (lib : Lib) (this pkiEnv : Nat)
    (hv : (s.optionsAt options).minimumSupportedProtocolVersion.version = none) :
    ∃ e, construct builtin lib s this options pkiEnv = (.threw e, s) ∧ e.kind = .runtimeError := by
  unfold construct
  cases hm : (s.optionsAt options).minimumSupportedProtocolVersion with
  | tlsv1_2 => simp [hm, ProtocolVersion.version] at hv
  | tlsv1_3 => simp [hm, ProtocolVersion.version] at hv
  | other code => exact ⟨_, rfl, rfl⟩

theorem construct_null (hv : (s.optionsAt options).minimumSupportedProtocolVersion.version = some v)
    (hn : lib.ctxNew = false) :
    construct builtin lib s this options pkiEnv =
      (raiseSSLError lib "Failed to allocate WolfSSL context", s) := by
  unfold construct
  cases hm : (s.optionsAt options).minimumSupportedProtocolVersion with
  | tlsv1_2 => simp [wolfSSL_CTX_new, hn]
  | tlsv1_3 => simp [wolfSSL_CTX_new, hn]
  | other code => simp [hm, ProtocolVersion.version] at hv

/-- With a handle, the constructor configures it and either throws, the handle in no
    object, or leaves an object with it at `this`. -/
theorem constructOn_eq (m : Method) :
    constructOn lib (wolfSSL_CTX_set_min_proto_version (alloc s (.fresh builtin m)) s.next m.version)
        this options pkiEnv s.next =
      match cipherAnswer lib (s.optionsAt options) with
      | some l => (.ok, place (alloc s ⟨m, m.version, l⟩) this (some ⟨options, pkiEnv, some s.next, some ⟨s.next⟩⟩))
      | none => (raiseSSLError lib "Failed to set cipher list", alloc s (.fresh builtin m)) := by
  -- setting the minimum of a fresh context to its method's version changes nothing
  have hmin : wolfSSL_CTX_set_min_proto_version (alloc s (.fresh builtin m)) s.next m.version =
      alloc s (.fresh builtin m) := by
    simp [wolfSSL_CTX_set_min_proto_version, alloc, NativeCtx.fresh]
  rw [hmin]
  cases hc : cipherAnswer lib (s.optionsAt options) with
  | none =>
    unfold cipherAnswer at hc
    simp [constructOn, wolfSSL_CTX_set_cipher_list, hc]
  | some l =>
    unfold cipherAnswer at hc
    simp [constructOn, wolfSSL_CTX_set_cipher_list, hc, wolfSSL_CTX_GetCertManager, place, alloc, NativeCtx.fresh]

theorem construct_allocated (hv : (s.optionsAt options).minimumSupportedProtocolVersion.version = some v)
    (hn : lib.ctxNew = true) :
    construct builtin lib s this options pkiEnv =
      match cipherAnswer lib (s.optionsAt options) with
      | some l => (.ok, place (alloc s ⟨v.clientMethod, v, l⟩) this
          (some ⟨options, pkiEnv, some s.next, some ⟨s.next⟩⟩))
      | none => (raiseSSLError lib "Failed to set cipher list", alloc s (.fresh builtin v.clientMethod)) := by
  unfold construct
  cases hm : (s.optionsAt options).minimumSupportedProtocolVersion with
  | other code => simp [hm, ProtocolVersion.version] at hv
  | tlsv1_2 =>
    obtain rfl : Version.tls1_2 = v := by simpa [hm, ProtocolVersion.version] using hv
    simp only [wolfSSL_CTX_new, hn, if_true]
    exact constructOn_eq .wolfTLSv1_2_client_method
  | tlsv1_3 =>
    obtain rfl : Version.tls1_3 = v := by simpa [hm, ProtocolVersion.version] using hv
    simp only [wolfSSL_CTX_new, hn, if_true]
    exact constructOn_eq .wolfTLSv1_3_client_method

end Construct

/-! ## The other members' outcomes -/

section Outcomes

variable {builtin} {lib : Lib} {s : St} {this other : Nat} {x y : SSLContext}

theorem copyConstruct_null (hn : lib.ctxNew = false) :
    copyConstruct builtin lib s this y = (.ok, place s this (some ⟨y.options, y.pkiEnv, none, none⟩)) := by
  simp [copyConstruct, wolfSSL_CTX_new, hn, wolfSSL_CTX_GetCertManager]

theorem copyConstruct_new (hn : lib.ctxNew = true) :
    copyConstruct builtin lib s this y =
      (.ok, place (alloc s (.fresh builtin .wolfTLSv1_3_client_method)) this
        (some ⟨y.options, y.pkiEnv, some s.next, some ⟨s.next⟩⟩)) := by
  simp [copyConstruct, wolfSSL_CTX_new, hn, wolfSSL_CTX_GetCertManager]

theorem copyAssign_self : copyAssign builtin lib s this this x = (.ok, s) := by simp [copyAssign]

theorem copyAssign_null (hne : this ≠ other) (hn : lib.ctxNew = false) :
    copyAssign builtin lib s this other x = (.ok, place (freeHeld s x) this (some { x with ctx := none })) := by
  simp [copyAssign, wolfSSL_CTX_new, hne, hn]

theorem copyAssign_new (hne : this ≠ other) (hn : lib.ctxNew = true) :
    copyAssign builtin lib s this other x =
      (.ok, place (alloc (freeHeld s x) (.fresh builtin .wolfTLSv1_3_client_method)) this
        (some { x with ctx := some s.next })) := by
  simp [copyAssign, wolfSSL_CTX_new, hne, hn]

theorem moveAssign_self : moveAssign s this this x y = (.ok, s) := by simp [moveAssign]

theorem moveAssign_ne (hne : this ≠ other) :
    moveAssign s this other x y =
      (.ok, place (place (freeHeld s x) this (some { x with ctx := y.ctx })) other
        (some { y with ctx := none })) := by
  simp [moveAssign, hne]

end Outcomes

/-! ## Which member a step runs -/

section Steps

variable {s : St} {e : Ev} {this other options pkiEnv : Nat} {x y : SSLContext}

theorem step_construct (he : e.op = .construct this options pkiEnv) (ht : s.objs this = none) :
    step builtin s e = construct builtin e.lib s this options pkiEnv := by
  simp only [step, he, ht]

theorem step_copyConstruct (he : e.op = .copyConstruct this other) (ht : s.objs this = none)
    (hy : s.objs other = some y) : step builtin s e = copyConstruct builtin e.lib s this y := by
  simp only [step, he, ht, hy]

theorem step_moveConstruct (he : e.op = .moveConstruct this other) (ht : s.objs this = none)
    (hy : s.objs other = some y) : step builtin s e = moveConstruct s this other y := by
  simp only [step, he, ht, hy]

theorem step_copyAssign (he : e.op = .copyAssign this other) (hx : s.objs this = some x)
    (hy : s.objs other = some y) : step builtin s e = copyAssign builtin e.lib s this other x := by
  simp only [step, he, hx, hy]

theorem step_moveAssign (he : e.op = .moveAssign this other) (hx : s.objs this = some x)
    (hy : s.objs other = some y) : step builtin s e = moveAssign s this other x y := by
  simp only [step, he, hx, hy]

end Steps

end Iggy.Ssl
