/-
  Iggy.Client.Options — the client's options, and the client that is made of them
  (sdk/client.h, client.cc).

  Options hold their credentials in them: building options builds the default ones, copying
  options copies them, and so does moving, since `Credentials` has a destructor and no
  moves. `o.credentials = Credentials(u, p)` builds a temporary, assigns it and destroys
  it. What a moved-from hostname holds is the library's (`left`).

  Over the options stand values, strings in the place of buffers (`perform_value`), and
  under them the credentials' own machine (`run_compiled`): one `Op` is the credentials'
  events `compile` lists.

  Proved: every run answers as the values do, and leaves what they say in the objects; and
  it releases the password buffers that the credentials' run does (`options_over_runs`).
  So a client is refused exactly if the hostname last given is empty, and what was moved
  from keeps its password.
-/

import Iggy.Client.Marks
import Iggy.Net.Protocol

namespace Iggy.Client

open Function (update)
open Iggy.Lib.Residue
open Iggy.Lib.Run (run run_append run_map after answers)
open Iggy.Net (Transport DEFAULT_TCP_PORT)

/-! ## `Options` and `Client` -/

structure Options where
  hostname : Str
  port : UInt16
  transport : Transport
  credentials : Credentials

def Options.new (slack : Str) : Options :=
  ⟨str "localhost", DEFAULT_TCP_PORT, .tcp, ⟨str "iggy", .new (str "iggy") slack⟩⟩

def Options.validate (o : Options) : Except Err Unit :=
  if o.hostname = [] then .error ⟨.invalidArgument, str "Hostname cannot be empty"⟩ else .ok ()

set_option linter.dupNamespace false in
/-- The constructor, which keeps nothing of the options. -/
def Client.new (options : Options) : Except Err Unit := options.validate

inductive Op where
  | construct (this : Nat) (slack : Str)
  | setHostname (this : Nat) (hostname : Str)
  | setPort (this : Nat) (port : UInt16)
  | setTransport (this : Nat) (transport : Transport)
  /-- `o.credentials = Credentials(username, password)`. -/
  | setCredentials (this : Nat) (username password temporary slack : Str)
  | copyConstruct (this other : Nat) (slack : Str)
  | moveConstruct (this other : Nat) (slack left : Str)
  | copyAssign (this other : Nat) (slack : Str)
  | moveAssign (this other : Nat) (slack left : Str)
  | destroy (this : Nat)
  | client (this : Nat)
  deriving DecidableEq, Repr

/-! ## The operations on an object -/

namespace Options

variable (x y : Options)

def copy (slack : Str) : Options :=
  { y with credentials := ⟨y.credentials.username, .new y.credentials.password.content slack⟩ }

/-- `x = y`: the object after it, and the password's buffer released, if any. -/
def assign (slack : Str) : Options × List Buffer :=
  let (password, old) := x.credentials.password.assign y.credentials.password.content slack
  ({ y with credentials := ⟨y.credentials.username, password⟩ }, old)

def setCredentials (username password temporary slack : Str) : Options × List Buffer :=
  let temp : Credentials := ⟨username, .new password temporary⟩
  let (password, old) := x.credentials.password.assign temp.password.content slack
  ({ x with credentials := ⟨temp.username, password⟩ }, old ++ [temp.password.sodium_memzero temp.password.size])

def destroyed : Buffer := x.credentials.password.sodium_memzero x.credentials.password.size

end Options

structure OptionsSt where
  objs : Nat → Option Options
  released : List Buffer

def OptionsSt.init : OptionsSt := ⟨fun _ => none, []⟩

def OptionsSt.put (s : OptionsSt) (this : Nat) (x : Option Options) (old : List Buffer) : OptionsSt :=
  ⟨update s.objs this x, s.released ++ old⟩

def OptionsSt.modify (s : OptionsSt) (this : Nat) (f : Options → Options) : OptionsSt :=
  match s.objs this with
  | some x => s.put this (some (f x)) []
  | none => s

/-- Building where options live, or using some that do not, is no operation. -/
def perform (s : OptionsSt) : Op → Except Err Unit × OptionsSt
  | .construct this slack =>
    match s.objs this with
    | some _ => (.ok (), s)
    | none => (.ok (), s.put this (some (.new slack)) [])
  | .setHostname this hostname => (.ok (), s.modify this fun x => { x with hostname := hostname })
  | .setPort this port => (.ok (), s.modify this fun x => { x with port := port })
  | .setTransport this transport => (.ok (), s.modify this fun x => { x with transport := transport })
  | .setCredentials this username password temporary slack =>
    match s.objs this with
    | some x =>
      let (x', old) := x.setCredentials username password temporary slack
      (.ok (), s.put this (some x') old)
    | none => (.ok (), s)
  | .copyConstruct this other slack =>
    match s.objs this, s.objs other with
    | none, some y => (.ok (), s.put this (some (y.copy slack)) [])
    | _, _ => (.ok (), s)
  | .moveConstruct this other slack left =>
    match s.objs this, s.objs other with
    | none, some y => (.ok (), (s.put this (some (y.copy slack)) []).put other (some { y with hostname := left }) [])
    | _, _ => (.ok (), s)
  | .copyAssign this other slack =>
    match s.objs this, s.objs other with
    | some x, some y =>
      let (x', old) := x.assign y slack
      (.ok (), s.put this (some x') old)
    | _, _ => (.ok (), s)
  | .moveAssign this other slack left =>
    match s.objs this, s.objs other with
    | some x, some y =>
      let (x', old) := x.assign y slack
      let hostname := if this = other then left else y.hostname
      (.ok (), (s.put other (some { y with hostname := left }) []).put this (some { x' with hostname := hostname }) old)
    | _, _ => (.ok (), s)
  | .destroy this =>
    match s.objs this with
    | some x => (.ok (), s.put this none [x.destroyed])
    | none => (.ok (), s)
  | .client this =>
    match s.objs this with
    | some x => (Client.new x, s)
    | none => (.ok (), s)

/-! ## Values -/

structure OptionsValue where
  hostname : Str
  port : UInt16
  transport : Transport
  username : Str
  password : Str
  deriving DecidableEq, Repr

def Options.value (o : Options) : OptionsValue :=
  ⟨o.hostname, o.port, o.transport, o.credentials.username, o.credentials.password.content⟩

def defaultValue : OptionsValue := ⟨str "localhost", DEFAULT_TCP_PORT, .tcp, str "iggy", str "iggy"⟩

/-- What an operation makes of values. -/
def performValue (t : Nat → Option OptionsValue) : Op → Except Err Unit × (Nat → Option OptionsValue)
  | .construct this _ =>
    match t this with
    | some _ => (.ok (), t)
    | none => (.ok (), update t this (some defaultValue))
  | .setHostname this hostname => (.ok (), update t this ((t this).map fun v => { v with hostname := hostname }))
  | .setPort this port => (.ok (), update t this ((t this).map fun v => { v with port := port }))
  | .setTransport this transport => (.ok (), update t this ((t this).map fun v => { v with transport := transport }))
  | .setCredentials this username password _ _ =>
    (.ok (), update t this ((t this).map fun v => { v with username := username, password := password }))
  | .copyConstruct this other _ =>
    match t this, t other with
    | none, some v => (.ok (), update t this (some v))
    | _, _ => (.ok (), t)
  | .moveConstruct this other _ left =>
    match t this, t other with
    | none, some v => (.ok (), update (update t this (some v)) other (some { v with hostname := left }))
    | _, _ => (.ok (), t)
  | .copyAssign this other _ =>
    match t this, t other with
    | some _, some v => (.ok (), update t this (some v))
    | _, _ => (.ok (), t)
  | .moveAssign this other _ left =>
    match t this, t other with
    | some _, some v =>
      let hostname := if this = other then left else v.hostname
      (.ok (), update (update t other (some { v with hostname := left })) this (some { v with hostname := hostname }))
    | _, _ => (.ok (), t)
  | .destroy this => (.ok (), update t this none)
  | .client this =>
    match t this with
    | some v => (if v.hostname = [] then .error ⟨.invalidArgument, str "Hostname cannot be empty"⟩ else .ok (), t)
    | none => (.ok (), t)

/-! ## Options are values -/

theorem content_new (password slack : Str) : (Buffer.new password slack).content = password :=
  take_of_holds (holds_fresh password slack)

theorem content_assign (b : Buffer) (password slack : Str) : (b.assign password slack).1.content = password := by
  unfold Buffer.assign
  split
  · simp [Buffer.content, Buffer.write, put, Function.comp_def]
  · exact content_new password slack

theorem value_copy (y : Options) (slack : Str) : (y.copy slack).value = y.value := by
  simp [Options.value, Options.copy, content_new]

theorem value_assign (x y : Options) (slack : Str) : (x.assign y slack).1.value = y.value := by
  simp [Options.value, Options.assign, content_assign]

theorem value_moveAssign (x y : Options) (slack hostname : Str) :
    ({ (x.assign y slack).1 with hostname := hostname } : Options).value = { y.value with hostname := hostname } := by
  simp [Options.value, Options.assign, content_assign]

theorem value_setCredentials (x : Options) (username password temporary slack : Str) :
    (x.setCredentials username password temporary slack).1.value =
      { x.value with username := username, password := password } := by
  simp [Options.value, Options.setCredentials, content_assign, content_new]

def values (objs : Nat → Option Options) : Nat → Option OptionsValue := Option.map Options.value ∘ objs

theorem values_put (s : OptionsSt) (this : Nat) (x : Option Options) (old : List Buffer) :
    values (s.put this x old).objs = update (values s.objs) this (x.map Options.value) :=
  Function.comp_update _ s.objs this x

theorem values_some {objs : Nat → Option Options} {o : Nat} {x : Options} (h : objs o = some x) :
    values objs o = some x.value := by
  simp [values, h]

theorem values_none {objs : Nat → Option Options} {o : Nat} (h : objs o = none) : values objs o = none := by
  simp [values, h]

theorem update_none {t : Nat → Option OptionsValue} {o : Nat} (h : t o = none) : update t o none = t := by
  rw [← h]
  exact Function.update_eq_self o t

theorem values_modify (s : OptionsSt) (this : Nat) {f : Options → Options} {g : OptionsValue → OptionsValue}
    (h : ∀ x, (f x).value = g x.value) :
    values (s.modify this f).objs = update (values s.objs) this ((values s.objs this).map g) := by
  unfold OptionsSt.modify
  rcases hx : s.objs this with _ | x
  · rw [values_none hx, Option.map_none, update_none (values_none hx)]
  · simp only [values_put, Option.map_some, values_some hx, h]

theorem perform_value (s : OptionsSt) (op : Op) :
    performValue (values s.objs) op = ((perform s op).1, values (perform s op).2.objs) := by
  cases op with
  | construct this slack =>
    rcases hx : s.objs this with _ | x
    · simp only [perform, performValue, hx, values_none hx, values_put, Option.map_some]
      simp only [Options.new, Options.value, content_new, defaultValue]
    · simp only [perform, performValue, hx, values_some hx]
  | setHostname this hostname => exact congrArg (Prod.mk _) (values_modify s this fun _ => rfl).symm
  | setPort this port => exact congrArg (Prod.mk _) (values_modify s this fun _ => rfl).symm
  | setTransport this transport => exact congrArg (Prod.mk _) (values_modify s this fun _ => rfl).symm
  | setCredentials this username password temporary slack =>
    rcases hx : s.objs this with _ | x
    · simp only [perform, performValue, hx, values_none hx, Option.map_none, update_none (values_none hx)]
    · simp only [perform, performValue, hx, values_some hx, values_put, Option.map_some, value_setCredentials]
  | copyConstruct this other slack =>
    rcases hx : s.objs this with _ | x
    · rcases hy : s.objs other with _ | y
      · simp only [perform, performValue, hx, hy, values_none hx, values_none hy]
      · simp only [perform, performValue, hx, hy, values_none hx, values_some hy, values_put, Option.map_some,
          value_copy]
    · simp only [perform, performValue, hx, values_some hx]
  | moveConstruct this other slack left =>
    rcases hx : s.objs this with _ | x
    · rcases hy : s.objs other with _ | y
      · simp only [perform, performValue, hx, hy, values_none hx, values_none hy]
      · simp only [perform, performValue, hx, hy, values_none hx, values_some hy, values_put, Option.map_some,
          value_copy]
        rfl
    · simp only [perform, performValue, hx, values_some hx]
  | copyAssign this other slack =>
    rcases hx : s.objs this with _ | x
    · simp only [perform, performValue, hx, values_none hx]
    · rcases hy : s.objs other with _ | y
      · simp only [perform, performValue, hx, hy, values_some hx, values_none hy]
      · simp only [perform, performValue, hx, hy, values_some hx, values_some hy, values_put, Option.map_some,
          value_assign]
  | moveAssign this other slack left =>
    rcases hx : s.objs this with _ | x
    · simp only [perform, performValue, hx, values_none hx]
    · rcases hy : s.objs other with _ | y
      · simp only [perform, performValue, hx, hy, values_some hx, values_none hy]
      · simp only [perform, performValue, hx, hy, values_some hx, values_some hy, values_put, Option.map_some,
          value_moveAssign]
        rfl
  | destroy this =>
    rcases hx : s.objs this with _ | x
    · simp only [perform, performValue, hx, update_none (values_none hx)]
    · simp only [perform, performValue, hx, values_put, Option.map_none]
  | client this =>
    rcases hx : s.objs this with _ | x
    · simp only [perform, performValue, hx, values_none hx]
    · simp only [perform, performValue, hx, values_some hx]
      rfl

/-! ## Down to the credentials -/

/-- The options at `n` hold the credentials at `n + 1`; the temporary lives at 0. -/
def credentialsOf (objs : Nat → Option Options) : Nat → Option Credentials
  | 0 => none
  | n + 1 => (objs n).map Options.credentials

def lower (s : OptionsSt) : St := ⟨credentialsOf s.objs, s.released⟩

def compile (s : OptionsSt) : Op → List Ev
  | .construct this slack => [.construct (this + 1) (str "iggy") (str "iggy") slack]
  | .setCredentials this username password temporary slack =>
    if (s.objs this).isSome then
      [.construct 0 username password temporary, .copyAssign (this + 1) 0 slack, .destroy 0]
    else []
  | .copyConstruct this other slack => [.copyConstruct (this + 1) (other + 1) slack]
  | .moveConstruct this other slack _ => [.copyConstruct (this + 1) (other + 1) slack]
  | .copyAssign this other slack => [.copyAssign (this + 1) (other + 1) slack]
  | .moveAssign this other slack _ => [.copyAssign (this + 1) (other + 1) slack]
  | .destroy this => [.destroy (this + 1)]
  | _ => []

def compiled : OptionsSt → List Op → List Ev
  | _, [] => []
  | s, op :: ops => compile s op ++ compiled (after perform s op) ops

theorem credentialsOf_some {objs : Nat → Option Options} {n : Nat} {x : Options} (h : objs n = some x) :
    credentialsOf objs (n + 1) = some x.credentials := by
  simp [credentialsOf, h]

theorem credentialsOf_none {objs : Nat → Option Options} {n : Nat} (h : objs n = none) :
    credentialsOf objs (n + 1) = none := by
  simp [credentialsOf, h]

theorem lower_put (s : OptionsSt) (this : Nat) (x : Option Options) (old : List Buffer) :
    lower (s.put this x old) =
      ⟨update (lower s).objs (this + 1) (x.map Options.credentials), (lower s).released ++ old⟩ := by
  unfold lower OptionsSt.put
  congr 1
  funext n
  cases n with
  | zero => rfl
  | succ n =>
    by_cases hn : n = this
    · subst hn
      simp [credentialsOf]
    · simp [credentialsOf, hn]

/-- The rest of the options is not the credentials' concern. -/
theorem lower_put_same {s : OptionsSt} {this : Nat} {x y : Options} (hy : s.objs this = some y)
    (hx : x.credentials = y.credentials) : lower (s.put this (some x) []) = lower s := by
  have hsame : credentialsOf s.objs (this + 1) = some x.credentials := by rw [credentialsOf_some hy, hx]
  rw [lower_put, Option.map_some, List.append_nil, ← hsame]
  show (⟨update (credentialsOf s.objs) (this + 1) _, s.released⟩ : St) = lower s
  rw [Function.update_eq_self]
  rfl

theorem lower_modify (s : OptionsSt) (this : Nat) {f : Options → Options}
    (h : ∀ x, (f x).credentials = x.credentials) : lower (s.modify this f) = lower s := by
  unfold OptionsSt.modify
  rcases hx : s.objs this with _ | x
  · rfl
  · exact lower_put_same hx (h x)

/-- `c = Credentials(username, password)`, the temporary at 0. -/
theorem run_temporary {s : St} {n : Nat} {x : Credentials} (h0 : s.objs 0 = none) (hx : s.objs (n + 1) = some x)
    (username password temporary slack : Str) :
    let y : Credentials := ⟨username, .new password temporary⟩
    let assigned := x.password.assign y.password.content slack
    run step s [.construct 0 username password temporary, .copyAssign (n + 1) 0 slack, .destroy 0] =
      ⟨update s.objs (n + 1) (some ⟨username, assigned.1⟩),
        s.released ++ (assigned.2 ++ [y.password.sodium_memzero y.password.size])⟩ := by
  intro y assigned
  have hne : n + 1 ≠ 0 := Nat.succ_ne_zero n
  have hobjs : ∀ z : Option Credentials,
      update (update (update s.objs 0 (some y)) (n + 1) z) 0 none = update s.objs (n + 1) z := by
    intro z
    rw [Function.update_comm hne.symm, Function.update_idem]
    have hz : update s.objs (n + 1) z 0 = none := (Function.update_of_ne hne.symm _ _).trans h0
    rw [← hz, Function.update_eq_self]
  have hfirst : step s (.construct 0 username password temporary) = ⟨update s.objs 0 (some y), s.released⟩ := by
    simp only [step, act, h0, List.append_nil]
    rfl
  have hlive : update s.objs 0 (some y) (n + 1) = some x := (Function.update_of_ne hne _ _).trans hx
  have hsecond : step ⟨update s.objs 0 (some y), s.released⟩ (.copyAssign (n + 1) 0 slack) =
      ⟨update (update s.objs 0 (some y)) (n + 1) (some ⟨username, assigned.1⟩), s.released ++ assigned.2⟩ := by
    simp only [step, act, hlive, Function.update_self]
    rfl
  have htemp : update (update s.objs 0 (some y)) (n + 1) (some ⟨username, assigned.1⟩) 0 = some y := by
    rw [Function.update_of_ne hne.symm, Function.update_self]
  rw [run, run, run, run, hfirst, hsecond]
  simp only [step, act, htemp, hobjs, List.append_assoc]

theorem run_compile (s : OptionsSt) (op : Op) : run step (lower s) (compile s op) = lower (perform s op).2 := by
  have hnone : ∀ {n}, s.objs n = none → (lower s).objs (n + 1) = none := credentialsOf_none
  have hsome : ∀ {n x}, s.objs n = some x → (lower s).objs (n + 1) = some x.credentials := credentialsOf_some
  cases op with
  | construct this slack =>
    rcases hx : s.objs this with _ | x
    · simp only [compile, run, step, act, perform, hx, hnone hx, lower_put]
      rfl
    · simp only [compile, run, step, act, perform, hx, hsome hx, List.append_nil]
  | setHostname this hostname =>
    show lower s = lower (s.modify this _)
    refine (lower_modify s this ?_).symm
    exact fun _ => rfl
  | setPort this port =>
    show lower s = lower (s.modify this _)
    refine (lower_modify s this ?_).symm
    exact fun _ => rfl
  | setTransport this transport =>
    show lower s = lower (s.modify this _)
    refine (lower_modify s this ?_).symm
    exact fun _ => rfl
  | setCredentials this username password temporary slack =>
    rcases hx : s.objs this with _ | x
    · simp only [compile, perform, hx, Option.isSome_none]
      rfl
    · have htemp : (lower s).objs 0 = none := rfl
      have hlive := hsome hx
      have hrun := run_temporary htemp hlive username password temporary slack
      simp only [compile, perform, hx, Option.isSome_some, if_true, hrun, lower_put]
      rfl
  | copyConstruct this other slack =>
    rcases hx : s.objs this with _ | x
    · rcases hy : s.objs other with _ | y
      · simp only [compile, run, step, act, perform, hx, hy, hnone hx, hnone hy, List.append_nil]
      · simp only [compile, run, step, act, perform, hx, hy, hnone hx, hsome hy, lower_put]
        rfl
    · simp only [compile, run, step, act, perform, hx, hsome hx, List.append_nil]
  | moveConstruct this other slack left =>
    rcases hx : s.objs this with _ | x
    · rcases hy : s.objs other with _ | y
      · simp only [compile, run, step, act, perform, hx, hy, hnone hx, hnone hy, List.append_nil]
      · have hne : other ≠ this := by
          intro h
          rw [h, hx] at hy
          cases hy
        have hput : (s.put this (some (y.copy slack)) []).objs other = some y :=
          (Function.update_of_ne hne _ _).trans hy
        have hlower : lower ((s.put this (some (y.copy slack)) []).put other (some { y with hostname := left }) []) =
            lower (s.put this (some (y.copy slack)) []) := lower_put_same hput rfl
        simp only [compile, run, step, act, perform, hx, hy, hnone hx, hsome hy, hlower, lower_put]
        rfl
    · simp only [compile, run, step, act, perform, hx, hsome hx, List.append_nil]
  | copyAssign this other slack =>
    rcases hx : s.objs this with _ | x
    · simp only [compile, run, step, act, perform, hx, hnone hx, List.append_nil]
    · rcases hy : s.objs other with _ | y
      · simp only [compile, run, step, act, perform, hx, hy, hsome hx, hnone hy, List.append_nil]
      · simp only [compile, run, step, act, perform, hx, hy, hsome hx, hsome hy, lower_put]
        rfl
  | moveAssign this other slack left =>
    rcases hx : s.objs this with _ | x
    · simp only [compile, run, step, act, perform, hx, hnone hx, List.append_nil]
    · rcases hy : s.objs other with _ | y
      · simp only [compile, run, step, act, perform, hx, hy, hsome hx, hnone hy, List.append_nil]
      · have hlower : lower (s.put other (some { y with hostname := left }) []) = lower s := lower_put_same hy rfl
        simp only [compile, run, step, act, perform, hx, hy, hsome hx, hsome hy]
        rw [lower_put, hlower]
        rfl
  | destroy this =>
    rcases hx : s.objs this with _ | x
    · simp only [compile, run, step, act, perform, hx, hnone hx, List.append_nil]
    · simp only [compile, run, step, act, perform, hx, hsome hx, lower_put]
      rfl
  | client this =>
    rcases hx : s.objs this with _ | x
    · simp only [compile, run, perform, hx]
    · simp only [compile, run, perform, hx]

theorem run_compiled (s : OptionsSt) (ops : List Op) :
    run step (lower s) (compiled s ops) = lower (run (after perform) s ops) := by
  induction ops generalizing s with
  | nil => rfl
  | cons op ops ih =>
    rw [compiled, run_append, run_compile]
    exact ih (after perform s op)

theorem options_over_runs (ops : List Op) :
    let s := run (after perform) .init ops
    let t : Nat → Option OptionsValue := fun _ => none
    answers perform .init ops = answers performValue t ops ∧ values s.objs = run (after performValue) t ops ∧
      s.released = (run step init (compiled .init ops)).released := by
  intro s t
  have hstep : ∀ s op, True → performValue (values s.objs) op = ((perform s op).1, values (perform s op).2.objs) :=
    fun s op _ => perform_value s op
  obtain ⟨hans, hrun⟩ := run_map (f := fun s : OptionsSt => values s.objs) (fun _ _ _ => trivial) hstep trivial ops
  have hlower : lower .init = init := by
    unfold lower init
    congr 1
    funext n
    cases n <;> rfl
  refine ⟨hans.symm, hrun.symm, ?_⟩
  have hcompiled := run_compiled .init ops
  rw [hlower] at hcompiled
  rw [hcompiled]
  rfl

/-- A password longer than the default one's buffer: the default one is released as it is. -/
example : (run (after perform) .init [.construct 0 [], .setCredentials 0 (str "root") (str "correct horse") [] []]).released.map
    Buffer.content = [str "iggy", List.replicate 13 0] := by decide

end Iggy.Client
