/-
  Iggy.Ssl.Calls — the calls the members of `SSLContext` make into wolfSSL, in order.

  `calls` lists them for each member as the source makes them, `sslInitDone` the flag of its
  `std::call_once`; done to the library's part of the state they are what the member does
  to it (`calls_perform`). A method is made for the `wolfSSL_CTX_new` it is passed to, so
  the two are one call here.

  wolfSSL's rules (`Allowed`): `wolfSSL_Init` comes first and once, and a call that is given
  a handle is given one that was allocated and is not freed.

  - `wolfssl_rules_kept`: the calls of every run keep the rules, and done by themselves
    they leave the library as the run does.
  - `handles_are_fixed`: what a handle is configured to do never changes once the member
    that allocated it is done; it is a client's, and negotiates exactly one version.
-/

import Iggy.Ssl.Ownership

namespace Iggy.Ssl

open Function (update)
open Iggy.Lib.Run (run run_inv run_append Steps steps_append)

/-! ## The calls -/

/-- A call, with what it was given and what it answered. -/
inductive Call where
  | init
  | ctxNew (m : Method) (answer : Option Nat)
  | setMinProtoVersion (h : Nat) (v : Version)
  | getCertManager (ctx : Option Nat)
  | setCipherList (h : Nat) (list : Str) (answer : Option (List Str))
  | errorString
  | ctxFree (h : Nat)
  deriving DecidableEq, Repr

/-- What `wolfSSL_CTX_new` answers. -/
def newHandle (lib : Lib) (s : St) : Option Nat := if lib.ctxNew then some s.next else none

/-- The constructor, once it has chosen a method and a minimum version. -/
def constructCallsWith (lib : Lib) (s : St) (options : Nat) (m : Method) (v : Version) : List Call :=
  match newHandle lib s with
  | none => [.ctxNew m none, .errorString]
  | some h =>
    let list := cipherArgument (s.optionsAt options).ciphers
    [.ctxNew m (some h), .setMinProtoVersion h v, .getCertManager (some h),
      .setCipherList h list (lib.setCipherList list)] ++
      if (lib.setCipherList list).isNone then [.errorString] else []

def constructCalls (lib : Lib) (s : St) (options : Nat) : List Call :=
  match (s.optionsAt options).minimumSupportedProtocolVersion with
  | .tlsv1_2 => constructCallsWith lib s options .wolfTLSv1_2_client_method .tls1_2
  | .tlsv1_3 => constructCallsWith lib s options .wolfTLSv1_3_client_method .tls1_3
  | .other _ => []

/-- `std::call_once(sslInitDone, []() { wolfSSL_Init(); })`. -/
def callOnce (sslInitDone : Bool) : List Call := if sslInitDone then [] else [.init]

/-- `if (this->ctx) wolfSSL_CTX_free(this->ctx)`. -/
def freeCalls (x : SSLContext) : List Call :=
  match x.ctx with
  | some h => [.ctxFree h]
  | none => []

def calls (sslInitDone : Bool) (s : St) (e : Ev) : List Call :=
  match e.op with
  | .construct this options _ =>
    match s.objs this with
    | none => callOnce sslInitDone ++ constructCalls e.lib s options
    | some _ => []
  | .copyConstruct this other =>
    match s.objs this, s.objs other with
    | none, some _ => [.ctxNew .wolfTLSv1_3_client_method (newHandle e.lib s), .getCertManager (newHandle e.lib s)]
    | _, _ => []
  | .moveConstruct _ _ => []
  | .copyAssign this other =>
    match s.objs this, s.objs other with
    | some x, some _ =>
      if this ≠ other then freeCalls x ++ [.ctxNew .wolfTLSv1_3_client_method (newHandle e.lib s)] else []
    | _, _ => []
  | .moveAssign this other =>
    match s.objs this, s.objs other with
    | some x, some _ => if this ≠ other then freeCalls x else []
    | _, _ => []
  | .destroy this =>
    match s.objs this with
    | some x => freeCalls x
    | none => []
  | .setOption _ _ => []

/-- The flag after an operation: a constructor that is entered sets it. -/
def initAfter (sslInitDone : Bool) (s : St) (e : Ev) : Bool :=
  match e.op with
  | .construct this _ _ => sslInitDone || (s.objs this).isNone
  | _ => sslInitDone

/-- The calls of a run. -/
def trace (builtin : List Str) : Bool → St → List Ev → List Call
  | _, _, [] => []
  | sslInitDone, s, e :: es =>
    calls sslInitDone s e ++ trace builtin (initAfter sslInitDone s e) (next builtin s e) es

/-! ## What the calls do -/

/-- A call's effect on the library's part of the state. -/
def perform (builtin : List Str) (s : St) : Call → St
  | .ctxNew m (some _) => alloc s (.fresh builtin m)
  | .setMinProtoVersion h v => wolfSSL_CTX_set_min_proto_version s h v
  | .setCipherList h _ (some l) => { s with native := update s.native h { s.native h with cipherList := l } }
  | .ctxFree h => wolfSSL_CTX_free s h
  | _ => s

/-- The library's part of the state: the handles given out, their configurations, and the
    handles freed. -/
def library (s : St) : Nat × (Nat → NativeCtx) × List Nat := (s.next, s.native, s.frees)

variable {builtin : List Str} {lib : Lib} {s : St} {e : Ev} {this other options pkiEnv : Nat} {x : SSLContext}

theorem perform_freeCalls (s : St) (x : SSLContext) : run (perform builtin) s (freeCalls x) = freeHeld s x := by
  unfold freeCalls freeHeld
  cases x.ctx <;> rfl

theorem perform_callOnce (s : St) (b : Bool) : run (perform builtin) s (callOnce b) = s := by
  cases b <;> rfl

theorem perform_constructCalls :
    library (run (perform builtin) s (constructCalls lib s options)) =
      library (construct builtin lib s this options pkiEnv).2 := by
  unfold constructCalls construct
  cases (s.optionsAt options).minimumSupportedProtocolVersion with
  | other code => rfl
  | tlsv1_2 | tlsv1_3 =>
    simp only [constructCallsWith, newHandle, wolfSSL_CTX_new]
    cases lib.ctxNew with
    | false => rfl
    | true =>
      cases hc : lib.setCipherList (cipherArgument (s.optionsAt options).ciphers) with
      | none => simp [constructOn, wolfSSL_CTX_set_cipher_list, wolfSSL_CTX_set_min_proto_version, hc, run, perform]
      | some l =>
        simp [constructOn, wolfSSL_CTX_set_cipher_list, wolfSSL_CTX_set_min_proto_version, hc, run, perform, library]

theorem calls_perform (sslInitDone : Bool) (s : St) (e : Ev) :
    library (run (perform builtin) s (calls sslInitDone s e)) = library (next builtin s e) := by
  unfold calls next step
  cases e.op with
  | construct this options pkiEnv =>
    rcases hx : s.objs this with _ | x <;> simp only [hx]
    · rw [run_append, perform_callOnce]
      exact perform_constructCalls
    · rfl
  | copyConstruct this other =>
    rcases hx : s.objs this with _ | x <;> rcases hy : s.objs other with _ | y <;> simp only [hx, hy] <;> try rfl
    unfold newHandle
    cases hn : e.lib.ctxNew
    · rw [copyConstruct_null hn]; rfl
    · rw [copyConstruct_new hn]; rfl
  | moveConstruct this other =>
    rcases hx : s.objs this with _ | x <;> rcases hy : s.objs other with _ | y <;> simp only [hx, hy] <;> rfl
  | copyAssign this other =>
    rcases hx : s.objs this with _ | x <;> rcases hy : s.objs other with _ | y <;> simp only [hx, hy] <;> try rfl
    by_cases hne : this = other
    · subst hne
      rw [copyAssign_self, if_neg (fun h => h rfl)]
      rfl
    · rw [if_pos hne, run_append, perform_freeCalls]
      unfold newHandle
      cases hn : e.lib.ctxNew
      · rw [copyAssign_null hne hn]; rfl
      · rw [copyAssign_new hne hn]
        simp [library, run, perform]
  | moveAssign this other =>
    rcases hx : s.objs this with _ | x <;> rcases hy : s.objs other with _ | y <;> simp only [hx, hy] <;> try rfl
    by_cases hne : this = other
    · subst hne
      rw [moveAssign_self, if_neg (fun h => h rfl)]
      rfl
    · rw [if_pos hne, perform_freeCalls, moveAssign_ne hne]
      rfl
  | destroy this =>
    rcases hx : s.objs this with _ | x <;> simp only [hx]
    · rfl
    · rw [perform_freeCalls]
      rfl
  | setOption options c => rfl

/-- A call sees no more of the state than the library's part. -/
theorem library_perform {s s' : St} (h : library s' = library s) (c : Call) :
    library (perform builtin s' c) = library (perform builtin s c) := by
  obtain ⟨hnext, hnative, hfrees⟩ : s'.next = s.next ∧ s'.native = s.native ∧ s'.frees = s.frees := by
    simpa only [library, Prod.mk.injEq] using h
  cases c with
  | init => exact h
  | errorString => exact h
  | getCertManager ctx => exact h
  | ctxNew m answer =>
    cases answer with
    | none => exact h
    | some k => simp [library, perform, hnext, hnative, hfrees]
  | setMinProtoVersion k v => simp [library, perform, wolfSSL_CTX_set_min_proto_version, hnext, hnative, hfrees]
  | setCipherList k list answer =>
    cases answer with
    | none => exact h
    | some l => simp [library, perform, hnext, hnative, hfrees]
  | ctxFree k => simp [library, perform, wolfSSL_CTX_free, hnext, hnative, hfrees]

theorem library_run {s s' : St} (h : library s' = library s) (cs : List Call) :
    library (run (perform builtin) s' cs) = library (run (perform builtin) s cs) := by
  induction cs generalizing s s' with
  | nil => exact h
  | cons c cs ih => exact ih (library_perform h c)

theorem trace_perform {s s' : St} (h : library s' = library s) (sslInitDone : Bool) (es : List Ev) :
    library (run (perform builtin) s' (trace builtin sslInitDone s es)) = library (run (next builtin) s es) := by
  induction es generalizing s s' sslInitDone with
  | nil => exact h
  | cons e es ih =>
    rw [trace, run_append]
    exact ih ((library_run h _).trans (calls_perform sslInitDone s e)) _

/-! ## wolfSSL's rules -/

/-- What the calls so far make of the library. -/
structure Api where
  initialised : Bool
  given : Nat
  freed : List Nat
  deriving DecidableEq, Repr

/-- The handles a call is given. -/
def Call.handles : Call → List Nat
  | .setMinProtoVersion h _ => [h]
  | .getCertManager ctx => ctx.toList
  | .setCipherList h _ _ => [h]
  | .ctxFree h => [h]
  | _ => []

namespace Api

def start : Api := ⟨false, 0, []⟩

def Allowed (a : Api) (c : Call) : Prop :=
  match c with
  | .init => a.initialised = false
  | c => a.initialised = true ∧ ∀ h ∈ c.handles, h < a.given ∧ h ∉ a.freed

def after (a : Api) : Call → Api
  | .init => { a with initialised := true }
  | .ctxNew _ (some _) => { a with given := a.given + 1 }
  | .ctxFree h => { a with freed := a.freed ++ [h] }
  | _ => a

end Api

/-- The library as a state of the objects has it. -/
def api (sslInitDone : Bool) (s : St) : Api := ⟨sslInitDone, s.next, s.frees⟩

/-- Calls that keep the rules from `a` and leave the library as `b`. -/
def Keep (a : Api) (cs : List Call) (b : Api) : Prop := Steps Api.after Api.Allowed a cs ∧ run Api.after a cs = b

theorem Keep.append {a b c : Api} {cs ds : List Call} (h : Keep a cs b) (h' : Keep b ds c) : Keep a (cs ++ ds) c := by
  obtain ⟨hs, hr⟩ := h
  unfold Keep
  rw [steps_append, run_append, hr]
  exact ⟨⟨hs, h'.1⟩, h'.2⟩

theorem keep_nil (a : Api) : Keep a [] a := ⟨trivial, rfl⟩

theorem keep_callOnce (b : Bool) (s : St) : Keep (api b s) (callOnce b) (api true s) := by
  cases b with
  | true => exact keep_nil _
  | false => exact ⟨⟨rfl, trivial⟩, rfl⟩

theorem keep_freeCalls (hr : Ruled s) (hx : s.objs this = some x) :
    Keep (api true s) (freeCalls x) (api true (freeHeld s x)) := by
  unfold freeCalls freeHeld
  cases hc : x.ctx with
  | none => exact keep_nil _
  | some h =>
    have hlive := hr.uniquelyOwned.alive this h (by rw [ctxOf_some hx, hc])
    refine ⟨⟨⟨rfl, fun k hk => ?_⟩, trivial⟩, rfl⟩
    rw [List.mem_singleton.mp hk]
    exact hlive

/-- A handle fresh from `wolfSSL_CTX_new` may be given to every call that follows. -/
theorem fresh_allowed (hr : Ruled s) : ∀ h ∈ [s.next], h < s.next + 1 ∧ h ∉ s.frees := by
  intro h hh
  rw [List.mem_singleton.mp hh]
  exact ⟨Nat.lt_succ_self _, fun hf => absurd (hr.uniquelyOwned.freedGiven _ hf) (by omega)⟩

theorem keep_constructCallsWith (hr : Ruled s) (m : Method) (v : Version) :
    Keep (api true s) (constructCallsWith lib s options m v) ⟨true, s.next + if lib.ctxNew then 1 else 0, s.frees⟩ := by
  unfold constructCallsWith newHandle
  cases lib.ctxNew with
  | false => exact ⟨⟨⟨rfl, nofun⟩, ⟨rfl, nofun⟩, trivial⟩, rfl⟩
  | true =>
    have hone := fresh_allowed hr
    apply Keep.append (b := ⟨true, s.next + 1, s.frees⟩)
    · exact ⟨⟨⟨rfl, nofun⟩, ⟨rfl, hone⟩, ⟨rfl, hone⟩, ⟨rfl, hone⟩, trivial⟩, rfl⟩
    · cases (lib.setCipherList (cipherArgument (s.optionsAt options).ciphers)).isNone with
      | true => exact ⟨⟨⟨rfl, nofun⟩, trivial⟩, rfl⟩
      | false => exact keep_nil _

theorem construct_next (hv : (s.optionsAt options).minimumSupportedProtocolVersion.version.isSome) :
    (construct builtin lib s this options pkiEnv).2.next = s.next + if lib.ctxNew then 1 else 0 := by
  obtain ⟨v, hv⟩ := Option.isSome_iff_exists.mp hv
  cases hn : lib.ctxNew with
  | false => rw [construct_null hv hn]; rfl
  | true =>
    rw [construct_allocated hv hn]
    split <;> rfl

theorem keep_constructCalls (hr : Ruled s) (this pkiEnv : Nat) :
    Keep (api true s) (constructCalls lib s options) (api true (construct builtin lib s this options pkiEnv).2) := by
  unfold api
  rw [construct_frees]
  unfold constructCalls
  cases hm : (s.optionsAt options).minimumSupportedProtocolVersion with
  | tlsv1_2 =>
    rw [construct_next (by rw [hm]; rfl)]
    exact keep_constructCallsWith hr _ _
  | tlsv1_3 =>
    rw [construct_next (by rw [hm]; rfl)]
    exact keep_constructCallsWith hr _ _
  | other code =>
    have hv : (s.optionsAt options).minimumSupportedProtocolVersion.version = none := by rw [hm]; rfl
    obtain ⟨err, herr, -⟩ := construct_unsupported builtin lib this pkiEnv hv
    rw [herr]
    exact keep_nil _

/-- A live object means some constructor was entered. -/
def Entered (sslInitDone : Bool) (s : St) : Prop := ∀ o x, s.objs o = some x → sslInitDone = true

theorem keep_step {b : Bool} (hr : Ruled s) (hb : Entered b s) (e : Ev) :
    Keep (api b s) (calls b s e) (api (initAfter b s e) (next builtin s e)) := by
  unfold calls initAfter next step
  cases e.op with
  | construct this options pkiEnv =>
    rcases hx : s.objs this with _ | x <;> simp only [hx]
    · rw [Option.isNone_none, Bool.or_true]
      exact (keep_callOnce b s).append (keep_constructCalls hr this pkiEnv)
    · rw [Option.isNone_some, Bool.or_false]
      exact keep_nil _
  | copyConstruct this other =>
    rcases hx : s.objs this with _ | x <;> rcases hy : s.objs other with _ | y <;> simp only [hx, hy] <;>
      try exact keep_nil _
    rw [hb other y hy]
    unfold newHandle
    cases hn : e.lib.ctxNew
    · rw [copyConstruct_null hn]
      exact ⟨⟨⟨rfl, nofun⟩, ⟨rfl, nofun⟩, trivial⟩, rfl⟩
    · rw [copyConstruct_new hn]
      exact ⟨⟨⟨rfl, nofun⟩, ⟨rfl, fresh_allowed hr⟩, trivial⟩, rfl⟩
  | moveConstruct this other =>
    rcases hx : s.objs this with _ | x <;> rcases hy : s.objs other with _ | y <;> simp only [hx, hy] <;>
      exact keep_nil _
  | copyAssign this other =>
    rcases hx : s.objs this with _ | x <;> rcases hy : s.objs other with _ | y <;> simp only [hx, hy] <;>
      try exact keep_nil _
    by_cases hne : this = other
    · subst hne
      rw [copyAssign_self, if_neg (fun h => h rfl)]
      exact keep_nil _
    · rw [if_pos hne, hb this x hx]
      apply (keep_freeCalls hr hx).append
      unfold newHandle
      cases hn : e.lib.ctxNew
      · rw [copyAssign_null hne hn]
        exact ⟨⟨⟨rfl, nofun⟩, trivial⟩, rfl⟩
      · rw [copyAssign_new hne hn]
        exact ⟨⟨⟨rfl, nofun⟩, trivial⟩, rfl⟩
  | moveAssign this other =>
    rcases hx : s.objs this with _ | x <;> rcases hy : s.objs other with _ | y <;> simp only [hx, hy] <;>
      try exact keep_nil _
    by_cases hne : this = other
    · subst hne
      rw [moveAssign_self, if_neg (fun h => h rfl)]
      exact keep_nil _
    · rw [if_pos hne, hb this x hx, moveAssign_ne hne]
      exact keep_freeCalls hr hx
  | destroy this =>
    rcases hx : s.objs this with _ | x <;> simp only [hx]
    · exact keep_nil _
    · rw [hb this x hx]
      exact keep_freeCalls hr hx
  | setOption options c => exact keep_nil _

theorem entered_step {b : Bool} (hb : Entered b s) (e : Ev) : Entered (initAfter b s e) (next builtin s e) := by
  cases b with
  | true =>
    intro _ _ _
    unfold initAfter
    cases e.op <;> rfl
  | false =>
    -- there is no object, so only a constructor does anything
    have hnone : ∀ o, s.objs o = none := by
      intro o
      cases ho : s.objs o with
      | none => rfl
      | some x => exact absurd (hb o x ho) Bool.false_ne_true
    intro o x hx
    unfold initAfter
    unfold next step at hx
    cases ho : e.op with
    | construct this options pkiEnv =>
      show (false || (s.objs this).isNone) = true
      rw [hnone this]
      rfl
    | copyConstruct this other => simp [ho, hnone] at hx
    | moveConstruct this other => simp [ho, hnone] at hx
    | copyAssign this other => simp [ho, hnone] at hx
    | moveAssign this other => simp [ho, hnone] at hx
    | destroy this => simp [ho, hnone] at hx
    | setOption options c => simp [ho, hnone] at hx

theorem keep_run {b : Bool} (hr : Ruled s) (hb : Entered b s) (es : List Ev) :
    ∃ b', Keep (api b s) (trace builtin b s es) (api b' (run (next builtin) s es)) := by
  induction es generalizing b s with
  | nil => exact ⟨b, keep_nil _⟩
  | cons e es ih =>
    obtain ⟨b', hrest⟩ := ih (ruled_step builtin s e hr) (entered_step hb e)
    exact ⟨b', (keep_step hr hb e).append hrest⟩

/-- The calls of every run keep wolfSSL's rules, and done by themselves they allocate,
    configure and free what the run does. -/
theorem wolfssl_rules_kept (builtin : List Str) (optionsAt : Nat → SSLOptions) (es : List Ev) :
    (∃ b, Keep Api.start (trace builtin false (init optionsAt) es) (api b (run (next builtin) (init optionsAt) es))) ∧
      library (run (perform builtin) (init optionsAt) (trace builtin false (init optionsAt) es)) =
        library (run (next builtin) (init optionsAt) es) :=
  ⟨keep_run (ruled_init optionsAt) (fun _ _ h => by cases h) es, trace_perform rfl false es⟩

/-! ## What a handle is configured to do -/

/-- A step configures the handle it allocates, if any, and no other. -/
theorem native_step (builtin : List Str) (s : St) (e : Ev) :
    ((next builtin s e).next = s.next ∧ (next builtin s e).native = s.native) ∨
      ∃ c : NativeCtx, c.minProtoVersion = c.method.version ∧ (next builtin s e).next = s.next + 1 ∧
        (next builtin s e).native = update s.native s.next c := by
  unfold next step
  cases e.op with
  | construct this options pkiEnv =>
    rcases hx : s.objs this with _ | x <;> simp only [hx]
    · cases hv : (s.optionsAt options).minimumSupportedProtocolVersion.version with
      | none =>
        obtain ⟨err, herr, -⟩ := construct_unsupported builtin e.lib this pkiEnv hv
        rw [herr]
        exact Or.inl ⟨rfl, rfl⟩
      | some v =>
        have hfixed : v = v.clientMethod.version := by cases v <;> rfl
        cases hn : e.lib.ctxNew with
        | false =>
          rw [construct_null hv hn]
          exact Or.inl ⟨rfl, rfl⟩
        | true =>
          rw [construct_allocated hv hn]
          right
          cases cipherAnswer e.lib (s.optionsAt options) with
          | none => exact ⟨_, rfl, rfl, rfl⟩
          | some l => exact ⟨_, hfixed, rfl, rfl⟩
    · exact Or.inl ⟨trivial, trivial⟩
  | copyConstruct this other =>
    rcases hx : s.objs this with _ | x <;> rcases hy : s.objs other with _ | y <;> simp only [hx, hy]
    case none.some =>
      cases hn : e.lib.ctxNew
      · rw [copyConstruct_null hn]
        exact Or.inl ⟨rfl, rfl⟩
      · rw [copyConstruct_new hn]
        exact Or.inr ⟨_, rfl, rfl, rfl⟩
    all_goals exact Or.inl ⟨trivial, trivial⟩
  | moveConstruct this other =>
    rcases hx : s.objs this with _ | x <;> rcases hy : s.objs other with _ | y <;> simp only [hx, hy]
    case none.some => exact Or.inl ⟨rfl, rfl⟩
    all_goals exact Or.inl ⟨trivial, trivial⟩
  | copyAssign this other =>
    rcases hx : s.objs this with _ | x <;> rcases hy : s.objs other with _ | y <;> simp only [hx, hy]
    case some.some =>
      by_cases hne : this = other
      · subst hne
        rw [copyAssign_self]
        exact Or.inl ⟨rfl, rfl⟩
      · cases hn : e.lib.ctxNew
        · rw [copyAssign_null hne hn]
          exact Or.inl ⟨by simp, by simp⟩
        · rw [copyAssign_new hne hn]
          exact Or.inr ⟨.fresh builtin .wolfTLSv1_3_client_method, rfl, by simp, by simp⟩
    all_goals exact Or.inl ⟨trivial, trivial⟩
  | moveAssign this other =>
    rcases hx : s.objs this with _ | x <;> rcases hy : s.objs other with _ | y <;> simp only [hx, hy]
    case some.some =>
      by_cases hne : this = other
      · subst hne
        rw [moveAssign_self]
        exact Or.inl ⟨rfl, rfl⟩
      · rw [moveAssign_ne hne]
        exact Or.inl ⟨by simp, by simp⟩
    all_goals exact Or.inl ⟨trivial, trivial⟩
  | destroy this =>
    rcases hx : s.objs this with _ | x <;> simp only [hx]
    · exact Or.inl ⟨trivial, trivial⟩
    · exact Or.inl ⟨by simp [destroy], by simp [destroy]⟩
  | setOption options c => exact Or.inl ⟨rfl, rfl⟩

theorem native_kept {h : Nat} (hh : h < s.next) (es : List Ev) :
    h < (run (next builtin) s es).next ∧ (run (next builtin) s es).native h = s.native h := by
  refine run_inv (I := fun s' : St => h < s'.next ∧ s'.native h = s.native h) (fun s' e hs' => ?_) ⟨hh, rfl⟩ es
  rcases native_step builtin s' e with ⟨hn, hc⟩ | ⟨c, -, hn, hc⟩
  · rw [hn, hc]
    exact hs'
  · have hne : h ≠ s'.next := by omega
    rw [hn, hc, Function.update_of_ne hne]
    exact ⟨by omega, hs'.2⟩

theorem native_versions (optionsAt : Nat → SSLOptions) (es : List Ev) :
    ∀ h, h < (run (next builtin) (init optionsAt) es).next →
      ((run (next builtin) (init optionsAt) es).native h).minProtoVersion =
        ((run (next builtin) (init optionsAt) es).native h).method.version := by
  refine run_inv (I := fun s' : St => ∀ h, h < s'.next → (s'.native h).minProtoVersion = (s'.native h).method.version)
    (fun s' e hs' => ?_) (fun h hh => absurd hh (Nat.not_lt_zero h)) es
  rcases native_step builtin s' e with ⟨hn, hc⟩ | ⟨c, hv, hn, hc⟩
  · rw [hn, hc]
    exact hs'
  · intro h hh
    rw [hn] at hh
    rw [hc]
    by_cases he : h = s'.next
    · rw [he, Function.update_self]
      exact hv
    · rw [Function.update_of_ne he]
      exact hs' h (by omega)

/-- Whatever happens to the objects after it was allocated, a handle goes on being
    configured as it was: a client's, which negotiates its method's version alone. -/
theorem handles_are_fixed (builtin : List Str) (optionsAt : Nat → SSLOptions) (before later : List Ev) (h : Nat)
    (hh : h < (run (next builtin) (init optionsAt) before).next) :
    let c := (run (next builtin) (init optionsAt) before).native h
    (run (next builtin) (init optionsAt) (before ++ later)).native h = c ∧ c.method.role = .client ∧
      ∀ v, c.negotiates v ↔ v = c.method.version := by
  intro c
  refine ⟨?_, by cases c.method <;> rfl, fun v => ?_⟩
  · rw [run_append]
    exact (native_kept hh later).2
  · have hmin : c.minProtoVersion = c.method.version := native_versions optionsAt before h hh
    unfold NativeCtx.negotiates
    rw [hmin]
    exact ⟨fun hv => hv.1, fun hv => ⟨hv, by rw [hv]⟩⟩

/-- A copy of a context is configured once, and stays so when its source is set anew. -/
theorem a_copied_handle_is_fixed :
    let lib : Lib := ⟨true, fun l => some [l], []⟩
    let before : List Ev := [⟨.construct 0 0 0, lib⟩, ⟨.copyConstruct 1 0, lib⟩]
    let later : List Ev := [⟨.setOption 0 (.setCiphers []), lib⟩, ⟨.destroy 0, lib⟩]
    (run (next []) (init fun _ => unknownCipher) (before ++ later)).native 1 = .fresh [] .wolfTLSv1_3_client_method := by
  intro lib before later
  exact (handles_are_fixed [] (fun _ => unknownCipher) before later 1 (by decide)).1

end Iggy.Ssl
