/-
  Iggy.Ssl.Ownership — who owns the native handles.

  The abstract model is `Iggy.Lib.Ledger`: an owner is an address, its slot the `ctx` of
  the object living there. `moves` is what each operation does to the ledger, and
  `keeps_step` says the objects refine it: after every operation the live objects hold
  what the slots hold, and wolfSSL freed what the ledger released.

  Proved, over every run:
  - `handles_uniquely_owned`: a held handle is allocated and not freed, no two objects
    hold one handle, no handle is freed twice, and the next operation frees only a handle
    that nobody but its own target holds.
  - `no_handle_leaked_iff`: every handle is held or freed exactly if no constructor threw
    with a handle in hand (`Leaks`). Such a constructor leaves the handle to nobody, since
    its destructor does not run.
-/

import Iggy.Lib.Ledger
import Iggy.Ssl.Context

namespace Iggy.Ssl

open Function (update)
open Iggy.Lib.Run (run run_inv Steps log_iff)
open Iggy.Lib.Ledger (Book Move move Sound losses)

/-! ## The ledger beside the objects -/

/-- The constructor gets a handle. -/
def gets (lib : Lib) (o : SSLOptions) : Bool := o.minimumSupportedProtocolVersion.version.isSome && lib.ctxNew

/-- The constructor gets a handle and then throws. -/
def leaks (lib : Lib) (o : SSLOptions) : Bool := gets lib o && (cipherAnswer lib o).isNone

/-- What an operation does to the ledger. -/
def moves (s : St) (e : Ev) : List (Move Nat) :=
  match e.op with
  | .construct this options _ =>
    match s.objs this with
    | none =>
      (if gets e.lib (s.optionsAt options) then [.acquire this] else []) ++
        if leaks e.lib (s.optionsAt options) then [.lose this] else []
    | some _ => []
  | .copyConstruct this other =>
    match s.objs this, s.objs other with
    | none, some _ => if e.lib.ctxNew then [.acquire this] else []
    | _, _ => []
  | .moveConstruct this other =>
    match s.objs this, s.objs other with
    | none, some _ => [.pass other this]
    | _, _ => []
  | .copyAssign this other =>
    match s.objs this, s.objs other with
    | some _, some _ =>
      if this ≠ other then .release this :: (if e.lib.ctxNew then [.acquire this] else []) else []
    | _, _ => []
  | .moveAssign this other =>
    match s.objs this, s.objs other with
    | some _, some _ => if this ≠ other then [.release this, .pass other this] else []
    | _, _ => []
  | .destroy this => [.release this]
  | .setOption _ _ => []

/-- The ledger's slots are the objects' handles, and its releases wolfSSL's frees. -/
structure Keeps (s : St) (L : Book Nat) : Prop where
  slot : L.slot = ctxOf s
  next : L.next = s.next
  freed : L.freed = s.frees

variable {s : St} {L : Book Nat} {o p : Nat}

theorem ctxOf_none (ho : s.objs o = none) : ctxOf s o = none := by simp [ctxOf, ho]

theorem ctxOf_some {x : SSLContext} (ho : s.objs o = some x) : ctxOf s o = x.ctx := by simp [ctxOf, ho]

theorem place_place (s : St) (o : Nat) (x y : Option SSLContext) : place (place s o x) o y = place s o y := by
  simp [place]

/-! ## The primitive steps refine the ledger's moves -/

theorem keeps_acquire (h : Keeps s L) (ho : ctxOf s o = none) (c : NativeCtx) {x : SSLContext}
    (hx : x.ctx = some s.next) : Keeps (place (alloc s c) o (some x)) (move L (.acquire o)) := by
  have hl : L.slot o = none := by rw [h.slot, ho]
  rw [Iggy.Lib.Ledger.move_acquire hl]
  exact ⟨by simp [ctxOf_place, h.slot, h.next, hx], by simp [h.next], h.freed⟩

theorem keeps_lost (h : Keeps s L) (ho : ctxOf s o = none) (c : NativeCtx) :
    Keeps (alloc s c) (move (move L (.acquire o)) (.lose o)) := by
  have hl : L.slot o = none := by rw [h.slot, ho]
  rw [Iggy.Lib.Ledger.move_acquire hl, Iggy.Lib.Ledger.move_lose (h := L.next) (by simp)]
  exact ⟨by simp [h.slot, ← ho], by simp [h.next], h.freed⟩

theorem keeps_release (h : Keeps s L) {x : SSLContext} (ho : s.objs o = some x) {y : Option SSLContext}
    (hy : y.bind (·.ctx) = none) : Keeps (place (freeHeld s x) o y) (move L (.release o)) := by
  have hl : L.slot o = x.ctx := by rw [h.slot, ctxOf_some ho]
  cases hc : x.ctx with
  | none =>
    rw [Iggy.Lib.Ledger.move_release_none (hl.trans hc)]
    refine ⟨?_, by simp [h.next], by simp [h.freed, hc]⟩
    rw [ctxOf_place, hy, ctxOf_freeHeld, h.slot, ← hc, ← ctxOf_some ho, Function.update_eq_self]
  | some k =>
    rw [Iggy.Lib.Ledger.move_release (hl.trans hc)]
    exact ⟨by simp [ctxOf_place, hy, h.slot], by simp [h.next], by simp [h.freed, hc]⟩

theorem keeps_pass (h : Keeps s L) {y : SSLContext} (ho : s.objs o = some y) (hp : ctxOf s p = none) (hne : p ≠ o)
    {u v : SSLContext} (hx : u.ctx = y.ctx) (hy : v.ctx = none) :
    Keeps (place (place s p (some u)) o (some v)) (move L (.pass o p)) := by
  have hl : L.slot o = y.ctx := by rw [h.slot, ctxOf_some ho]
  have hlp : L.slot p = none := by rw [h.slot, hp]
  have hs : ctxOf (place (place s p (some u)) o (some v)) = update (update (ctxOf s) o none) p y.ctx := by
    rw [ctxOf_place, ctxOf_place, Function.update_comm hne.symm]
    simp [hx, hy]
  cases hc : y.ctx with
  | none =>
    rw [Iggy.Lib.Ledger.move_pass_none (hl.trans hc)]
    refine ⟨?_, h.next, h.freed⟩
    have ho' : update (ctxOf s) o none = ctxOf s := by rw [← hc, ← ctxOf_some ho, Function.update_eq_self]
    rw [hs, hc, ho', ← hp, Function.update_eq_self, h.slot]
  | some k =>
    rw [Iggy.Lib.Ledger.move_pass (hl.trans hc) hlp]
    exact ⟨by rw [hs, hc, h.slot], h.next, h.freed⟩

/-! ## Every operation refines its moves -/

variable {builtin : List Str} {lib : Lib}

theorem keeps_construct (h : Keeps s L) {this : Nat} (ht : s.objs this = none) (options pkiEnv : Nat) :
    Keeps (construct builtin lib s this options pkiEnv).2
      (run move L ((if gets lib (s.optionsAt options) then [.acquire this] else []) ++
        if leaks lib (s.optionsAt options) then [.lose this] else [])) := by
  have hc := ctxOf_none ht
  cases hv : (s.optionsAt options).minimumSupportedProtocolVersion.version with
  | none =>
    obtain ⟨e, he, -⟩ := construct_unsupported builtin lib this pkiEnv hv
    simpa [he, gets, leaks, hv, run] using h
  | some v =>
    cases hn : lib.ctxNew with
    | false =>
      rw [construct_null hv hn]
      simpa [gets, leaks, hn, run] using h
    | true =>
      rw [construct_allocated hv hn]
      cases ha : cipherAnswer lib (s.optionsAt options) with
      | none => simpa [gets, leaks, hv, hn, ha, run] using keeps_lost h hc _
      | some l => simpa [gets, leaks, hv, hn, ha, run] using keeps_acquire h hc _ rfl

theorem keeps_copyConstruct (h : Keeps s L) {this : Nat} (ht : s.objs this = none) (y : SSLContext) :
    Keeps (copyConstruct builtin lib s this y).2 (run move L (if lib.ctxNew then [.acquire this] else [])) := by
  have hc := ctxOf_none ht
  cases hn : lib.ctxNew with
  | false =>
    -- the new object has a null handle: nothing changes hands
    rw [copyConstruct_null hn, if_neg Bool.false_ne_true]
    refine ⟨?_, h.next, h.freed⟩
    show L.slot = _
    rw [ctxOf_place, h.slot, Option.bind_some, ← hc, Function.update_eq_self]
  | true =>
    rw [copyConstruct_new hn]
    exact keeps_acquire h hc _ rfl

theorem keeps_copyAssign (h : Keeps s L) {this other : Nat} {x : SSLContext} (hx : s.objs this = some x)
    (hne : this ≠ other) :
    Keeps (copyAssign builtin lib s this other x).2
      (run move L (.release this :: if lib.ctxNew then [.acquire this] else [])) := by
  have hr := keeps_release h hx (y := some { x with ctx := none }) rfl
  cases hn : lib.ctxNew with
  | false =>
    rw [copyAssign_null hne hn]
    exact hr
  | true =>
    -- the target first loses its old handle, and then gets the new one
    have ha := keeps_acquire (o := this) hr (by simp [ctxOf_place]) (.fresh builtin .wolfTLSv1_3_client_method)
      (x := { x with ctx := some s.next }) (by simp)
    rw [copyAssign_new hne hn]
    simpa [place, alloc, run] using ha

theorem keeps_moveAssign (h : Keeps s L) {this other : Nat} {x y : SSLContext} (hx : s.objs this = some x)
    (hy : s.objs other = some y) (hne : this ≠ other) :
    Keeps (moveAssign s this other x y).2 (run move L [.release this, .pass other this]) := by
  have hr := keeps_release h hx (y := some { x with ctx := none }) rfl
  have ho : (place (freeHeld s x) this (some { x with ctx := none })).objs other = some y := by
    simp [hne.symm, hy]
  have hp := keeps_pass hr ho (by simp [ctxOf_place]) hne (u := { x with ctx := y.ctx })
    (v := { y with ctx := none }) rfl rfl
  rw [place_place] at hp
  rw [moveAssign_ne hne]
  exact hp

theorem keeps_step {s : St} {L : Book Nat} (h : Keeps s L) (e : Ev) :
    Keeps (next builtin s e) (run move L (moves s e)) := by
  unfold next step moves
  cases e.op with
  | construct this options pkiEnv =>
    rcases ht : s.objs this with _ | x <;> simp only [ht]
    · exact keeps_construct h ht options pkiEnv
    · exact h
  | copyConstruct this other =>
    rcases ht : s.objs this with _ | x <;> rcases hy : s.objs other with _ | y <;> simp only [ht, hy]
    · exact h
    · exact keeps_copyConstruct h ht y
    · exact h
    · exact h
  | moveConstruct this other =>
    rcases ht : s.objs this with _ | x <;> rcases hy : s.objs other with _ | y <;> simp only [ht, hy]
    · exact h
    · exact keeps_pass h hy (ctxOf_none ht) (ne_of_live ht hy) rfl rfl
    · exact h
    · exact h
  | copyAssign this other =>
    rcases hx : s.objs this with _ | x <;> rcases hy : s.objs other with _ | y <;> simp only [hx, hy]
    · exact h
    · exact h
    · exact h
    · by_cases hne : this = other
      · subst hne; simpa [copyAssign_self, run] using h
      · simpa only [ne_eq, hne, not_false_eq_true, if_true] using keeps_copyAssign h hx hne
  | moveAssign this other =>
    rcases hx : s.objs this with _ | x <;> rcases hy : s.objs other with _ | y <;> simp only [hx, hy]
    · exact h
    · exact h
    · exact h
    · by_cases hne : this = other
      · subst hne; simpa [moveAssign_self, run] using h
      · simpa only [ne_eq, hne, not_false_eq_true, if_true] using keeps_moveAssign h hx hy hne
  | destroy this =>
    rcases hx : s.objs this with _ | x <;> simp only [hx]
    · have hl : L.slot this = none := by rw [h.slot, ctxOf_none hx]
      simpa only [run, Iggy.Lib.Ledger.move_release_none hl] using h
    · exact keeps_release h hx rfl
  | setOption options c => exact ⟨h.slot, h.next, h.freed⟩

/-! ## Unique ownership -/

theorem keeps_init (optionsAt : Nat → SSLOptions) : Keeps (init optionsAt) Iggy.Lib.Ledger.empty := ⟨rfl, rfl, rfl⟩

/-- Some sound ledger goes with the state. -/
def Ruled (s : St) : Prop := ∃ L, Keeps s L ∧ Sound L

theorem ruled_init (optionsAt : Nat → SSLOptions) : Ruled (init optionsAt) :=
  ⟨_, keeps_init optionsAt, Iggy.Lib.Ledger.empty_sound⟩

theorem ruled_step (builtin : List Str) (s : St) (e : Ev) (h : Ruled s) : Ruled (next builtin s e) := by
  obtain ⟨L, hk, hs⟩ := h
  exact ⟨_, keeps_step hk e, Iggy.Lib.Ledger.run_sound hs _⟩

theorem ruled (optionsAt : Nat → SSLOptions) (es : List Ev) : Ruled (run (next builtin) (init optionsAt) es) :=
  run_inv (ruled_step builtin) (ruled_init optionsAt) es

/-- Every live object's handle is allocated, not freed and its own; no handle was freed
    twice. -/
structure UniquelyOwned (s : St) : Prop where
  alive : ∀ o h, ctxOf s o = some h → h < s.next ∧ h ∉ s.frees
  sole : ∀ o p h, ctxOf s o = some h → ctxOf s p = some h → o = p
  freedOnce : s.frees.Nodup
  freedGiven : ∀ h ∈ s.frees, h < s.next

theorem Ruled.uniquelyOwned {s : St} (h : Ruled s) : UniquelyOwned s := by
  obtain ⟨L, ⟨hslot, hnext, hfreed⟩, hs⟩ := h
  constructor
  · intro o h ho
    rw [← hslot] at ho
    rw [← hnext, ← hfreed]
    exact ⟨hs.given o h ho, (hs.live o h ho).1⟩
  · intro o p h ho hp
    rw [← hslot] at ho hp
    exact hs.sole o p h ho hp
  · rw [← hfreed]; exact hs.freedOnce
  · intro h hh
    rw [← hfreed] at hh
    rw [← hnext]
    exact hs.gone h (Or.inl hh)

/-- The object an operation works on (`*this`). -/
def Op.this : Op → Option Nat
  | .construct this _ _ => some this
  | .copyConstruct this _ => some this
  | .moveConstruct this _ => some this
  | .copyAssign this _ => some this
  | .moveAssign this _ => some this
  | .destroy this => some this
  | .setOption _ _ => none

theorem construct_frees (this options pkiEnv : Nat) :
    (construct builtin lib s this options pkiEnv).2.frees = s.frees := by
  cases hv : (s.optionsAt options).minimumSupportedProtocolVersion.version with
  | none =>
    obtain ⟨e, he, -⟩ := construct_unsupported builtin lib this pkiEnv hv
    rw [he]
  | some v =>
    cases hn : lib.ctxNew with
    | false => rw [construct_null hv hn]
    | true =>
      rw [construct_allocated hv hn]
      split <;> rfl

/-- An operation frees nothing, or just the handle of its own object. -/
theorem frees_next (builtin : List Str) (s : St) (e : Ev) :
    (next builtin s e).frees = s.frees ∨
      ∃ o, e.op.this = some o ∧ (next builtin s e).frees = s.frees ++ (ctxOf s o).toList := by
  unfold next step
  cases e.op with
  | construct this options pkiEnv =>
    left
    rcases hx : s.objs this with _ | x <;> simp only [hx]
    exact construct_frees this options pkiEnv
  | copyConstruct this other =>
    left
    rcases hx : s.objs this with _ | x <;> rcases hy : s.objs other with _ | y <;> simp only [hx, hy]
    cases hn : e.lib.ctxNew
    · rw [copyConstruct_null hn]; rfl
    · rw [copyConstruct_new hn]; rfl
  | moveConstruct this other =>
    left
    rcases hx : s.objs this with _ | x <;> rcases hy : s.objs other with _ | y <;> simp only [hx, hy]
    rfl
  | copyAssign this other =>
    rcases hx : s.objs this with _ | x <;> rcases hy : s.objs other with _ | y <;> simp only [hx, hy]
    · exact Or.inl trivial
    · exact Or.inl trivial
    · exact Or.inl trivial
    · by_cases hne : this = other
      · subst hne; left; rw [copyAssign_self]
      · refine Or.inr ⟨this, rfl, ?_⟩
        cases hn : e.lib.ctxNew
        · simp [copyAssign_null hne hn, ctxOf_some hx]
        · simp [copyAssign_new hne hn, ctxOf_some hx]
  | moveAssign this other =>
    rcases hx : s.objs this with _ | x <;> rcases hy : s.objs other with _ | y <;> simp only [hx, hy]
    · exact Or.inl trivial
    · exact Or.inl trivial
    · exact Or.inl trivial
    · by_cases hne : this = other
      · subst hne; left; rw [moveAssign_self]
      · exact Or.inr ⟨this, rfl, by simp [moveAssign_ne hne, ctxOf_some hx]⟩
  | destroy this =>
    rcases hx : s.objs this with _ | x <;> simp only [hx]
    · exact Or.inl trivial
    · exact Or.inr ⟨this, rfl, by simp [destroy, ctxOf_some hx]⟩
  | setOption options c => exact Or.inl rfl

/-- What the next operation frees, its own object held alone, and nobody holds after. -/
def FreesItsOwn (builtin : List Str) (s : St) (e : Ev) : Prop :=
  ∃ fs, (next builtin s e).frees = s.frees ++ fs ∧ ∀ h ∈ fs, h ∉ s.frees ∧
    ∃ o, e.op.this = some o ∧ ctxOf s o = some h ∧ (∀ p, p ≠ o → ctxOf s p ≠ some h) ∧
      ∀ p, ctxOf (next builtin s e) p ≠ some h

theorem Ruled.freesItsOwn {s : St} (h : Ruled s) (e : Ev) : FreesItsOwn builtin s e := by
  have hs := h.uniquelyOwned
  have hs' := (ruled_step builtin s e h).uniquelyOwned
  rcases frees_next builtin s e with hf | ⟨o, ho, hf⟩
  · exact ⟨[], by simpa using hf, fun h hh => by cases hh⟩
  · refine ⟨_, hf, fun h hh => ?_⟩
    have hc : ctxOf s o = some h := by simpa using hh
    refine ⟨(hs.alive o h hc).2, o, ho, hc, fun p hp hp' => hp (hs.sole p o h hp' hc), fun p hp => ?_⟩
    exact (hs'.alive p h hp).2 (by rw [hf]; exact List.mem_append_right _ hh)

/-- In every reachable state the live objects own their handles, and the next operation,
    whichever it is, frees only a handle its own object held alone. -/
theorem handles_uniquely_owned (builtin : List Str) (optionsAt : Nat → SSLOptions) (es : List Ev) (e : Ev) :
    UniquelyOwned (run (next builtin) (init optionsAt) es) ∧
      FreesItsOwn builtin (run (next builtin) (init optionsAt) es) e :=
  ⟨(ruled optionsAt es).uniquelyOwned, (ruled optionsAt es).freesItsOwn e⟩

/-! ## Conservation -/

/-- The operation is a constructor that throws with a handle in hand. -/
def Leaks (s : St) (e : Ev) : Prop :=
  match e.op with
  | .construct this options _ => s.objs this = none ∧ leaks e.lib (s.optionsAt options) = true
  | _ => False

instance (s : St) (e : Ev) : Decidable (Leaks s e) := by unfold Leaks; split <;> infer_instance

/-- Every handle given out is held by one object or was freed; so with no object left,
    all were freed. -/
structure NothingLeaked (s : St) : Prop where
  accounted : ∀ h, h < s.next → (∃ o, ctxOf s o = some h ∧ ∀ p, ctxOf s p = some h → p = o) ∨ h ∈ s.frees
  allFreed : (∀ o, s.objs o = none) → ∀ h, h < s.next → h ∈ s.frees

/-- A state and the ledger kept beside it. -/
def ledgerStep (builtin : List Str) (a : St × Book Nat) (e : Ev) : St × Book Nat :=
  (next builtin a.1 e, run move a.2 (moves a.1 e))

def Booked (a : St × Book Nat) : Prop := Keeps a.1 a.2 ∧ Sound a.2

theorem booked_step (builtin : List Str) (a : St × Book Nat) (e : Ev) (h : Booked a) : Booked (ledgerStep builtin a e) :=
  ⟨keeps_step h.1 e, Iggy.Lib.Ledger.run_sound h.2 _⟩

/-- The moves that stand for an operation lose a handle only if it leaks one. -/
theorem leaks_of_lose {s : St} {e : Ev} {o : Nat} (h : .lose o ∈ moves s e) : Leaks s e := by
  unfold moves at h
  unfold Leaks
  cases he : e.op with
  | construct this options pkiEnv =>
    rcases hx : s.objs this with _ | x <;> simp only [he, hx] at h
    · refine ⟨hx, ?_⟩
      rcases List.mem_append.mp h with h | h
      · split at h <;> simp at h
      · split at h
        · assumption
        · cases h
    · cases h
  | copyConstruct this other =>
    simp only [he] at h
    split at h
    · split at h <;> simp at h
    · cases h
  | moveConstruct this other =>
    simp only [he] at h
    split at h <;> simp at h
  | copyAssign this other =>
    simp only [he] at h
    split at h
    · split at h
      · split at h <;> simp at h
      · cases h
    · cases h
  | moveAssign this other =>
    simp only [he] at h
    split at h
    · split at h <;> simp at h
    · cases h
  | destroy this => simp [he] at h
  | setOption options c => simp [he] at h

theorem moves_of_leaks {s : St} {e : Ev} (h : Leaks s e) :
    ∃ this, s.objs this = none ∧ moves s e = [.acquire this, .lose this] := by
  unfold Leaks at h
  split at h
  · rename_i this options pkiEnv ho
    obtain ⟨hx, hl⟩ := h
    have hg : gets e.lib (s.optionsAt options) = true := by
      unfold leaks at hl
      exact (Bool.and_eq_true_iff.mp hl).1
    refine ⟨this, hx, ?_⟩
    simp [moves, ho, hx, hg, hl]
  · cases h

/-- The ledger loses a handle exactly when a constructor throws with one. -/
theorem lost_step {a : St × Book Nat} (h : Booked a) (e : Ev) :
    (ledgerStep builtin a e).2.lost = a.2.lost ++ if Leaks a.1 e then [a.1.next] else [] := by
  obtain ⟨s, L⟩ := a
  have hk : Keeps s L := h.1
  show (run move L (moves s e)).lost = L.lost ++ if Leaks s e then [s.next] else []
  by_cases hl : Leaks s e
  · obtain ⟨this, hx, hm⟩ := moves_of_leaks hl
    have hs : L.slot this = none := by rw [hk.slot, ctxOf_none hx]
    rw [if_pos hl, hm, run, run, run, Iggy.Lib.Ledger.move_acquire hs, Iggy.Lib.Ledger.move_lose (h := L.next) (by simp),
      hk.next]
  · rw [if_neg hl, List.append_nil]
    exact Iggy.Lib.Ledger.lost_run fun o ho => hl (leaks_of_lose ho)

theorem ledger_run_fst (a : St × Book Nat) (es : List Ev) :
    (run (ledgerStep builtin) a es).1 = run (next builtin) a.1 es := by
  induction es generalizing a with
  | nil => rfl
  | cons e es ih => exact ih (ledgerStep builtin a e)

theorem nothingLeaked_iff_lost {a : St × Book Nat} (h : Booked a) : NothingLeaked a.1 ↔ ∀ k ∈ a.2.lost, False := by
  obtain ⟨s, L⟩ := a
  obtain ⟨⟨hslot, hnext, hfreed⟩, hs⟩ := h
  simp only at hslot hnext hfreed ⊢
  constructor
  · intro hleak k hk
    have hacc := hleak.accounted
    have hlt : k < s.next := by rw [← hnext]; exact hs.gone k (Or.inr hk)
    rcases hacc k hlt with ⟨o, ho, -⟩ | hf
    · rw [← hslot] at ho
      exact (hs.live o k ho).2 hk
    · rw [← hfreed] at hf
      exact hs.apart k hf hk
  · intro hno
    have hacc : ∀ h, h < s.next → (∃ o, ctxOf s o = some h) ∨ h ∈ s.frees := by
      intro h hh
      rw [← hnext] at hh
      rw [← hslot, ← hfreed]
      rcases hs.accounted h hh with ho | hf | hk
      · exact Or.inl ho
      · exact Or.inr hf
      · exact absurd hk (hno h)
    refine ⟨fun h hh => ?_, fun hempty h hh => ?_⟩
    · rcases hacc h hh with ⟨o, ho⟩ | hf
      · left
        rw [← hslot] at ho ⊢
        exact ⟨o, ho, fun p hp => hs.sole p o h hp ho⟩
      · exact Or.inr hf
    · rcases hacc h hh with ⟨o, ho⟩ | hf
      · rw [ctxOf_none (hempty o)] at ho; cases ho
      · exact hf

/-- A run leaks no handle exactly if none of its constructors throws after it got its
    handle, that is, at the cipher list. -/
theorem no_handle_leaked_iff (builtin : List Str) (optionsAt : Nat → SSLOptions) (es : List Ev) :
    NothingLeaked (run (next builtin) (init optionsAt) es) ↔
      Steps (next builtin) (fun s e => ¬ Leaks s e) (init optionsAt) es := by
  have h0 : Booked (init optionsAt, Iggy.Lib.Ledger.empty) := ⟨keeps_init optionsAt, Iggy.Lib.Ledger.empty_sound⟩
  have hlog := log_iff (booked_step builtin) (·.2.lost) (fun a e => if Leaks a.1 e then [a.1.next] else [])
    (fun a e h => lost_step h e) (fun _ => False) h0 es
  have hend := nothingLeaked_iff_lost (run_inv (booked_step builtin) h0 es)
  rw [ledger_run_fst] at hend
  rw [hend, hlog]
  have hnil : ∀ k ∈ (Iggy.Lib.Ledger.empty : Book Nat).lost, False := fun k hk => by cases hk
  rw [and_iff_right hnil]
  refine Iggy.Lib.Run.steps_sim (R := fun a s => a.1 = s) (fun a s e hr => ?_) (fun a s e hr => ?_) rfl es
  · subst hr; rfl
  · subst hr
    by_cases hl : Leaks a.1 e <;> simp [hl]

/-- Options naming one cipher, which wolfSSL does not know. -/
def unknownCipher : SSLOptions := ⟨.client, none, .tlsv1_3, [str "NO-SUCH-CIPHER"]⟩

/-- wolfSSL with memory to spare that refuses the cipher list. -/
def refusing : Lib := ⟨true, fun _ => none, str "no cipher match"⟩

/-- One constructor, whose cipher list wolfSSL refuses: no object is left, and the handle
    it got was never freed. -/
theorem a_refused_cipher_list_leaks_the_handle :
    ¬ NothingLeaked (run (next [str "TLS_AES_128_GCM_SHA256"]) (init fun _ => unknownCipher)
      [⟨.construct 0 0 0, refusing⟩]) := by
  intro h
  have h0 := h.allFreed (fun _ => rfl) 0 (by decide)
  cases h0

end Iggy.Ssl
