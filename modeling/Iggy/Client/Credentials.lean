/-
  Iggy.Client.Credentials — the login credentials, whose password is to be wiped
  (sdk/client.h).

  The password's `std::string` is a buffer and a size. Assigning to it writes in place
  when the bytes fit its capacity, and otherwise takes a new buffer and releases the old
  one as it is; the capacity of a new buffer, and what is in it behind the bytes, are the
  allocator's (`slack`). A cell remembers whether it ever held a password byte
  (`Iggy.Lib.Residue`). The destructor zeroes the current size and releases the buffer.
  The copies are the implicit ones, and there are no moves: `c = Credentials(u, p)` is a
  construction, a copy assignment and a destruction.

  Over it, `remember` is the history alone: the passwords each object's buffer was given,
  newest first, and its capacity.
  - `sim_remember`: the buffers hold what their histories say.
  - `released_clean_iff`: along a run every buffer released is clean exactly if every
    destruction finds nothing of an earlier password behind the current one, and every
    assignment fits or finds nothing of any password at all.
  - `a_shorter_password_leaves_the_longer_one`: a run where one does not.
-/

import Mathlib.Data.UInt
import Mathlib.Logic.Function.Basic
import Iggy.Basic
import Iggy.Lib.Residue
import Iggy.Lib.Run

namespace Iggy.Client

open Function (update)
open Iggy.Lib.Residue
open Iggy.Lib.Run (run Steps log_iff steps_sim)

/-! ## The password's string -/

/-- A `std::string`'s storage; behind the bytes there is place for the terminator. -/
structure Buffer where
  cells : List (Cell UInt8)
  size : Nat
  fits : size < cells.length

namespace Buffer

def capacity (b : Buffer) : Nat := b.cells.length - 1

def content (b : Buffer) : Str := (b.cells.take b.size).map Cell.val

/-- A new buffer, of capacity `bytes.length + slack.length`. -/
def new (bytes slack : Str) : Buffer := ⟨fresh bytes slack, bytes.length, by rw [length_fresh]; omega⟩

theorem lt_of_le_capacity {b : Buffer} {n : Nat} (h : n ≤ b.capacity) : n < b.cells.length := by
  have hfits := b.fits
  unfold capacity at h
  omega

def write (b : Buffer) (bytes : Str) (h : bytes.length ≤ b.capacity) : Buffer :=
  ⟨put b.cells bytes, bytes.length, by rw [length_put (lt_of_le_capacity h)]; exact lt_of_le_capacity h⟩

/-- `operator=`: the string after it, and the buffer released, if any. -/
def assign (b : Buffer) (bytes slack : Str) : Buffer × List Buffer :=
  if h : bytes.length ≤ b.capacity then (b.write bytes h, []) else (new bytes slack, [b])

/-- `sodium_memzero(&s[0], n)`. -/
def sodium_memzero (b : Buffer) (n : Nat) : Buffer := ⟨wipe b.cells n, b.size, by rw [length_wipe]; exact b.fits⟩

end Buffer

/-! ## `Credentials` -/

structure Credentials where
  username : Str
  password : Buffer

inductive Ev where
  | construct (this : Nat) (username password slack : Str)
  | copyConstruct (this other : Nat) (slack : Str)
  | copyAssign (this other : Nat) (slack : Str)
  | destroy (this : Nat)
  deriving DecidableEq, Repr

/-- The buffers an operation releases, and the objects after it. Constructing where an
    object lives, or using one that does not, is no operation. -/
def act (objs : Nat → Option Credentials) : Ev → List Buffer × (Nat → Option Credentials)
  | .construct this username password slack =>
    match objs this with
    | some _ => ([], objs)
    | none => ([], update objs this (some ⟨username, .new password slack⟩))
  | .copyConstruct this other slack =>
    match objs this, objs other with
    | none, some y => ([], update objs this (some ⟨y.username, .new y.password.content slack⟩))
    | _, _ => ([], objs)
  | .copyAssign this other slack =>
    match objs this, objs other with
    | some x, some y =>
      let (password, old) := x.password.assign y.password.content slack
      (old, update objs this (some ⟨y.username, password⟩))
    | _, _ => ([], objs)
  | .destroy this =>
    match objs this with
    | some x => ([x.password.sodium_memzero x.password.size], update objs this none)
    | none => ([], objs)

structure St where
  objs : Nat → Option Credentials
  released : List Buffer

def init : St := ⟨fun _ => none, []⟩

def step (s : St) (e : Ev) : St := ⟨(act s.objs e).2, s.released ++ (act s.objs e).1⟩

/-! ## The history -/

/-- What a password's buffer was given: the current password, those before it in the same
    buffer, newest first. -/
structure History where
  current : Str
  earlier : List Str
  capacity : Nat
  deriving DecidableEq, Repr

def History.new (password slack : Str) : History := ⟨password, [], password.length + slack.length⟩

def History.assign (h : History) (password slack : Str) : History :=
  if password.length ≤ h.capacity then ⟨password, h.current :: h.earlier, h.capacity⟩ else .new password slack

def remember (t : Nat → Option History) : Ev → Nat → Option History
  | .construct this _ password slack =>
    match t this with
    | some _ => t
    | none => update t this (some (.new password slack))
  | .copyConstruct this other slack =>
    match t this, t other with
    | none, some g => update t this (some (.new g.current slack))
    | _, _ => t
  | .copyAssign this other slack =>
    match t this, t other with
    | some h, some g => update t this (some (h.assign g.current slack))
    | _, _ => t
  | .destroy this =>
    match t this with
    | some _ => update t this none
    | none => t

/-- A destruction finds nothing of an earlier password behind the current one and its
    terminator; an assignment fits, or finds nothing of any password. -/
def LeavesNothing (t : Nat → Option History) : Ev → Prop
  | .destroy this => ∀ h, t this = some h → ∀ b ∈ (residue h.earlier).drop (h.current.length + 1), b = 0
  | .copyAssign this other _ => ∀ h g, t this = some h → t other = some g →
      g.current.length ≤ h.capacity ∨ ∀ b ∈ residue (h.current :: h.earlier), b = 0
  | _ => True

/-! ## The buffers hold their histories -/

structure Tracks (b : Buffer) (h : History) : Prop where
  size : b.size = h.current.length
  capacity : b.capacity = h.capacity
  holds : Holds b.cells (h.current :: h.earlier)

theorem Tracks.content {b : Buffer} {h : History} (hb : Tracks b h) : b.content = h.current := by
  rw [Buffer.content, hb.size, take_of_holds hb.holds]

theorem tracks_new (password slack : Str) : Tracks (.new password slack) (.new password slack) := by
  refine ⟨rfl, ?_, holds_fresh password slack⟩
  simp [Buffer.new, Buffer.capacity, History.new]

theorem tracks_assign {b : Buffer} {h : History} (hb : Tracks b h) (password slack : Str) :
    Tracks (b.assign password slack).1 (h.assign password slack) := by
  have hcap := hb.capacity
  by_cases hfit : password.length ≤ b.capacity
  · rw [Buffer.assign, dif_pos hfit, History.assign, if_pos (hcap ▸ hfit)]
    have hlt := Buffer.lt_of_le_capacity hfit
    refine ⟨rfl, ?_, holds_put hb.holds hlt⟩
    show (put b.cells password).length - 1 = h.capacity
    rw [length_put hlt]
    exact hcap
  · rw [Buffer.assign, dif_neg hfit, History.assign, if_neg (hcap ▸ hfit)]
    exact tracks_new password slack

/-- The buffer an assignment releases is clean if it releases none, or there is nothing in it. -/
theorem assign_releases_clean_iff {b : Buffer} {h : History} (hb : Tracks b h) (password slack : Str) :
    (∀ old ∈ (b.assign password slack).2, Clean old.cells) ↔
      password.length ≤ h.capacity ∨ ∀ v ∈ residue (h.current :: h.earlier), v = 0 := by
  rw [← clean_iff hb.holds, ← hb.capacity]
  by_cases hfit : password.length ≤ b.capacity
  · simp [Buffer.assign, hfit]
  · simp [Buffer.assign, hfit]

theorem destroy_releases_clean_iff {b : Buffer} {h : History} (hb : Tracks b h) :
    Clean (b.sodium_memzero b.size).cells ↔ ∀ v ∈ (residue h.earlier).drop (h.current.length + 1), v = 0 := by
  rw [← clean_wipe_iff hb.holds, ← hb.size]
  rfl

/-! ## The histories simulate the objects -/

def Sim (objs : Nat → Option Credentials) (t : Nat → Option History) : Prop :=
  ∀ o, (objs o = none ∧ t o = none) ∨ ∃ x h, objs o = some x ∧ t o = some h ∧ Tracks x.password h

variable {objs : Nat → Option Credentials} {t : Nat → Option History}

theorem Sim.update_some (hs : Sim objs t) (this : Nat) {x : Credentials} {h : History} (hx : Tracks x.password h) :
    Sim (update objs this (some x)) (update t this (some h)) := by
  intro o
  by_cases ho : o = this
  · subst ho
    exact Or.inr ⟨x, h, Function.update_self .., Function.update_self .., hx⟩
  · rw [Function.update_of_ne ho, Function.update_of_ne ho]
    exact hs o

theorem Sim.update_none (hs : Sim objs t) (this : Nat) : Sim (update objs this none) (update t this none) := by
  intro o
  by_cases ho : o = this
  · subst ho
    exact Or.inl ⟨Function.update_self .., Function.update_self ..⟩
  · rw [Function.update_of_ne ho, Function.update_of_ne ho]
    exact hs o

theorem sim_remember (hs : Sim objs t) (e : Ev) : Sim (act objs e).2 (remember t e) := by
  cases e with
  | construct this username password slack =>
    rcases hs this with ⟨ho, ht⟩ | ⟨x, h, ho, ht, -⟩
    · simp only [act, remember, ho, ht]
      exact hs.update_some this (tracks_new password slack)
    · simp only [act, remember, ho, ht]
      exact hs
  | copyConstruct this other slack =>
    rcases hs this with ⟨ho, ht⟩ | ⟨x, h, ho, ht, -⟩
    · rcases hs other with ⟨ho', ht'⟩ | ⟨y, g, ho', ht', hy⟩
      · simp only [act, remember, ho, ht, ho', ht']
        exact hs
      · simp only [act, remember, ho, ht, ho', ht', hy.content]
        exact hs.update_some this (tracks_new g.current slack)
    · simp only [act, remember, ho, ht]
      exact hs
  | copyAssign this other slack =>
    rcases hs this with ⟨ho, ht⟩ | ⟨x, h, ho, ht, hx⟩
    · simp only [act, remember, ho, ht]
      exact hs
    · rcases hs other with ⟨ho', ht'⟩ | ⟨y, g, ho', ht', hy⟩
      · simp only [act, remember, ho, ht, ho', ht']
        exact hs
      · simp only [act, remember, ho, ht, ho', ht', hy.content]
        exact hs.update_some this (tracks_assign hx g.current slack)
  | destroy this =>
    rcases hs this with ⟨ho, ht⟩ | ⟨x, h, ho, ht, -⟩
    · simp only [act, remember, ho, ht]
      exact hs
    · simp only [act, remember, ho, ht]
      exact hs.update_none this

theorem releases_clean_iff (hs : Sim objs t) (e : Ev) :
    (∀ b ∈ (act objs e).1, Clean b.cells) ↔ LeavesNothing t e := by
  cases e with
  | construct this username password slack =>
    rcases hs this with ⟨ho, ht⟩ | ⟨x, h, ho, ht, -⟩ <;> simp [act, LeavesNothing, ho]
  | copyConstruct this other slack =>
    rcases hs this with ⟨ho, ht⟩ | ⟨x, h, ho, ht, -⟩
    · rcases hs other with ⟨ho', ht'⟩ | ⟨y, g, ho', ht', -⟩ <;> simp [act, LeavesNothing, ho, ho']
    · simp [act, LeavesNothing, ho]
  | copyAssign this other slack =>
    rcases hs this with ⟨ho, ht⟩ | ⟨x, h, ho, ht, hx⟩
    · simp [act, LeavesNothing, ho, ht]
    · rcases hs other with ⟨ho', ht'⟩ | ⟨y, g, ho', ht', hy⟩
      · simp [act, LeavesNothing, ho, ho', ht']
      · simp only [act, LeavesNothing, ho, ht, ho', ht', hy.content, Option.some.injEq]
        rw [assign_releases_clean_iff hx]
        constructor
        · intro hnew h' g' hh hg
          subst hh hg
          exact hnew
        · intro hall
          exact hall h g rfl rfl
  | destroy this =>
    rcases hs this with ⟨ho, ht⟩ | ⟨x, h, ho, ht, hx⟩
    · simp [act, LeavesNothing, ho, ht]
    · simp only [act, LeavesNothing, ho, ht, Option.some.injEq, forall_eq', List.forall_mem_singleton]
      exact destroy_releases_clean_iff hx

/-- The buffers a step releases are clean. -/
def ReleasesClean (s : St) (e : Ev) : Prop := ∀ b ∈ (act s.objs e).1, Clean b.cells

theorem released_clean_steps (es : List Ev) :
    (∀ b ∈ (run step init es).released, Clean b.cells) ↔ Steps step ReleasesClean init es := by
  have hlog : (∀ b ∈ (run step init es).released, Clean b.cells) ↔
      (∀ b ∈ init.released, Clean b.cells) ∧ Steps step ReleasesClean init es :=
    log_iff (I := fun _ => True) (fun _ _ _ => trivial) St.released (fun s e => (act s.objs e).1)
      (fun _ _ _ => rfl) (fun b => Clean b.cells) trivial es
  exact hlog.trans (and_iff_right fun b hb => by cases hb)

/-- Every buffer released in a run holds no password byte exactly if every step of the
    run leaves none behind. -/
theorem released_clean_iff (es : List Ev) :
    (∀ b ∈ (run step init es).released, Clean b.cells) ↔ Steps remember LeavesNothing (fun _ => none) es := by
  rw [released_clean_steps]
  have hempty : Sim init.objs fun _ => none := fun _ => Or.inl ⟨rfl, rfl⟩
  exact steps_sim (R := fun s t => Sim s.objs t) (fun s t e hr => sim_remember hr e)
    (fun s t e hr => releases_clean_iff hr e) hempty es

/-- A password assigned over a longer one: the destructor wipes the shorter one's size. -/
theorem a_shorter_password_leaves_the_longer_one :
    ¬ ∀ b ∈ (run step init
        [.construct 0 (str "iggy") (str "a long password") [], .construct 1 (str "iggy") (str "short") [],
         .copyAssign 0 1 [], .destroy 1, .destroy 0]).released, Clean b.cells := by
  decide

end Iggy.Client
