/-
  Iggy.Ssl.Outcome — when the constructor of `SSLContext` returns, and with which ciphers.

  wolfSSL reads the joined names up to the first NUL and splits them at every `:`, also at
  those inside a name. `requested` is what it reads of a list of any strings whatever
  (`setCipherList_requested`).

  Proved: the constructor returns exactly if the version is one of the two, a handle is to
  be had, and wolfSSL reads nothing at all or a name it knows; the context then enables its
  whole built-in list or the known names, in the order given. Otherwise it throws a
  `std::runtime_error`, and every object is as it was (`constructor_outcome`).
-/

import Iggy.Ssl.CipherString
import Iggy.Ssl.Enforce

namespace Iggy.Ssl

/-! ## The names wolfSSL reads -/

/-- The names up to the first NUL. -/
def visible : List Str → List Str
  | [] => []
  | c :: cs => if 0 ∈ c then [cStr c] else c :: visible cs

def requested (ciphers : List Str) : List Str := (visible ciphers).flatMap (·.splitOn colon)

theorem joinedCiphers_cons (c d : Str) (cs : List Str) :
    joinedCiphers (c :: d :: cs) = c ++ colon :: joinedCiphers (d :: cs) := by
  rw [joinedCiphers_eq, joinedCiphers_eq, List.intercalate_cons_cons, List.append_assoc]
  rfl

theorem joinedCiphers_singleton (c : Str) : joinedCiphers [c] = c := rfl

theorem visible_cons_ne_nil (c : Str) (cs : List Str) : visible (c :: cs) ≠ [] := by
  unfold visible
  split <;> simp

theorem cipherArgument_eq (cs : List Str) : cipherArgument cs = joinedCiphers (visible cs) := by
  unfold cipherArgument
  induction cs with
  | nil => rfl
  | cons c cs ih =>
    by_cases h0 : 0 ∈ c
    · rw [visible, if_pos h0, joinedCiphers_singleton]
      cases cs with
      | nil => rfl
      | cons d ds => rw [joinedCiphers_cons, cStr_append_of_mem h0]
    · rw [visible, if_neg h0]
      cases cs with
      | nil => exact cStr_eq_self h0
      | cons d ds =>
        obtain ⟨e, es, he⟩ := List.exists_cons_of_ne_nil (visible_cons_ne_nil d ds)
        have hcolon : cStr (colon :: joinedCiphers (d :: ds)) = colon :: cStr (joinedCiphers (d :: ds)) := rfl
        rw [joinedCiphers_cons, cStr_append_of_notMem h0, hcolon, ih, he, joinedCiphers_cons]

theorem split_joined_flatMap {cs : List Str} (hne : cs ≠ []) :
    (joinedCiphers cs).splitOn colon = cs.flatMap (·.splitOn colon) := by
  induction cs with
  | nil => exact absurd rfl hne
  | cons c cs ih =>
    cases cs with
    | nil => simp [joinedCiphers_singleton]
    | cons d ds =>
      rw [joinedCiphers_cons, List.splitOn_append_cons_self, ih (by simp)]
      simp only [List.flatMap_cons]

/-- What wolfSSL makes of any list of strings. -/
theorem setCipherList_requested (T : CipherTable) (cs : List Str) :
    T.setCipherList (cipherArgument cs) =
      if cipherArgument cs = [] then some T.builtin
      else if (requested cs).filter (T.known.contains ·) = [] then none
      else some ((requested cs).filter (T.known.contains ·)) := by
  unfold CipherTable.setCipherList
  split
  · rfl
  · rename_i hne
    have hvis : visible cs ≠ [] := by
      intro h0
      rw [cipherArgument_eq, h0] at hne
      exact hne rfl
    rw [cipherArgument_eq, split_joined_flatMap hvis]
    rfl

/-! ## The constructor -/

variable {T : CipherTable} {ctxNew : Bool} {errorString : Str} {s : St} {this options pkiEnv : Nat}

/-- wolfSSL reads nothing, or a name it knows. -/
def Readable (T : CipherTable) (ciphers : List Str) : Prop :=
  cipherArgument ciphers = [] ∨ ∃ n ∈ requested ciphers, n ∈ T.known

/-- The ciphers it then enables. -/
def enabledCiphers (T : CipherTable) (ciphers : List Str) : List Str :=
  if cipherArgument ciphers = [] then T.builtin else (requested ciphers).filter (T.known.contains ·)

theorem setCipherList_readable {cs : List Str} (h : Readable T cs) :
    T.setCipherList (cipherArgument cs) = some (enabledCiphers T cs) := by
  rw [setCipherList_requested, enabledCiphers]
  by_cases h0 : cipherArgument cs = []
  · rw [if_pos h0, if_pos h0]
  · obtain ⟨n, hn, hk⟩ := h.resolve_left h0
    have hmem : n ∈ (requested cs).filter (T.known.contains ·) := List.mem_filter.mpr ⟨hn, by simpa using hk⟩
    rw [if_neg h0, if_neg h0, if_neg (List.ne_nil_of_mem hmem)]

theorem setCipherList_unreadable {cs : List Str} (h : ¬ Readable T cs) :
    T.setCipherList (cipherArgument cs) = none := by
  obtain ⟨h0, hno⟩ := not_or.mp h
  have hnil : (requested cs).filter (T.known.contains ·) = [] := by
    rw [List.filter_eq_nil_iff]
    intro n hn hk
    exact hno ⟨n, hn, by simpa using hk⟩
  rw [setCipherList_requested, if_neg h0, if_pos hnil]

theorem constructor_outcome (T : CipherTable) (ctxNew : Bool) (errorString : Str) (s : St)
    (this options pkiEnv : Nat) :
    let o := s.optionsAt options
    let r := construct T.builtin (T.lib ctxNew errorString) s this options pkiEnv
    (r.1 = .ok ↔ o.minimumSupportedProtocolVersion.version.isSome ∧ ctxNew = true ∧ Readable T o.ciphers) ∧
      (r.1 = .ok → ∃ h, ctxOf r.2 this = some h ∧ (r.2.native h).cipherList = enabledCiphers T o.ciphers) ∧
      (r.1 ≠ .ok → (∃ e, r.1 = .threw e ∧ e.kind = .runtimeError) ∧ r.2.objs = s.objs) := by
  intro o r
  cases hv : o.minimumSupportedProtocolVersion.version with
  | none =>
    obtain ⟨e, hr, hkind⟩ := construct_unsupported T.builtin (T.lib ctxNew errorString) this pkiEnv hv
    have hr : r = (.threw e, s) := hr
    rw [hr]
    exact ⟨iff_of_false nofun nofun, nofun, fun _ => ⟨⟨e, rfl, hkind⟩, rfl⟩⟩
  | some v =>
    cases ctxNew with
    | false =>
      have hr : r = (raiseSSLError _ _, s) := construct_null hv rfl
      rw [hr]
      exact ⟨iff_of_false nofun nofun, nofun, fun _ => ⟨⟨_, rfl, rfl⟩, rfl⟩⟩
    | true =>
      have hr : construct T.builtin (T.lib true errorString) s this options pkiEnv = _ := construct_allocated hv rfl
      have hanswer : cipherAnswer (T.lib true errorString) o = T.setCipherList (cipherArgument o.ciphers) := rfl
      by_cases hread : Readable T o.ciphers
      · rw [hanswer, setCipherList_readable hread] at hr
        have hr : r = _ := hr
        rw [hr]
        refine ⟨iff_of_true rfl ⟨rfl, rfl, hread⟩, fun _ => ⟨s.next, ?_, ?_⟩, fun h => absurd rfl h⟩
        · simp [ctxOf_place]
        · simp
      · rw [hanswer, setCipherList_unreadable hread] at hr
        have hr : r = _ := hr
        rw [hr]
        exact ⟨iff_of_false nofun fun h => hread h.2.2, nofun, fun _ => ⟨⟨_, rfl, rfl⟩, rfl⟩⟩

end Iggy.Ssl
