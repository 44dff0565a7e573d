/-
  Iggy.Ssl.Ciphers — the cipher list on its way to wolfSSL.

  The constructor joins the requested names with `:`; wolfSSL takes the C view of the
  string and splits it at `:` again. A `CipherTable` is what a wolfSSL build knows: its
  names, none of them empty or with a `:` or a NUL in it, and its built-in default list.

  Proved: joining and splitting give back any list of names without `:` (`split_joined`),
  and a list of known names reaches wolfSSL as it is (`set_known`).
-/

import Iggy.Ssl.Context

namespace Iggy.Ssl

/-- The delimiter, `:`. -/
def colon : UInt8 := 58

theorem str_colon : str ":" = [colon] := rfl

theorem foldl_joined (c : Str) (cs : List Str) :
    cs.foldl (fun a b => a ++ str ":" ++ b) c = [colon].intercalate (c :: cs) := by
  induction cs generalizing c with
  | nil => simp
  | cons d ds ih =>
    rw [List.foldl_cons, ih, List.intercalate_cons_cons, str_colon]
    -- the accumulated text stays in front of whatever the rest joins to
    cases ds with
    | nil => simp
    | cons e es => simp [List.intercalate_cons_cons]

theorem joinedCiphers_eq (cs : List Str) : joinedCiphers cs = [colon].intercalate cs := by
  cases cs with
  | nil => rfl
  | cons c cs => exact foldl_joined c cs

theorem split_joined {cs : List Str} (h : ∀ c ∈ cs, colon ∉ c) (hne : cs ≠ []) :
    (joinedCiphers cs).splitOn colon = cs := by
  rw [joinedCiphers_eq, List.splitOn_intercalate colon h hne]

theorem mem_joined {cs : List Str} {b : UInt8} (h : b ∈ joinedCiphers cs) : b = colon ∨ ∃ c ∈ cs, b ∈ c := by
  rw [joinedCiphers_eq] at h
  induction cs with
  | nil => simp at h
  | cons c cs ih =>
    cases cs with
    | nil => exact Or.inr ⟨c, List.mem_cons_self, by simpa using h⟩
    | cons d ds =>
      rw [List.intercalate_cons_cons, List.append_assoc, List.mem_append, List.mem_append] at h
      rcases h with h | h | h
      · exact Or.inr ⟨c, List.mem_cons_self, h⟩
      · exact Or.inl (List.mem_singleton.mp h)
      · rcases ih h with h | ⟨e, he, hb⟩
        · exact Or.inl h
        · exact Or.inr ⟨e, List.mem_cons_of_mem _ he, hb⟩

/-- A name the joined string can carry. -/
def CipherName (n : Str) : Prop := n ≠ [] ∧ colon ∉ n

instance (n : Str) : Decidable (CipherName n) := inferInstanceAs (Decidable (_ ∧ _))

theorem joined_eq_nil_iff {cs : List Str} (h : ∀ n ∈ cs, CipherName n) : joinedCiphers cs = [] ↔ cs = [] := by
  constructor
  · intro hj
    apply Classical.byContradiction
    intro hne
    -- an empty string splits into one empty name, and no name is empty
    have hsplit := split_joined (fun n hn => (h n hn).2) hne
    rw [hj] at hsplit
    have hmem : ([] : Str) ∈ cs := by rw [← hsplit]; exact List.mem_singleton.mpr rfl
    exact (h [] hmem).1 rfl
  · intro hcs
    rw [hcs]
    rfl

theorem cStr_joined {cs : List Str} (h : ∀ n ∈ cs, 0 ∉ n) : cStr (joinedCiphers cs) = joinedCiphers cs := by
  apply cStr_eq_self
  intro h0
  rcases mem_joined h0 with h0 | ⟨n, hn, h0⟩
  · exact absurd h0 (by decide)
  · exact h n hn h0

/-! ## What wolfSSL makes of it -/

structure CipherTable where
  known : List Str
  builtin : List Str
  builtin_ne : builtin ≠ []
  builtin_known : ∀ n ∈ builtin, n ∈ known
  known_name : ∀ n ∈ known, n ≠ [] ∧ colon ∉ n ∧ 0 ∉ n

namespace CipherTable

variable (T : CipherTable)

/-- `wolfSSL_CTX_set_cipher_list`: the empty string enables the built-in list; any other
    the names it knows among those between the colons, failing if it knows none. -/
def setCipherList (list : Str) : Option (List Str) :=
  if list = [] then some T.builtin
  else
    let l := (list.splitOn colon).filter (T.known.contains ·)
    if l = [] then none else some l

/-- wolfSSL with this table. -/
def lib (ctxNew : Bool) (errorString : Str) : Lib := ⟨ctxNew, T.setCipherList, errorString⟩

variable {T}

/-- Whatever it enables, it knows, and it enables something. -/
theorem set_sound {list : Str} {l : List Str} (h : T.setCipherList list = some l) :
    l ≠ [] ∧ ∀ n ∈ l, n ∈ T.known := by
  unfold setCipherList at h
  split at h
  · cases h; exact ⟨T.builtin_ne, T.builtin_known⟩
  · simp only at h
    split at h
    · cases h
    · rename_i hne
      cases h
      refine ⟨hne, fun n hn => ?_⟩
      simpa using (List.mem_filter.mp hn).2

/-- A list of known names reaches wolfSSL whole and is enabled as it is. -/
theorem set_known {cs : List Str} (hne : cs ≠ []) (h : ∀ n ∈ cs, n ∈ T.known) :
    T.setCipherList (cipherArgument cs) = some cs := by
  have hname : ∀ n ∈ cs, CipherName n := fun n hn => ⟨(T.known_name n (h n hn)).1, (T.known_name n (h n hn)).2.1⟩
  have hnul : cipherArgument cs = joinedCiphers cs := cStr_joined fun n hn => (T.known_name n (h n hn)).2.2
  have hnil : joinedCiphers cs ≠ [] := fun h0 => hne ((joined_eq_nil_iff hname).mp h0)
  have hsplit := split_joined (fun n hn => (hname n hn).2) hne
  have hfilter : cs.filter (T.known.contains ·) = cs :=
    List.filter_eq_self.mpr fun n hn => by simpa using h n hn
  simp only [setCipherList, hnul, hnil, if_false, hsplit, hfilter, hne]

end CipherTable

end Iggy.Ssl
