/-
  Iggy.Ssl.CipherString — the string the constructor makes of the requested names, read
  back.

  Names are joined by `:`; the empty string stands for no names. wolfSSL gets the C view of
  the string, which ends at the first NUL of a name.

  - `cipher_list_read_back`: splitting the joined string gives the list back, so two lists
    never join to one string, nor reach wolfSSL as one C string if no name has a NUL.
  - `default_names`: the names of the default list are such names.
  - `lists_that_differ_behind_a_nul`: two lists wolfSSL cannot tell apart.
-/

import Iggy.Ssl.Ciphers

namespace Iggy.Ssl

/-- The list a joined string stands for. -/
def splitCiphers (s : Str) : List Str := if s = [] then [] else s.splitOn colon

/-! ## Reading back -/

variable {cs ds : List Str}

theorem split_joinedCiphers (h : ∀ n ∈ cs, CipherName n) : splitCiphers (joinedCiphers cs) = cs := by
  unfold splitCiphers
  split
  · rename_i hj
    exact ((joined_eq_nil_iff h).mp hj).symm
  · rename_i hj
    have hne : cs ≠ [] := fun h0 => hj ((joined_eq_nil_iff h).mpr h0)
    exact split_joined (fun n hn => (h n hn).2) hne

theorem joinedCiphers_inj (hc : ∀ n ∈ cs, CipherName n) (hd : ∀ n ∈ ds, CipherName n)
    (h : joinedCiphers ds = joinedCiphers cs) : ds = cs := by
  rw [← split_joinedCiphers hd, h, split_joinedCiphers hc]

/-! ## The default names -/

theorem tls13_names (B : Build) : ∀ n ∈ tls13Ciphers B, CipherName n ∧ 0 ∉ n := by
  unfold tls13Ciphers
  cases B.aesGcm <;> cases B.sha384 <;> cases B.chachaPoly <;> decide

theorem tls12_names (B : Build) : ∀ n ∈ tls12Ciphers B, CipherName n ∧ 0 ∉ n := by
  unfold tls12Ciphers
  cases B.aesGcm <;> cases B.noRsa <;> cases B.sha384 <;> cases B.chachaPoly <;> decide

theorem default_names {B : Build} {v : ProtocolVersion} {l : List Str} (h : getDefaultCipherList B v = .ok l) :
    ∀ n ∈ l, CipherName n ∧ 0 ∉ n := by
  obtain ⟨hv, rfl, -⟩ := (getDefaultCipherList_ok_iff B v l).mp h
  cases v with
  | tlsv1_2 => exact tls12_names B
  | tlsv1_3 => exact tls13_names B
  | other code => cases hv

theorem cipher_list_read_back (cs : List Str) (h : ∀ n ∈ cs, CipherName n) :
    splitCiphers (joinedCiphers cs) = cs ∧ (joinedCiphers cs = [] ↔ cs = []) ∧
    (∀ ds, (∀ n ∈ ds, CipherName n) → joinedCiphers ds = joinedCiphers cs → ds = cs) ∧
    ((∀ n ∈ cs, 0 ∉ n) → ∀ ds, (∀ n ∈ ds, CipherName n ∧ 0 ∉ n) → cipherArgument ds = cipherArgument cs → ds = cs) ∧
    ∀ B v l, getDefaultCipherList B v = .ok l → ∀ n ∈ l, CipherName n ∧ 0 ∉ n := by
  refine ⟨split_joinedCiphers h, joined_eq_nil_iff h, fun ds hd => joinedCiphers_inj h hd, fun h0 ds hd heq => ?_,
    fun B v l hl => default_names hl⟩
  unfold cipherArgument at heq
  rw [cStr_joined h0, cStr_joined fun n hn => (hd n hn).2] at heq
  exact joinedCiphers_inj h (fun n hn => (hd n hn).1) heq

theorem three_names_are_read_back :
    splitCiphers (joinedCiphers [str "A", str "B-C", str "A"]) = [str "A", str "B-C", str "A"] :=
  (cipher_list_read_back [str "A", str "B-C", str "A"] (by decide)).1

/-- `A`, a NUL and `B`, or `C`: wolfSSL gets `A` both times. -/
theorem lists_that_differ_behind_a_nul :
    (∀ n ∈ [[65, 0, 66]], CipherName n) ∧ (∀ n ∈ [[65, 0, 67]], CipherName n) ∧
      cipherArgument [[65, 0, 66]] = cipherArgument [[65, 0, 67]] ∧ [[65, 0, 66]] ≠ ([[65, 0, 67]] : List Str) := by
  refine ⟨by decide, by decide, rfl, by decide⟩

end Iggy.Ssl
