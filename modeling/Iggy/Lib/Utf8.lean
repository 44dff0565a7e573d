/-
  Iggy.Lib.Utf8 — UTF-8 in a string of bytes.

  A string is read from the front as pieces: a code point where one is encoded, and
  otherwise a bad byte. It is well formed when no piece is bad. A repair of it keeps its
  code points and puts, for each group of bad bytes, a few code points `q` (at least one,
  at most one a byte).

  - `pieces_append`: a code point is read wherever one is encoded.
  - `wellFormed_iff`: a string is well formed exactly when it has no bad piece.
  - `cut_wellFormed`: a string is well formed exactly when its bytes before the first NUL
    and those from there on are.
  - `IsRepair.wellFormed`, `IsRepair.eq_self`, `IsRepair.nul_mem`: a repair is well formed,
    changes nothing in a well-formed string, and keeps every NUL.
-/

import Mathlib.Data.List.TakeWhile
import Mathlib.Data.UInt

namespace Iggy.Lib.Utf8

open String (utf8EncodeChar)

/-! ## Encoding -/

def encode (cs : List Char) : List UInt8 := cs.flatMap utf8EncodeChar

@[simp] theorem encode_nil : encode [] = [] := rfl

@[simp] theorem encode_cons (c : Char) (cs : List Char) : encode (c :: cs) = utf8EncodeChar c ++ encode cs := rfl

@[simp] theorem encode_append (cs ds : List Char) : encode (cs ++ ds) = encode cs ++ encode ds :=
  List.flatMap_append

def WellFormed (s : List UInt8) : Prop := ∃ cs, s = encode cs

theorem wellFormed_encode (cs : List Char) : WellFormed (encode cs) := ⟨cs, rfl⟩

theorem WellFormed.append {s t : List UInt8} (hs : WellFormed s) (ht : WellFormed t) : WellFormed (s ++ t) := by
  obtain ⟨cs, rfl⟩ := hs
  obtain ⟨ds, rfl⟩ := ht
  rw [← encode_append]
  exact wellFormed_encode (cs ++ ds)

theorem ofNat_eq_nul {n : Nat} : (0 : UInt8) = UInt8.ofNat n ↔ n % 256 = 0 := by
  rw [← UInt8.toNat_inj, UInt8.toNat_ofNat']
  simp [eq_comm]

theorem nul_mem_encodeChar {c : Char} : 0 ∈ utf8EncodeChar c ↔ c = '\x00' := by
  constructor
  · intro h
    have hc : c.val.toNat = 0 := by
      unfold utf8EncodeChar at h
      simp only at h
      split at h
      · simp only [List.mem_singleton, ofNat_eq_nul] at h
        omega
      · -- every byte of a longer encoding has its high bit set
        split at h
        · simp only [List.mem_cons, List.not_mem_nil, or_false, ofNat_eq_nul] at h
          omega
        · split at h
          · simp only [List.mem_cons, List.not_mem_nil, or_false, ofNat_eq_nul] at h
            omega
          · simp only [List.mem_cons, List.not_mem_nil, or_false, ofNat_eq_nul] at h
            omega
    exact Char.toNat_inj.mp hc
  · intro h
    subst h
    decide

theorem nul_mem_encode {cs : List Char} : 0 ∈ encode cs ↔ '\x00' ∈ cs := by
  simp only [encode, List.mem_flatMap, nul_mem_encodeChar]
  constructor
  · intro ⟨c, hc, h0⟩
    exact h0 ▸ hc
  · intro h
    exact ⟨'\x00', h, rfl⟩

/-! ## Reading -/

/-- The code point encoded at the front. -/
def first (s : List UInt8) : Option Char := s.toByteArray.utf8DecodeChar? 0

theorem first_iff {s : List UInt8} {c : Char} : first s = some c ↔ ∃ rest, s = utf8EncodeChar c ++ rest := by
  constructor
  · intro h
    obtain ⟨b, hb⟩ := ByteArray.exists_of_utf8DecodeChar?_eq_some h
    refine ⟨b.data.toList, List.toByteArray_inj.mp ?_⟩
    rw [hb, List.toByteArray_append]
    congr 1
    apply ByteArray.ext
    simp
  · intro ⟨rest, h⟩
    rw [first, h, List.toByteArray_append]
    exact ByteArray.utf8DecodeChar?_utf8EncodeChar_append

inductive Piece where
  | good (c : Char)
  | bad (b : UInt8)
  deriving DecidableEq, Repr

/-- `n` bytes are left of the code point read last. -/
def scan : Nat → List UInt8 → List Piece
  | _, [] => []
  | n + 1, _ :: s => scan n s
  | 0, b :: s =>
    match first (b :: s) with
    | some c => .good c :: scan (c.utf8Size - 1) s
    | none => .bad b :: scan 0 s

def pieces (s : List UInt8) : List Piece := scan 0 s

@[simp] theorem pieces_nil : pieces [] = [] := rfl

theorem scan_eq (n : Nat) (s : List UInt8) : scan n s = pieces (s.drop n) := by
  induction n generalizing s with
  | zero => rfl
  | succ n ih =>
    cases s with
    | nil => rfl
    | cons b s => exact ih s

theorem pieces_good (c : Char) (s : List UInt8) : pieces (utf8EncodeChar c ++ s) = .good c :: pieces s := by
  have hf : first (utf8EncodeChar c ++ s) = some c := first_iff.mpr ⟨s, rfl⟩
  obtain ⟨b, bs, hb⟩ := List.exists_cons_of_ne_nil (String.utf8EncodeChar_ne_nil (c := c))
  have hlen : c.utf8Size - 1 = bs.length := by
    rw [← String.length_utf8EncodeChar, hb]
    rfl
  rw [hb, List.cons_append] at hf ⊢
  simp only [pieces, scan, hf, hlen]
  rw [scan_eq, List.drop_left]
  rfl

theorem pieces_bad {b : UInt8} {s : List UInt8} (h : first (b :: s) = none) :
    pieces (b :: s) = .bad b :: pieces s := by
  simp only [pieces, scan, h]

/-- Reading a string piece by piece. -/
@[elab_as_elim]
theorem reading {motive : List UInt8 → Prop} (nil : motive [])
    (good : ∀ c s, motive s → motive (utf8EncodeChar c ++ s))
    (bad : ∀ b s, first (b :: s) = none → motive s → motive (b :: s)) (s : List UInt8) : motive s := by
  induction hn : s.length using Nat.strong_induction_on generalizing s with
  | _ n ih =>
    cases s with
    | nil => exact nil
    | cons b s =>
      cases hf : first (b :: s) with
      | none => exact bad b s hf (ih s.length (by simp only [List.length_cons] at hn; omega) s rfl)
      | some c =>
        obtain ⟨rest, hrest⟩ := first_iff.mp hf
        have hpos := c.utf8Size_pos
        have hlen : n = c.utf8Size + rest.length := by
          rw [← hn, hrest, List.length_append, String.length_utf8EncodeChar]
        rw [hrest]
        exact good c rest (ih rest.length (by omega) rest rfl)

theorem head_isUTF8FirstByte {c : Char} {x : UInt8} {m : List UInt8} (h : utf8EncodeChar c = x :: m) :
    x.IsUTF8FirstByte := by
  have hlen : 0 < (utf8EncodeChar c).length := by rw [h]; exact Nat.zero_lt_succ _
  have h0 : ((utf8EncodeChar c).get ⟨0, hlen⟩).IsUTF8FirstByte := UInt8.isUTF8FirstByte_getElem_utf8EncodeChar.mpr rfl
  simpa [h] using h0

/-- Only the first byte of an encoding can start one. -/
theorem eq_nil_of_isUTF8FirstByte {d : Char} {x : UInt8} {a m : List UInt8} (h : utf8EncodeChar d = a ++ x :: m)
    (hx : x.IsUTF8FirstByte) : a = [] := by
  have hlen : a.length < (utf8EncodeChar d).length := by
    rw [h, List.length_append, List.length_cons]
    omega
  have hget : ((utf8EncodeChar d).get ⟨a.length, hlen⟩).IsUTF8FirstByte := by simpa [h] using hx
  exact List.length_eq_zero_iff.mp (UInt8.isUTF8FirstByte_getElem_utf8EncodeChar.mp hget)

theorem whole_or_before {c d : Char} {a b t : List UInt8} (ha : a ≠ [])
    (h : utf8EncodeChar d ++ t = a ++ (utf8EncodeChar c ++ b)) :
    ∃ m, a = utf8EncodeChar d ++ m ∧ t = m ++ (utf8EncodeChar c ++ b) := by
  rcases List.append_eq_append_iff.mp h with ⟨m, hm, ht⟩ | ⟨m, hm, ht⟩
  · exact ⟨m, hm, ht⟩
  · -- `d` would end inside `c`, or where `c` starts
    cases m with
    | nil => exact ⟨[], by simpa using hm.symm, by simpa using ht.symm⟩
    | cons x m =>
      obtain ⟨y, ys, hy⟩ := List.exists_cons_of_ne_nil (String.utf8EncodeChar_ne_nil (c := c))
      rw [hy] at ht
      obtain ⟨hxy, -⟩ := List.cons_eq_cons.mp ht
      exact absurd (eq_nil_of_isUTF8FirstByte hm (hxy ▸ head_isUTF8FirstByte hy)) ha

/-- A code point is read wherever one is encoded. -/
theorem pieces_append (a : List UInt8) (c : Char) (b : List UInt8) :
    pieces (a ++ (utf8EncodeChar c ++ b)) = pieces a ++ .good c :: pieces b := by
  induction a using reading with
  | nil => exact pieces_good c b
  | good d a ih => rw [List.append_assoc, pieces_good, pieces_good, ih, List.cons_append]
  | bad x a hf ih =>
    have hx : first (x :: (a ++ (utf8EncodeChar c ++ b))) = none := by
      cases hd : first (x :: (a ++ (utf8EncodeChar c ++ b))) with
      | none => rfl
      | some d =>
        obtain ⟨t, ht⟩ := first_iff.mp hd
        obtain ⟨m, hm, -⟩ := whole_or_before (List.cons_ne_nil x a) ht.symm
        rw [first_iff.mpr ⟨m, hm⟩] at hf
        cases hf
    rw [List.cons_append, pieces_bad hx, pieces_bad hf, ih, List.cons_append]

theorem pieces_encode (cs : List Char) : pieces (encode cs) = cs.map .good := by
  induction cs with
  | nil => rfl
  | cons c cs ih => rw [encode_cons, pieces_good, ih, List.map_cons]

theorem pieces_encode_append (cs : List Char) (s : List UInt8) :
    pieces (encode cs ++ s) = cs.map .good ++ pieces s := by
  induction cs with
  | nil => rfl
  | cons c cs ih => rw [encode_cons, List.append_assoc, pieces_good, ih, List.map_cons, List.cons_append]

theorem wellFormed_of_good {s : List UInt8} (h : ∀ b, Piece.bad b ∉ pieces s) : WellFormed s := by
  induction s using reading with
  | nil => exact ⟨[], rfl⟩
  | good c s ih =>
    rw [pieces_good] at h
    have hs := ih fun b hb => h b (List.mem_cons_of_mem _ hb)
    have hc : WellFormed (utf8EncodeChar c) := ⟨[c], by simp⟩
    exact hc.append hs
  | bad b s hf ih =>
    rw [pieces_bad hf] at h
    exact absurd List.mem_cons_self (h b)

theorem wellFormed_iff {s : List UInt8} : WellFormed s ↔ ∀ b, Piece.bad b ∉ pieces s := by
  constructor
  · intro ⟨cs, h⟩ b hb
    rw [h, pieces_encode] at hb
    simp at hb
  · exact wellFormed_of_good

/-- Behind whole code points a string is read as by itself. -/
theorem wellFormed_append_iff {s t : List UInt8} (hs : WellFormed s) : WellFormed (s ++ t) ↔ WellFormed t := by
  obtain ⟨cs, rfl⟩ := hs
  rw [wellFormed_iff, wellFormed_iff, pieces_encode_append]
  simp

def Piece.bytes : Piece → List UInt8
  | .good c => utf8EncodeChar c
  | .bad b => [b]

/-- The pieces are those of the string. -/
theorem bytes_pieces (s : List UInt8) : (pieces s).flatMap Piece.bytes = s := by
  induction s using reading with
  | nil => rfl
  | good c s ih => rw [pieces_good, List.flatMap_cons, ih]; rfl
  | bad b s hf ih => rw [pieces_bad hf, List.flatMap_cons, ih]; rfl

def Piece.isGood : Piece → Bool
  | .good _ => true
  | .bad _ => false

instance (s : List UInt8) : Decidable (WellFormed s) :=
  decidable_of_iff ((pieces s).all Piece.isGood = true) (by
    rw [wellFormed_iff, List.all_eq_true]
    constructor
    · intro h b hb
      exact absurd (h _ hb) (by simp [Piece.isGood])
    · intro h p hp
      cases p with
      | good c => rfl
      | bad b => exact absurd hp (h b))

/-- Where the first bad byte is. -/
def firstBad (s : List UInt8) : Option Nat :=
  if WellFormed s then none else some (((pieces s).takeWhile Piece.isGood).flatMap Piece.bytes).length

theorem firstBad_eq_none {s : List UInt8} : firstBad s = none ↔ WellFormed s := by
  unfold firstBad
  split
  · simp [*]
  · simp [*]

/-! ## The first NUL -/

theorem takeWhile_encode (cs : List Char) :
    (encode cs).takeWhile (· != 0) = encode (cs.takeWhile (· != '\x00')) ∧
    (encode cs).dropWhile (· != 0) = encode (cs.dropWhile (· != '\x00')) := by
  induction cs with
  | nil => exact ⟨rfl, rfl⟩
  | cons c cs ih =>
    by_cases hc : c = '\x00'
    · subst hc
      exact ⟨rfl, rfl⟩
    · have hb : ∀ b ∈ utf8EncodeChar c, (b != 0) = true := by
        intro b hb
        have : b ≠ 0 := fun h0 => hc (nul_mem_encodeChar.mp (h0 ▸ hb))
        simpa using this
      have hc' : (c != '\x00') = true := by simpa using hc
      rw [encode_cons, List.takeWhile_append_of_pos hb, List.dropWhile_append_of_pos hb, ih.1, ih.2]
      simp only [List.takeWhile_cons, List.dropWhile_cons, hc', if_true, encode_cons, and_self]

theorem cut_wellFormed {s : List UInt8} :
    WellFormed s ↔ WellFormed (s.takeWhile (· != 0)) ∧ WellFormed (s.dropWhile (· != 0)) := by
  constructor
  · intro ⟨cs, h⟩
    rw [h, (takeWhile_encode cs).1, (takeWhile_encode cs).2]
    exact ⟨wellFormed_encode _, wellFormed_encode _⟩
  · intro ⟨hbefore, hafter⟩
    have h := hbefore.append hafter
    rwa [List.takeWhile_append_dropWhile] at h

theorem nul_mem_pieces {s : List UInt8} (h : 0 ∈ s) : Piece.good '\x00' ∈ pieces s := by
  obtain ⟨a, b, rfl⟩ := List.append_of_mem h
  have hp : pieces (a ++ 0 :: b) = pieces a ++ .good '\x00' :: pieces b := pieces_append a '\x00' b
  rw [hp]
  exact List.mem_append_right _ List.mem_cons_self

/-! ## Repairs -/

/-- The pieces with `q`s for the bad ones: at least one for a group of them, and at most
    one for each. -/
inductive Replaced (q : Char) : List Piece → List Char → Prop
  | nil : Replaced q [] []
  | good (c : Char) {ps cs} : Replaced q ps cs → Replaced q (.good c :: ps) (c :: cs)
  | bad (bs : List UInt8) (n : Nat) {ps cs} : 1 ≤ n → n ≤ bs.length → Replaced q ps cs →
      Replaced q (bs.map .bad ++ ps) (List.replicate n q ++ cs)

def IsRepair (q : Char) (s r : List UInt8) : Prop := ∃ cs, Replaced q (pieces s) cs ∧ r = encode cs

theorem IsRepair.wellFormed {q : Char} {s r : List UInt8} (h : IsRepair q s r) : WellFormed r := by
  obtain ⟨cs, -, hr⟩ := h
  exact ⟨cs, hr⟩

variable {q : Char} {ps : List Piece} {cs : List Char}

theorem Replaced.good_mem (h : Replaced q ps cs) {c : Char} (hc : .good c ∈ ps) : c ∈ cs := by
  induction h with
  | nil => cases hc
  | good d _ ih =>
    rcases List.mem_cons.mp hc with hc | hc
    · cases hc
      exact List.mem_cons_self
    · exact List.mem_cons_of_mem _ (ih hc)
  | bad bs n _ _ _ ih =>
    rcases List.mem_append.mp hc with hc | hc
    · simp at hc
    · exact List.mem_append_right _ (ih hc)

theorem Replaced.eq_of_good (h : Replaced q ps cs) {ds : List Char} (hp : ps = ds.map .good) : cs = ds := by
  induction h generalizing ds with
  | nil => exact (List.map_eq_nil_iff.mp hp.symm).symm
  | good c _ ih =>
    obtain ⟨d, ds, rfl, hd, hds⟩ := List.map_eq_cons_iff.mp hp.symm
    cases hd
    rw [ih hds.symm]
  | bad bs n h1 hn _ _ =>
    -- the group has a bad piece and `ds` gives none
    cases bs with
    | nil => simp at hn; omega
    | cons b bs => cases ds <;> simp at hp

theorem IsRepair.eq_self {s r : List UInt8} (h : IsRepair q s r) (hs : WellFormed s) : r = s := by
  obtain ⟨cs, hcs, rfl⟩ := h
  obtain ⟨ds, rfl⟩ := hs
  rw [pieces_encode] at hcs
  rw [hcs.eq_of_good rfl]

theorem IsRepair.nul_mem {s r : List UInt8} (h : IsRepair q s r) (h0 : 0 ∈ s) : 0 ∈ r := by
  obtain ⟨cs, hcs, rfl⟩ := h
  exact nul_mem_encode.mpr (hcs.good_mem (nul_mem_pieces h0))

theorem isRepair_self {s : List UInt8} (hs : WellFormed s) (q : Char) : IsRepair q s s := by
  obtain ⟨cs, rfl⟩ := hs
  refine ⟨cs, ?_, rfl⟩
  rw [pieces_encode]
  induction cs with
  | nil => exact .nil
  | cons c cs ih => exact .good c ih

/-! ## One `q` for each bad byte -/

def Piece.orElse (q : Char) : Piece → Char
  | .good c => c
  | .bad _ => q

def repair (q : Char) (s : List UInt8) : List UInt8 := encode ((pieces s).map (Piece.orElse q))

theorem replaced_each (q : Char) (ps : List Piece) : Replaced q ps (ps.map (Piece.orElse q)) := by
  induction ps with
  | nil => exact .nil
  | cons p ps ih =>
    cases p with
    | good c => exact .good c ih
    | bad b => exact .bad [b] 1 (by decide) (by simp) ih

theorem isRepair_repair (q : Char) (s : List UInt8) : IsRepair q s (repair q s) := ⟨_, replaced_each q (pieces s), rfl⟩

theorem length_repair {q : Char} (hq : q.utf8Size = 1) (s : List UInt8) : (repair q s).length = s.length := by
  have hpiece : ∀ p : Piece, (utf8EncodeChar (p.orElse q)).length = p.bytes.length := by
    intro p
    cases p with
    | good c => rfl
    | bad b => exact (String.length_utf8EncodeChar q).trans hq
  have hpieces : ∀ ps : List Piece, (encode (ps.map (Piece.orElse q))).length = (ps.flatMap Piece.bytes).length := by
    intro ps
    induction ps with
    | nil => rfl
    | cons p ps ih =>
      rw [List.map_cons, encode_cons, List.flatMap_cons, List.length_append, List.length_append, hpiece, ih]
  unfold repair
  rw [hpieces, bytes_pieces]

theorem nul_of_mem_repair {q : Char} (hq : q ≠ '\x00') {s : List UInt8} (h : 0 ∈ repair q s) : 0 ∈ s := by
  have hc : '\x00' ∈ (pieces s).map (Piece.orElse q) := nul_mem_encode.mp h
  obtain ⟨p, hp, hpc⟩ := List.mem_map.mp hc
  rw [← bytes_pieces s]
  apply List.mem_flatMap.mpr
  cases p with
  | good c => exact ⟨.good c, hp, nul_mem_encodeChar.mpr hpc⟩
  | bad b => exact absurd hpc hq

end Iggy.Lib.Utf8
