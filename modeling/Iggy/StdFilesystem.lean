/-
  Iggy.StdFilesystem — the functions of `<filesystem>` and `<fstream>` the client calls,
  on POSIX.

  A path is its native string. The operating system gets the C view of it, and is a
  parameter: whether a path exists and is a directory, and what a stream opened on it
  reads. A status that cannot be determined is an exception, and so is a read that fails
  once the stream is open, as that of a directory does. Left out are a `current_path()` that
  throws and an `absolute` that refuses the empty path, as some libraries' does: no store is
  then made.

  Proved: appending is associative (`append_assoc`); a path appended to another resolves to
  the walk of its components from where the other does (`resolved_append`), and what the
  system sees of it (`cStr_append`).
-/

import Iggy.Basic
import Iggy.Lib.Path

namespace Iggy.Filesystem

open Iggy.Lib.Path

abbrev Path := Str

def slash : UInt8 := 47

def isAbsolute (p : Path) : Bool := p.head? == some slash

/-- What parts `x` from a path appended to it: nothing if `x` has no file name to end. -/
def separator (x : Path) : Str := if x = [] ∨ x.getLast? = some slash then [] else [slash]

/-- `x / y`. -/
def append (x y : Path) : Path := if isAbsolute y then y else x ++ (separator x ++ y)

theorem append_relative (x : Path) {y : Path} (hy : isAbsolute y = false) : append x y = x ++ (separator x ++ y) := by
  unfold append
  rw [if_neg (by simp [hy])]

structure FileSystem where
  currentPath : Path
  currentPath_absolute : isAbsolute currentPath = true
  existsAt : Str → Except Err Bool
  directoryAt : Str → Except Err Bool
  /-- What a stream opened on the file reads, or how reading fails; `none` where it does not
      open. -/
  contentAt : Str → Option (Except Err (List UInt8))

namespace FileSystem

variable (fs : FileSystem) (p : Path)

/-- `std::filesystem::exists`. -/
def exists_ : Except Err Bool := fs.existsAt (cStr p)

def is_directory : Except Err Bool := fs.directoryAt (cStr p)

def absolute : Path := if isAbsolute p then p else append fs.currentPath p

end FileSystem

/-- POSIX has one separator, the preferred one. -/
def make_preferred (p : Path) : Path := p

/-! ## Absolute paths -/

theorem isAbsolute_append {x : Path} (hx : isAbsolute x = true) (y : Path) : isAbsolute (append x y) = true := by
  unfold append
  split
  · assumption
  · cases x with
    | nil => cases hx
    | cons b bs => exact hx

theorem isAbsolute_absolute (fs : FileSystem) (p : Path) : isAbsolute (fs.absolute p) = true := by
  unfold FileSystem.absolute
  split
  · assumption
  · exact isAbsolute_append fs.currentPath_absolute p

theorem isAbsolute_cStr (p : Path) : isAbsolute (cStr p) = isAbsolute p := by
  cases p with
  | nil => rfl
  | cons b bs =>
    by_cases hb : b = 0
    · subst hb
      rfl
    · simp [isAbsolute, cStr, hb]

/-! ## Appending -/

theorem append_absolute (x : Path) {y : Path} (hy : isAbsolute y = true) : append x y = y := by
  unfold append
  rw [if_pos hy]

theorem isAbsolute_append_relative {y z : Path} (hy : isAbsolute y = false) (hz : isAbsolute z = false) :
    isAbsolute (append y z) = false := by
  rw [append_relative y hz]
  cases y with
  | nil => exact hz
  | cons b bs => exact hy

theorem separator_append_cons (x : Path) (b : UInt8) (bs : Str) : separator (x ++ b :: bs) = separator (b :: bs) := by
  have hlast : (x ++ b :: bs).getLast? = (b :: bs).getLast? := List.getLast?_append_cons x b bs
  unfold separator
  rw [hlast]
  simp

/-- What is appended ends the path, or, if empty, has ended it with a separator. -/
theorem separator_append (x y : Path) : separator (x ++ (separator x ++ y)) = separator y := by
  cases y with
  | cons b bs => rw [← List.append_assoc, separator_append_cons]
  | nil =>
    rw [List.append_nil]
    unfold separator
    by_cases h : x = [] ∨ x.getLast? = some slash
    · rw [if_pos h, List.append_nil, if_pos h, if_pos (Or.inl rfl)]
    · rw [if_neg h, if_pos (Or.inl rfl), if_pos]
      exact Or.inr (by simp)

theorem append_assoc (x y z : Path) : append (append x y) z = append x (append y z) := by
  cases hz : isAbsolute z with
  | true => rw [append_absolute _ hz, append_absolute _ hz, append_absolute _ hz]
  | false =>
    cases hy : isAbsolute y with
    | true => rw [append_absolute x hy, append_absolute x (isAbsolute_append hy z)]
    | false =>
      have hyz := isAbsolute_append_relative hy hz
      rw [append_relative x hyz, append_relative _ hz, append_relative y hz, append_relative x hy, separator_append]
      simp only [List.append_assoc]

theorem absolute_append (fs : FileSystem) (x y : Path) : fs.absolute (append x y) = append (fs.absolute x) y := by
  unfold FileSystem.absolute
  cases hy : isAbsolute y with
  | true => rw [append_absolute x hy, if_pos hy, append_absolute _ hy]
  | false =>
    by_cases hx : isAbsolute x = true
    · rw [if_pos (isAbsolute_append hx y), if_pos hx]
    · have hxy := isAbsolute_append_relative (by simpa using hx) hy
      rw [if_neg hx, if_neg (by simp [hxy]), append_assoc]

/-! ## Components -/

def component (c : Str) : Comp Str :=
  if c = str "." then .here
  else if c = str ".." then .up
  else .name c

/-- Empty components, of repeated and of trailing separators, name nothing. -/
def components (p : Path) : List (Comp Str) := ((p.splitOn slash).filter (· ≠ [])).map component

/-- The names from the root to the place an absolute path names. -/
def resolved (p : Path) : List Str := resolve (components p)

theorem components_separated (a b : Path) : components (a ++ slash :: b) = components a ++ components b := by
  unfold components
  rw [List.splitOn_append_cons_self, List.filter_append, List.map_append]

theorem components_append (x : Path) {y : Path} (hy : isAbsolute y = false) :
    components (append x y) = components x ++ components y := by
  rw [append_relative x hy]
  unfold separator
  split
  · rename_i h
    rcases h with rfl | h
    · rfl
    · -- the separator `x` ends with parts them
      obtain ⟨a, rfl⟩ := List.getLast?_eq_some_iff.mp h
      have ha : components (a ++ [slash]) = components a := by
        rw [components_separated]
        exact List.append_nil _
      rw [ha, List.nil_append, List.append_assoc]
      exact components_separated a y
  · exact components_separated x y

theorem resolved_append (x : Path) {y : Path} (hy : isAbsolute y = false) :
    resolved (append x y) = walk (resolved x) (components y) := by
  unfold resolved
  rw [components_append x hy, resolve_append]

/-! ## The C view -/

theorem nul_notMem_separator (x : Path) : 0 ∉ separator x := by
  unfold separator
  split
  · exact List.not_mem_nil
  · decide

theorem cStr_append (x : Path) {y : Path} (hy : isAbsolute y = false) :
    cStr (append x y) = if 0 ∈ x then cStr x else append x (cStr y) := by
  have hy' : isAbsolute (cStr y) = false := by rw [isAbsolute_cStr, hy]
  rw [append_relative x hy, append_relative x hy']
  by_cases h0 : 0 ∈ x
  · rw [if_pos h0, cStr_append_of_mem h0]
  · rw [if_neg h0, cStr_append_of_notMem h0, cStr_append_of_notMem (nul_notMem_separator x)]

end Iggy.Filesystem
