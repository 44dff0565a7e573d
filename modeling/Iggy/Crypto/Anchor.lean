/-
  Iggy.Crypto.Anchor — the directory the lookups of a local store start from.

  It is fixed when the store is made. `getDefault()` makes its store, a function-local
  static, of the current directory at the first call that gets one: a constructor that
  throws leaves the static to be made by the next call (`Iggy.Lib.Once`).

  - `nested_stores_look_up_alike`: a store on `d / p` answers `q` as the store on `d`
    answers `p / q`, in every state of the file system, also where `p` or `q` is absolute,
    empty or climbs out.
  - `default_lookups_follow_iff`: every lookup of a default store is answered as a store made
    on the directory that is current then would answer it, whatever files there are, exactly
    if the program never leaves the directory where the default store came to be made, other
    than for absolute paths.
-/

import Iggy.Lib.Once
import Iggy.Crypto.LocalStore

namespace Iggy.Crypto

open Iggy.Filesystem
open Iggy.Lib.Run (after Steps steps_congr)
open Iggy.Lib.Once (fails)

/-! ## Nested directories -/

section Nested

variable (t : Texts)

/-- Only the current directory of the file system matters, and that for relative paths. -/
theorem storeDir_append {made made' : FileSystem} (hcwd : made.currentPath = made'.currentPath) (d p : Path) :
    storeDir made' (some (append d p)) = append (storeDir made (some d)) p := by
  have hsame : made.absolute d = made'.absolute d := by
    unfold FileSystem.absolute
    rw [hcwd]
  show made'.absolute (append d p) = append (made.absolute d) p
  rw [absolute_append, hsame]

theorem load_congr (fs : FileSystem) {store store' : LocalStore} {q q' : Str}
    (h : append store.dir q = append store'.dir q') : store.load t fs q = store'.load t fs q' := by
  unfold LocalStore.load
  rw [h]

theorem nested_load {made made' : FileSystem} (hcwd : made.currentPath = made'.currentPath) {d p : Path}
    {outer inner : LocalStore} (ho : LocalStore.new t made (some d) = .ok outer)
    (hi : LocalStore.new t made' (some (append d p)) = .ok inner) (fs : FileSystem) (q : Str) :
    inner.load t fs q = outer.load t fs (append p q) := by
  apply load_congr
  rw [new_dir t made ho, new_dir t made' hi, storeDir_append hcwd, append_assoc]

end Nested

/-- The stores may be made at different times, and the lookups at others. -/
theorem nested_stores_look_up_alike {made made' : FileSystem} (hcwd : made.currentPath = made'.currentPath)
    (fs : FileSystem) (d p : Path) (q : Str) :
    (∀ outer inner, LocalCertificateStore.new made (some d) = .ok outer →
      LocalCertificateStore.new made' (some (append d p)) = .ok inner →
      LocalCertificateStore.getCertificate fs inner q = LocalCertificateStore.getCertificate fs outer (append p q)) ∧
    (∀ outer inner, LocalKeyStore.new made (some d) = .ok outer →
      LocalKeyStore.new made' (some (append d p)) = .ok inner →
      LocalKeyStore.getPrivateKey fs inner q = LocalKeyStore.getPrivateKey fs outer (append p q)) :=
  ⟨fun _ _ ho hi => nested_load _ hcwd ho hi fs q, fun _ _ ho hi => nested_load _ hcwd ho hi fs q⟩

/-- `certs/eu` asked for `../ca.pem`, and `certs` for `eu/../ca.pem`. -/
theorem a_nested_store_climbs :
    LocalCertificateStore.getCertificate openAll ⟨str "/srv/certs/eu", rfl⟩ (str "../ca.pem") =
      LocalCertificateStore.getCertificate openAll certs (str "eu/../ca.pem") := by
  have hcwd : openAll.currentPath = openAll.currentPath := rfl
  have h := (nested_stores_look_up_alike hcwd openAll (str "certs") (str "eu") (str "../ca.pem")).1
  exact h certs ⟨str "/srv/certs/eu", rfl⟩ rfl rfl

/-! ## The default stores -/

section Default

variable (t : Texts)

/-- A call of `getDefault()`, and the static after it. -/
def LocalStore.getDefault (instance_ : Option LocalStore) (fs : FileSystem) :
    Except Err LocalStore × Option LocalStore :=
  Iggy.Lib.Once.get (LocalStore.new t fs none) instance_

/-- A lookup in the default store: the file system it meets, and the path. -/
abbrev DefaultLookup := FileSystem × Str

def defaultLookup (instance_ : Option LocalStore) (l : DefaultLookup) : Lookup × Option LocalStore :=
  match LocalStore.getDefault t instance_ l.1 with
  | (.ok store, instance_) => (store.load t l.1 l.2, instance_)
  | (.error e, instance_) => (⟨.error e, none⟩, instance_)

/-- A store on the current directory. -/
def currentStore (fs : FileSystem) : LocalStore := ⟨fs.currentPath, fs.currentPath_absolute⟩

theorem storeDir_none (fs : FileSystem) : storeDir fs none = fs.currentPath := if_pos fs.currentPath_absolute

/-- The store the constructor makes of no directory. -/
theorem new_none {fs : FileSystem} {store : LocalStore} (h : LocalStore.new t fs none = .ok store) :
    store = currentStore fs := by
  have hdir : store.dir = fs.currentPath := (new_dir t fs h).trans (storeDir_none fs)
  cases store with
  | mk dir habs =>
    cases hdir
    rfl

/-- The store that answers the lookup, if it is to be had, answers the path as one on the
    directory that is current would, however the files stand: with the same bytes or the
    same exception and text, opening the same path. -/
def AnswersAsCurrent (instance_ : Option LocalStore) (l : DefaultLookup) : Prop :=
  ∀ store, (LocalStore.getDefault t instance_ l.1).1 = .ok store →
    ∀ fs, store.load t fs l.2 = (currentStore l.1).load t fs l.2

/-- Where nothing exists, the exception names the file that was asked for. -/
def noFiles : FileSystem where
  currentPath := str "/"
  currentPath_absolute := rfl
  existsAt := fun _ => .ok false
  directoryAt := fun _ => .ok false
  contentAt := fun _ => none

theorem load_eq_iff (store store' : LocalStore) (q : Str) :
    (∀ fs, store.load t fs q = store'.load t fs q) ↔ append store.dir q = append store'.dir q := by
  refine ⟨fun h => ?_, fun h fs => load_congr t fs h⟩
  have hmissing : (.error ⟨.invalidArgument, t.fileMissing ++ append store.dir q⟩ : Except Err (List UInt8)) =
      .error ⟨.invalidArgument, t.fileMissing ++ append store'.dir q⟩ := congrArg Lookup.result (h noFiles)
  exact List.append_cancel_left (congrArg Err.what (Except.error.inj hmissing))

/-- The directory as it stands before a relative path. -/
def stem (d : Path) : Str := d ++ separator d

theorem append_eq_iff (d d' p : Path) : append d p = append d' p ↔ isAbsolute p = true ∨ stem d = stem d' := by
  cases hp : isAbsolute p with
  | true => exact iff_of_true (by rw [append_absolute d hp, append_absolute d' hp]) (Or.inl rfl)
  | false =>
    rw [append_relative d hp, append_relative d' hp, ← List.append_assoc, ← List.append_assoc]
    exact ⟨fun h => Or.inr (List.append_cancel_right h), fun h => congrArg (· ++ p) (h.resolve_left nofun)⟩

/-- From the first lookup that gets a store on, the current directory is the same, up to a
    separator at its end, at every lookup of a relative path. -/
def StaysPut (ls : List DefaultLookup) : Prop :=
  ∀ first rest, ls.dropWhile (fun l => fails (LocalStore.new t l.1 none)) = first :: rest →
    ∀ l ∈ rest, isAbsolute l.2 = true ∨ stem first.1.currentPath = stem l.1.currentPath

theorem after_defaultLookup :
    after (defaultLookup t) = after (Iggy.Lib.Once.use fun l : DefaultLookup => LocalStore.new t l.1 none) := by
  funext instance_ l
  unfold after defaultLookup LocalStore.getDefault Iggy.Lib.Once.use
  simp only
  split <;> rename_i h <;> rw [h]

/-- A store made where `first` met the file system, asked what `l` asks. -/
theorem answers_iff {first l : DefaultLookup} {store : LocalStore} (hnew : LocalStore.new t first.1 none = .ok store) :
    (∀ fs, store.load t fs l.2 = (currentStore l.1).load t fs l.2) ↔
      isAbsolute l.2 = true ∨ stem first.1.currentPath = stem l.1.currentPath := by
  rw [load_eq_iff, new_none t hnew]
  exact append_eq_iff first.1.currentPath l.1.currentPath l.2

theorem answersAsCurrent_iff (ls : List DefaultLookup) :
    Steps (after (defaultLookup t)) (AnswersAsCurrent t) none ls ↔ StaysPut t ls := by
  rw [after_defaultLookup]
  have hrun := Iggy.Lib.Once.uses_iff (fun l : DefaultLookup => LocalStore.new t l.1 none)
    (fun store l => ∀ fs, store.load t fs l.2 = (currentStore l.1).load t fs l.2) ls
  refine Iff.trans hrun ?_
  constructor
  · intro h first rest heq l hl
    -- the first lookup that does not fail is given a store
    have hfirst : fails (LocalStore.new t first.1 none) = false := by
      have hhead := List.head?_dropWhile_not (fun l : DefaultLookup => fails (LocalStore.new t l.1 none)) ls
      rw [heq] at hhead
      exact hhead
    cases hnew : LocalStore.new t first.1 none with
    | error e =>
      rw [hnew] at hfirst
      cases hfirst
    | ok store => exact (answers_iff t hnew).mp (h first rest store heq hnew l (List.mem_cons_of_mem first hl))
  · intro h first rest store heq hnew
    rw [List.forall_mem_cons]
    exact ⟨(answers_iff t hnew).mpr (Or.inr rfl), fun l hl => (answers_iff t hnew).mpr (h first rest heq l hl)⟩

end Default

theorem default_lookups_follow_iff (ls : List DefaultLookup) :
    (Steps (after (defaultLookup LocalCertificateStore.texts)) (AnswersAsCurrent LocalCertificateStore.texts) none ls ↔
      StaysPut LocalCertificateStore.texts ls) ∧
    (Steps (after (defaultLookup LocalKeyStore.texts)) (AnswersAsCurrent LocalKeyStore.texts) none ls ↔
      StaysPut LocalKeyStore.texts ls) :=
  ⟨answersAsCurrent_iff _ ls, answersAsCurrent_iff _ ls⟩

/-- Made in `/srv`, and asked from `/opt`. -/
example : (defaultLookup LocalKeyStore.texts (some ⟨str "/srv", rfl⟩)
    ({ openAll with currentPath := str "/opt", currentPath_absolute := rfl }, str "key.pem")).1.opened =
      some (str "/srv/key.pem") := rfl

end Iggy.Crypto
