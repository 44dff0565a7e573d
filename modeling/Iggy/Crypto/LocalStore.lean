/-
  Iggy.Crypto.LocalStore — the stores that load certificates and private keys from the
  local file system (sdk/net/crypto/crypto.h, crypto.cc).

  `LocalCertificateStore` and `LocalKeyStore` have the same two bodies but for the texts of
  their exceptions. A lookup is its result and the path of the file it opened, if it did: a
  file that opens and cannot be read was opened too. `current_path()` and `absolute` do not
  throw here (`Iggy.StdFilesystem`).

  - `load_cases`: a lookup opens the C view of directory / path, or, where nothing exists
    there or no stream opens, throws.
  - `lookups_contained_iff`: a lookup throws without opening a file, or stays inside the
    directory, exactly if there is nothing to open or the path leads back inside: an
    absolute path from the root, a relative one from where its `..` have climbed
    (`leadsInside_of_no_up`: without `..` it does).
  - `lookups_leave_the_directory`: paths of both kinds that do not.
-/

import Iggy.StdFilesystem

namespace Iggy.Crypto

open Iggy.Filesystem
open Iggy.Lib.Path

/-! ## The bodies -/

/-- What a store's exceptions say before the path. -/
structure Texts where
  directoryMissing : Str
  directoryInvalid : Str
  fileMissing : Str
  openFailed : Str
  fileEmpty : Str

structure LocalStore where
  dir : Path
  absolute : isAbsolute dir = true

structure Lookup where
  result : Except Err (List UInt8)
  opened : Option Str

variable (t : Texts) (fs : FileSystem)

/-- The directory a store is given, or the current one, made absolute. -/
def storeDir (dir : Option Path) : Path := make_preferred (fs.absolute (dir.getD fs.currentPath))

def LocalStore.new (dir : Option Path) : Except Err LocalStore := do
  let dirAbs := storeDir fs dir
  if !(← fs.exists_ dirAbs) then
    throw ⟨.invalidArgument, t.directoryMissing ++ dirAbs⟩
  else if !(← fs.is_directory dirAbs) then
    throw ⟨.invalidArgument, t.directoryInvalid ++ dirAbs⟩
  else
    return ⟨dirAbs, isAbsolute_absolute fs _⟩

def LocalStore.load (self : LocalStore) (path : Str) : Lookup :=
  let file := make_preferred (append self.dir path)
  match fs.exists_ file with
  | .error e => ⟨.error e, none⟩
  | .ok false => ⟨.error ⟨.invalidArgument, t.fileMissing ++ file⟩, none⟩
  | .ok true =>
    match fs.contentAt (cStr file) with
    | none => ⟨.error ⟨.runtimeError, t.openFailed ++ file⟩, none⟩
    | some (.error e) => ⟨.error e, some (cStr file)⟩
    | some (.ok []) => ⟨.error ⟨.runtimeError, t.fileEmpty ++ file⟩, some (cStr file)⟩
    | some (.ok data) => ⟨.ok data, some (cStr file)⟩

/-! ## The two stores -/

namespace LocalCertificateStore

def texts : Texts where
  directoryMissing := str "certificate directory does not exist: "
  directoryInvalid := str "certificate directory is not a valid directory: "
  fileMissing := str "certificate file does not exist: "
  openFailed := str "Failed to open certificate file: "
  fileEmpty := str "Invalid certificate file (empty): "

def new (certDir : Option Path) : Except Err LocalStore := LocalStore.new texts fs certDir

def getCertificate (self : LocalStore) (certPath : Str) : Lookup := self.load texts fs certPath

end LocalCertificateStore

namespace LocalKeyStore

def texts : Texts where
  directoryMissing := str "key directory does not exist: "
  directoryInvalid := str "key directory is not a valid directory: "
  fileMissing := str "private key file does not exist: "
  openFailed := str "Failed to open private key file: "
  fileEmpty := str "Invalid private key file (empty): "

def new (keyDir : Option Path) : Except Err LocalStore := LocalStore.new texts fs keyDir

def getPrivateKey (self : LocalStore) (keyPath : Str) : Lookup := self.load texts fs keyPath

end LocalKeyStore

/-! ## What they do -/

theorem new_dir {dir : Option Path} {store : LocalStore} (h : LocalStore.new t fs dir = .ok store) :
    store.dir = storeDir fs dir := by
  unfold LocalStore.new at h
  simp only at h
  cases he : fs.exists_ (storeDir fs dir) with
  | error e =>
    rw [he] at h
    cases h
  | ok there =>
    rw [he] at h
    cases there with
    | false => cases h
    | true =>
      cases hd : fs.is_directory (storeDir fs dir) with
      | error e =>
        rw [hd] at h
        cases h
      | ok isDir =>
        rw [hd] at h
        cases isDir with
        | false => cases h
        | true =>
          cases h
          rfl

/-- There is a file at the path and a stream opens on it. -/
def Opens (file : Path) : Prop := fs.exists_ file = .ok true ∧ (fs.contentAt (cStr file)).isSome

theorem load_cases (store : LocalStore) (path : Str) :
    (¬ Opens fs (append store.dir path) ∧ ∃ e, store.load t fs path = ⟨.error e, none⟩) ∨
    (Opens fs (append store.dir path) ∧ ∃ r, store.load t fs path = ⟨r, some (cStr (append store.dir path))⟩) := by
  unfold LocalStore.load Opens make_preferred
  simp only
  generalize append store.dir path = file
  cases fs.exists_ file with
  | error e => exact Or.inl ⟨by simp, e, rfl⟩
  | ok there =>
    cases there with
    | false => exact Or.inl ⟨by simp, _, rfl⟩
    | true =>
      cases fs.contentAt (cStr file) with
      | none => exact Or.inl ⟨by simp, _, rfl⟩
      | some data =>
        right
        refine ⟨⟨rfl, rfl⟩, ?_⟩
        rcases data with e | _ | ⟨b, bs⟩
        · exact ⟨_, rfl⟩
        · exact ⟨_, rfl⟩
        · exact ⟨_, rfl⟩

/-! ## Inside the directory -/

/-- It threw and opened nothing, or what it opened lies at or below the directory. -/
def Lookup.Contained (l : Lookup) (dir : Path) : Prop :=
  (l.opened = none ∧ ∃ e, l.result = .error e) ∨ ∃ file, l.opened = some file ∧ resolved (cStr dir) <+: resolved file

/-- The path leads into the directory: an absolute one by itself; a relative one if the
    names left of it begin with those of the directory its `..` have left. (Behind a NUL in
    the directory's own path the system sees no path at all.) -/
def LeadsInside (dir path : Path) : Prop :=
  if isAbsolute path then resolved (cStr dir) <+: resolved (cStr path)
  else
    let names := resolved (cStr dir)
    let r := route (components (cStr path))
    0 ∈ dir ∨ names.drop (names.length - r.ups) <+: r.names

instance (dir path : Path) : Decidable (LeadsInside dir path) := by
  unfold LeadsInside
  infer_instance

theorem leadsInside_iff (dir path : Path) :
    LeadsInside dir path ↔ resolved (cStr dir) <+: resolved (cStr (append dir path)) := by
  unfold LeadsInside
  by_cases ha : isAbsolute path = true
  · rw [if_pos ha, append, if_pos ha]
  · have ha' : isAbsolute path = false := by simpa using ha
    rw [if_neg ha, cStr_append dir ha']
    simp only
    by_cases h0 : 0 ∈ dir
    · rw [if_pos h0]
      exact ⟨fun _ => List.prefix_refl _, fun _ => Or.inl h0⟩
    · have hpath : isAbsolute (cStr path) = false := by rw [isAbsolute_cStr, ha']
      rw [if_neg h0, cStr_eq_self h0, resolved_append dir hpath, within_iff]
      exact ⟨fun h => h.resolve_left h0, Or.inr⟩

/-- In particular a relative path without `..`. -/
theorem leadsInside_of_no_up (dir : Path) {path : Path} (hr : isAbsolute path = false)
    (h : Comp.up ∉ components (cStr path)) : LeadsInside dir path := by
  rw [leadsInside_iff, cStr_append dir hr]
  split
  · exact List.prefix_refl _
  · rename_i h0
    rw [cStr_eq_self h0, resolved_append dir (by rw [isAbsolute_cStr, hr])]
    exact within_of_no_up _ h

theorem load_contained_iff (store : LocalStore) (path : Str) :
    (store.load t fs path).Contained store.dir ↔ ¬ Opens fs (append store.dir path) ∨ LeadsInside store.dir path := by
  rw [leadsInside_iff]
  rcases load_cases t fs store path with ⟨hno, e, he⟩ | ⟨hopen, r, hr⟩
  · rw [he]
    exact ⟨fun _ => Or.inl hno, fun _ => Or.inl ⟨rfl, e, rfl⟩⟩
  · rw [hr]
    constructor
    · intro h
      rcases h with ⟨h, -⟩ | ⟨file, h, hin⟩
      · cases h
      · cases h
        exact Or.inr hin
    · intro h
      exact Or.inr ⟨_, rfl, h.resolve_left fun hno => hno hopen⟩

/-- The file system may have changed since the store was made. -/
theorem lookups_contained_iff (made fs : FileSystem) (dir : Option Path) (path : Str) :
    (∀ store, LocalCertificateStore.new made dir = .ok store →
      ((LocalCertificateStore.getCertificate fs store path).Contained (storeDir made dir) ↔
        ¬ Opens fs (append (storeDir made dir) path) ∨ LeadsInside (storeDir made dir) path)) ∧
    (∀ store, LocalKeyStore.new made dir = .ok store →
      ((LocalKeyStore.getPrivateKey fs store path).Contained (storeDir made dir) ↔
        ¬ Opens fs (append (storeDir made dir) path) ∨ LeadsInside (storeDir made dir) path)) := by
  refine ⟨fun store h => ?_, fun store h => ?_⟩
  · rw [← new_dir _ _ h]
    exact load_contained_iff _ fs store path
  · rw [← new_dir _ _ h]
    exact load_contained_iff _ fs store path

/-- A file system where every path exists, is a directory and reads as one byte. -/
def openAll : FileSystem where
  currentPath := str "/srv"
  currentPath_absolute := rfl
  existsAt := fun _ => .ok true
  directoryAt := fun _ => .ok true
  contentAt := fun _ => some (.ok [0])

def certs : LocalStore := ⟨str "/srv/certs", rfl⟩

theorem a_name_is_looked_up_inside :
    (LocalCertificateStore.getCertificate openAll certs (str "a/../cert.pem")).Contained (str "/srv/certs") ∧
    (LocalKeyStore.getPrivateKey openAll certs (str "../certs/key.pem")).Contained (str "/srv/certs") :=
  ⟨((lookups_contained_iff openAll openAll (some (str "certs")) (str "a/../cert.pem")).1 certs rfl).mpr
      (Or.inr (by decide)),
    ((lookups_contained_iff openAll openAll (some (str "certs")) (str "../certs/key.pem")).2 certs rfl).mpr
      (Or.inr (by decide))⟩

/-- `..` climbs out of the directory, and an absolute path takes its place. -/
theorem lookups_leave_the_directory :
    LocalCertificateStore.new openAll (some (str "certs")) = .ok certs ∧
    ¬ (LocalCertificateStore.getCertificate openAll certs (str "../key.pem")).Contained (str "/srv/certs") ∧
    ¬ (LocalKeyStore.getPrivateKey openAll certs (str "/etc/shadow")).Contained (str "/srv/certs") := by
  refine ⟨rfl, fun h => ?_, fun h => ?_⟩
  · rcases h with ⟨h, -⟩ | ⟨file, h, hin⟩
    · cases h
    · cases h
      revert hin
      decide
  · rcases h with ⟨h, -⟩ | ⟨file, h, hin⟩
    · cases h
    · cases h
      revert hin
      decide

end Iggy.Crypto
