import CssSort.Directory
import Mathlib.Data.List.Basic

/-! Writing into a directory. Files get new contents by name, and all paths still lead
where they led. So what was written is read again under every path to the same file,
what is read elsewhere is what was there, and writes to several files together are one
change of the directory. A path from the root leads where the path from the directory
leads. -/
namespace CssSort

/-- A file with its new contents, if it has some. -/
def Entry.update (new : Option Bytes) : Entry → Entry
  | file old => file (new.getD old)
  | folder => folder

namespace Directory

/-- The contents of the file with this name. -/
def file? (directory : Directory) (name : String) : Option Bytes :=
  match directory.entries.lookup name with
  | some (.file contents) => some contents
  | _ => none

/-- Gives entries new contents by name. -/
def overwrite (directory : Directory) (new : String → Option Bytes) : Directory :=
  { directory with
    entries := directory.entries.map fun (name, entry) =>
      (name, ((new name).map Entry.file).getD entry) }

/-- Nothing but files gets new contents. -/
def KeepsFolders (directory : Directory) (new : String → Option Bytes) : Prop :=
  ∀ name, (new name).isSome = true → (directory.file? name).isSome = true

variable {directory : Directory} {new : String → Option Bytes}

theorem file?_eq_some_iff {name : String} {contents : Bytes} :
    directory.file? name = some contents ↔
      directory.entries.lookup name = some (.file contents) := by
  unfold file?
  split <;> simp_all

theorem overwrite_none : directory.overwrite (fun _ => none) = directory := by
  simp [overwrite]

theorem overwrite_overwrite (first second : String → Option Bytes) :
    (directory.overwrite first).overwrite second =
      directory.overwrite fun name => (second name).or (first name) := by
  simp only [overwrite, List.map_map, Directory.mk.injEq, and_true]
  apply List.map_congr_left
  rintro ⟨name, entry⟩ -
  cases later : second name <;> simp [later]

theorem lookup_overwrite (name : String) :
    (directory.overwrite new).entries.lookup name =
      (directory.entries.lookup name).map fun entry => ((new name).map Entry.file).getD entry := by
  simp only [overwrite]
  induction directory.entries with
  | nil => rfl
  | cons entry entries ih =>
    obtain ⟨other, entry⟩ := entry
    simp only [List.map_cons, List.lookup_cons]
    cases same : name == other with
    | true =>
      obtain rfl := beq_iff_eq.mp same
      rfl
    | false => exact ih

theorem file?_overwrite (files : directory.KeepsFolders new) (name : String) :
    (directory.overwrite new).file? name = (new name).or (directory.file? name) := by
  cases changed : new name with
  | none => simp [file?, lookup_overwrite, changed]
  | some contents =>
    obtain ⟨old, known⟩ := Option.isSome_iff_exists.mp (files name (by simp [changed]))
    rw [file?_eq_some_iff] at known
    simp [file?, lookup_overwrite, changed, known]

theorem member?_cons (directory : Directory) (first : String) (names : List String) :
    directory.member? (first :: names) =
      (directory.entries.lookup (entryName (first :: names))).or
        (if directory.entries.any fun (other, _) =>
            (entryName (first :: names) ++ "/").toList.isPrefixOf other.toList then
          some .folder
        else none) := by
  simp only [member?]
  cases directory.entries.lookup (entryName (first :: names)) <;> rfl

theorem member?_eq_file_iff {first : String} {names : List String} {contents : Bytes} :
    directory.member? (first :: names) = some (.file contents) ↔
      directory.file? (entryName (first :: names)) = some contents := by
  rw [file?_eq_some_iff, member?_cons]
  cases directory.entries.lookup (entryName (first :: names)) with
  | none =>
    rw [Option.none_or]
    split <;> simp
  | some entry => rfl

theorem atPlace?_eq_file_iff {place : List String} {contents : Bytes} :
    directory.atPlace? place = some (.file contents) ↔
      ∃ name, directory.nameAt? place = some name ∧ directory.file? name = some contents := by
  simp only [atPlace?, nameAt?]
  cases directory.home.isPrefixOf? place with
  | none =>
    dsimp only
    split <;> simp
  | some names =>
    cases names with
    | nil => simp [member?]
    | cons first names => simp [member?_eq_file_iff]

/-- A path can be read if it leads to a file, and all paths to one file read the same. -/
theorem read_eq_ok_iff {path : String} {contents : Bytes} :
    directory.read path = .ok contents ↔
      ∃ name, directory.target? path = some name ∧ directory.file? name = some contents := by
  simp only [read, target?]
  cases directory.locate path with
  | error fault => simp
  | ok place =>
    rw [← atPlace?_eq_file_iff]
    dsimp only
    split <;> simp_all

/-- Only a file that names lead to is changed. -/
theorem member?_overwrite (files : directory.KeepsFolders new) (first : String)
    (names : List String) :
    (directory.overwrite new).member? (first :: names) =
      (directory.member? (first :: names)).map
        (Entry.update (new (entryName (first :: names)))) := by
  have prefixes : ∀ text : List Char, (directory.overwrite new).entries.any
      (fun (other, _) => text.isPrefixOf other.toList) =
        directory.entries.any fun (other, _) => text.isPrefixOf other.toList := by
    intro text
    simp [overwrite, Function.comp_def]
  simp only [member?_cons, lookup_overwrite, prefixes]
  cases known : directory.entries.lookup (entryName (first :: names)) with
  | none =>
    simp only [Option.map_none, Option.none_or]
    split <;> rfl
  | some entry =>
    cases changed : new (entryName (first :: names)) with
    | none => cases entry <;> rfl
    | some contents =>
      have file := files _ (by rw [changed]; rfl)
      cases entry with
      | file old => rfl
      | folder => simp [file?, known] at file

/-- Only a file at a place of the directory is changed. -/
theorem atPlace?_overwrite (files : directory.KeepsFolders new) (place : List String) :
    (directory.overwrite new).atPlace? place =
      (directory.atPlace? place).map (Entry.update ((directory.nameAt? place).bind new)) := by
  have same : (directory.overwrite new).home = directory.home := rfl
  simp only [atPlace?, nameAt?, same]
  cases directory.home.isPrefixOf? place with
  | none =>
    dsimp only
    split <;> rfl
  | some names =>
    cases names with
    | nil => rfl
    | cons first names => exact member?_overwrite files first names

theorem isFolder_overwrite (files : directory.KeepsFolders new) (place : List String) :
    (directory.overwrite new).isFolder place = directory.isFolder place := by
  simp only [isFolder, atPlace?_overwrite files]
  cases directory.atPlace? place with
  | none => rfl
  | some entry => cases entry <;> rfl

theorem follow_overwrite (files : directory.KeepsFolders new) (place : List String)
    (part : List Char) :
    (directory.overwrite new).follow place part = directory.follow place part := by
  simp only [follow, atPlace?_overwrite files, Option.isSome_map]

/-- Writing does not change where a walk leads. -/
theorem walk_overwrite (files : directory.KeepsFolders new) (place : List String)
    (parts : List (List Char)) :
    (directory.overwrite new).walk place parts = directory.walk place parts := by
  induction parts generalizing place with
  | nil => rfl
  | cons part parts ih =>
    simp only [walk, isFolder_overwrite files, follow_overwrite files]
    split
    · split
      · rfl
      · exact ih _
    · rfl

theorem locate_overwrite (files : directory.KeepsFolders new) (path : String) :
    (directory.overwrite new).locate path = directory.locate path := by
  simp only [locate, walk_overwrite files]
  rfl

theorem target?_overwrite (files : directory.KeepsFolders new) (path : String) :
    (directory.overwrite new).target? path = directory.target? path := by
  simp only [target?, locate_overwrite files]
  rfl

/-- What is read after a change: the new contents of a file, if it has some. -/
theorem read_overwrite (files : directory.KeepsFolders new) (path : String) :
    (directory.overwrite new).read path = (directory.read path).map fun old =>
      ((directory.target? path).bind new).getD old := by
  simp only [read, locate_overwrite files, target?]
  cases directory.locate path with
  | error fault => rfl
  | ok place =>
    simp only [atPlace?_overwrite files]
    cases directory.atPlace? place with
    | none => rfl
    | some entry => cases entry <;> rfl

theorem exists_read_overwrite (files : directory.KeepsFolders new) {path : String} {old : Bytes}
    (readable : directory.read path = .ok old) :
    ∃ contents, (directory.overwrite new).read path = .ok contents :=
  ⟨_, by rw [read_overwrite files, readable]; rfl⟩

/-- One write is a change of one file. -/
theorem write_eq {path name : String} (target : directory.target? path = some name)
    (contents : Bytes) : directory.write path contents =
      directory.overwrite fun other => if other = name then some contents else none := by
  simp only [write, target, overwrite, Directory.mk.injEq, and_true]
  apply List.map_congr_left
  rintro ⟨other, entry⟩ -
  split <;> rfl

/-- Carries out writes in order. -/
def writeAll (directory : Directory) (writes : List (String × Bytes)) : Directory :=
  writes.foldl (fun current (path, contents) => current.write path contents) directory

/-- The new contents of files after a series of writes: the last write counts. -/
def written (directory : Directory) : List (String × Bytes) → String → Option Bytes
  | [], _ => none
  | (path, contents) :: writes, name =>
    (directory.written writes name).or
      (if directory.target? path = some name then some contents else none)

theorem written_congr {other : Directory}
    (same : ∀ path, other.target? path = directory.target? path) (writes : List (String × Bytes)) :
    other.written writes = directory.written writes := by
  induction writes with
  | nil => rfl
  | cons write writes ih =>
    funext name
    simp only [written, ih, same]

/-- A series of writes to files is one change of the directory. -/
theorem writeAll_eq {writes : List (String × Bytes)}
    (readable : ∀ write ∈ writes, ∃ old, directory.read write.1 = .ok old) :
    directory.writeAll writes = directory.overwrite (directory.written writes) := by
  unfold writeAll
  induction writes generalizing directory with
  | nil => exact overwrite_none.symm
  | cons write writes ih =>
    obtain ⟨path, contents⟩ := write
    obtain ⟨⟨old, first⟩, later⟩ := List.forall_mem_cons.mp readable
    obtain ⟨name, target, known⟩ := read_eq_ok_iff.mp first
    have files : directory.KeepsFolders fun other =>
        if other = name then some contents else none := by
      intro other changed
      obtain rfl : other = name := by simpa using changed
      simp [known]
    have rest : ∀ write ∈ writes,
        ∃ old, (directory.write path contents).read write.1 = .ok old := by
      intro write member
      obtain ⟨old, known⟩ := later write member
      rw [write_eq target]
      exact exists_read_overwrite files known
    rw [List.foldl_cons, ih rest, write_eq target, written_congr (target?_overwrite files),
      overwrite_overwrite]
    congr 1
    funext other
    simp only [written, target, Option.some.injEq, eq_comm]

section Root

/-- A name that a part of a path can be. -/
structure IsName (name : String) : Prop where
  filled : isStay name.toList = false
  climbless : isClimb name.toList = false
  short : name.utf8ByteSize ≤ nameLimit
  whole : '/' ∉ name.toList

/-- The path from the root to what a path leads to from the directory. -/
def absolute (directory : Directory) (path : String) : String :=
  "/" ++ String.join (directory.home.map (· ++ "/")) ++ path

theorem toList_absolute (path : String) :
    (directory.absolute path).toList =
      '/' :: (directory.home.flatMap (fun name => name.toList ++ ['/']) ++ path.toList) := by
  simp [absolute, String.toList_join, List.flatMap_def, List.map_map, Function.comp_def]

theorem pathParts_append {name : List Char} (whole : '/' ∉ name) (rest : List Char) :
    pathParts (name ++ '/' :: rest) = name :: pathParts rest := by
  induction name with
  | nil => rfl
  | cons char name ih =>
    obtain ⟨other, later⟩ : '/' ≠ char ∧ '/' ∉ name := by simpa using whole
    simp only [List.cons_append, pathParts, Ne.symm other, if_false, ih later]

theorem pathParts_names {names : List String} (named : ∀ name ∈ names, IsName name)
    (rest : List Char) :
    pathParts (names.flatMap (fun name => name.toList ++ ['/']) ++ rest) =
      names.map String.toList ++ pathParts rest := by
  induction names with
  | nil => rfl
  | cons name names ih =>
    obtain ⟨first, later⟩ := List.forall_mem_cons.mp named
    simp only [List.flatMap_cons, List.append_assoc, List.cons_append, List.nil_append,
      pathParts_append first.whole, ih later, List.map_cons]

/-- All that lies on the way from the root to the directory is a folder. -/
theorem isFolder_of_isPrefix {place : List String} (around : place <+: directory.home) :
    directory.isFolder place = true := by
  rw [isFolder, atPlace?]
  cases below : directory.home.isPrefixOf? place with
  | none => simp [around]
  | some names =>
    obtain rfl := List.isPrefixOf?_eq_some_iff_append_eq.mp below
    obtain rfl : names = [] := by
      have bound := around.length_le
      rw [List.length_append] at bound
      exact List.length_eq_zero_iff.mp (by omega)
    rfl

theorem follow_name {place : List String} {name : String} (named : IsName name)
    (known : directory.isFolder (place ++ [name]) = true) :
    directory.follow place name.toList = .ok (place ++ [name]) := by
  have found : directory.atPlace? (place ++ [name]) = some .folder := beq_iff_eq.mp known
  simp [follow, named.filled, named.climbless, Nat.not_lt.mpr named.short, found]

/-- The way from the root leads to the directory. -/
theorem walk_home {front names : List String} (way : front ++ names = directory.home)
    (named : ∀ name ∈ names, IsName name) (parts : List (List Char)) :
    directory.walk front (names.map String.toList ++ parts) =
      directory.walk directory.home parts := by
  induction names generalizing front with
  | nil => rw [← way, List.append_nil, List.map_nil, List.nil_append]
  | cons name names ih =>
    obtain ⟨first, later⟩ := List.forall_mem_cons.mp named
    have next : front ++ [name] ++ names = directory.home := by simpa using way
    have start := isFolder_of_isPrefix ⟨_, way⟩
    have follows := follow_name first (isFolder_of_isPrefix ⟨_, next⟩)
    rw [List.map_cons, List.cons_append, walk, if_pos start, follows]
    exact ih next later

/-- Where a path leads from the directory, the path from the root leads too. -/
theorem locate_absolute {path : String} (named : ∀ name ∈ directory.home, IsName name)
    (filled : path ≠ "") (relative : path.toList.head? ≠ some '/')
    (short : (directory.absolute path).utf8ByteSize ≤ pathLimit) :
    directory.locate (directory.absolute path) = directory.locate path := by
  have root : directory.isFolder [] = true := isFolder_of_isPrefix List.nil_prefix
  have shorter : path.utf8ByteSize ≤ pathLimit := by
    refine Nat.le_trans ?_ short
    simp [absolute]
  have written : directory.absolute path ≠ "" := by
    intro empty
    have chars : (directory.absolute path).toList = _ := toList_absolute path
    simp [empty] at chars
  simp only [locate, String.isEmpty_iff, filled, written, Nat.not_lt.mpr short,
    Nat.not_lt.mpr shorter, relative, toList_absolute, List.head?_cons, if_true, if_false,
    pathParts, pathParts_names named]
  rw [walk, if_pos root]
  exact walk_home (List.nil_append _) named _

end Root
end Directory
end CssSort
