import CssSort.Error

/-! A directory as the command line sees it: files and folders, and paths that
lead to one of them. A path is walked part by part, and only a folder can be left
by a further part, even by one that goes nowhere. So the first part that leads to
nothing decides how a walk fails. -/
namespace CssSort

inductive Entry where
  | file (contents : Bytes)
  | folder
  deriving DecidableEq, Repr

structure Directory where
  /-- Entries are named by the way to them, such as `pages/start/a.css`. -/
  entries : List (String × Entry)
  /-- The names that lead to the directory from the root. -/
  home : List String := []
  deriving DecidableEq, Repr

/-- The parts of a path between its slashes. -/
def pathParts : List Char → List (List Char)
  | [] => [[]]
  | char :: chars =>
    if char = '/' then [] :: pathParts chars
    else
      match pathParts chars with
      | [] => [[char]]
      | part :: parts => (char :: part) :: parts

/-- A part that stays where it is. -/
def isStay (part : List Char) : Bool :=
  part.isEmpty || part == ['.']

/-- A part that leads to the folder around. -/
def isClimb (part : List Char) : Bool :=
  part == ['.', '.']

/-- Longest name of a file or folder, in bytes. -/
def nameLimit : Nat := 255

/-- Longest path, in bytes. -/
def pathLimit : Nat := 4095

namespace Directory

/-- The name of the entry that names lead to. -/
def entryName (names : List String) : String :=
  "/".intercalate names

/-- What names lead to inside of the directory. A folder needs no entry of its own
if another entry lies in it. -/
def member? (directory : Directory) (names : List String) : Option Entry :=
  let name := entryName names
  match names, directory.entries.lookup name with
  | [], _ => some .folder
  | _ :: _, some entry => some entry
  | _ :: _, none =>
    if directory.entries.any fun (other, _) => (name ++ "/").toList.isPrefixOf other.toList then
      some .folder
    else none

/-- What stands at a place, which is told by the names from the root to it. Outside
of the directory only the folders around it are known. -/
def atPlace? (directory : Directory) (place : List String) : Option Entry :=
  match directory.home.isPrefixOf? place with
  | some names => directory.member? names
  | none => if place.isPrefixOf directory.home then some .folder else none

/-- The name of the entry at a place. The directory itself has none, and neither has
a folder around it. -/
def nameAt? (directory : Directory) (place : List String) : Option String :=
  match directory.home.isPrefixOf? place with
  | some (first :: names) => some (entryName (first :: names))
  | _ => none

def isFolder (directory : Directory) (place : List String) : Bool :=
  directory.atPlace? place == some .folder

/-- Where a part of a path leads from a folder. The root is its own parent. -/
def follow (directory : Directory) (place : List String) (part : List Char) :
    Except FileFault (List String) :=
  let name := String.ofList part
  if isStay part then .ok place
  else if isClimb part then .ok place.dropLast
  else if nameLimit < name.utf8ByteSize then .error .nameTooLong
  else if (directory.atPlace? (place ++ [name])).isSome then .ok (place ++ [name])
  else .error .missing

def walk (directory : Directory) (place : List String) :
    List (List Char) → Except FileFault (List String)
  | [] => .ok place
  | part :: parts =>
    if directory.isFolder place then
      match directory.follow place part with
      | .error fault => .error fault
      | .ok next => walk directory next parts
    else .error .notDirectory

/-- The place that a path leads to. A path that starts with a slash is walked from
the root, any other from the directory. -/
def locate (directory : Directory) (path : String) : Except FileFault (List String) :=
  if path.isEmpty then .error .missing
  else if pathLimit < path.utf8ByteSize then .error .nameTooLong
  else
    let start := if path.toList.head? = some '/' then [] else directory.home
    directory.walk start (pathParts path.toList)

/-- The name of the entry that a path leads to. -/
def target? (directory : Directory) (path : String) : Option String :=
  match directory.locate path with
  | .error _ => none
  | .ok place => directory.nameAt? place

def read (directory : Directory) (path : String) : Except FileFault Bytes :=
  match directory.locate path with
  | .error fault => .error fault
  | .ok place =>
    match directory.atPlace? place with
    | none => .error .missing
    | some .folder => .error .isDirectory
    | some (.file contents) => .ok contents

/-- Replaces the contents of a file that is there. -/
def write (directory : Directory) (path : String) (contents : Bytes) : Directory :=
  match directory.target? path with
  | none => directory
  | some name =>
    { directory with
      entries := directory.entries.map fun (other, entry) =>
        (other, if other = name then .file contents else entry) }

end Directory
end CssSort
