import CssSort.Cursor.Search

/-! What a unit of a block is: a comment on its own, or a declaration. A
declaration is recognised as far as it goes, so one without a colon simply has no
name and no value. -/
namespace CssSort
open Ascii

/-- A second part that some vendor prefixes have. -/
def osx : Bytes :=
  Bytes.ofString "osx-"

/-- The vendor prefix of a name, empty if there is none: a word between two
dashes, and `osx-` behind it if it is there. -/
def vendorPrefix : Bytes → Bytes
  | [] => []
  | first :: rest =>
    let word := rest.takeWhile isWord
    match rest.dropWhile isWord with
    | [] => []
    | next :: behind =>
      if first = dash ∧ word ≠ [] ∧ next = dash then
        first :: word ++ next :: (if osx.isPrefixOf behind then osx else [])
      else []

/-- Endings of a value that only old browsers accept. -/
def hackEndings : List Bytes :=
  [Bytes.ofString "\\9", Bytes.ofString "\\0"]

def startsWithMarker (raw : Bytes) : Bool :=
  raw.head?.any isHackMarker

/-- What stands on both sides of the first top-level colon of a declaration. The
name has lost its hack marker and keeps its vendor prefix. -/
structure Assignment where
  name : Bytes
  value : Bytes
  deriving DecidableEq, Repr

/-- The value ends at the first top-level semicolon behind the colon. -/
def Assignment.ofRaw? (raw : Bytes) : Option Assignment :=
  (findTopLevel? raw colon).map fun middle =>
    let marker := if startsWithMarker raw then 1 else 0
    let behind := raw.drop (middle + 1)
    { name := Bytes.trim ((raw.take middle).drop marker)
      value := Bytes.trim (behind.take ((findTopLevel? behind semicolon).getD behind.length)) }

structure Declaration where
  assignment? : Option Assignment
  hacked : Bool
  vendor : Bool
  deriving DecidableEq, Repr

namespace Declaration

def name? (declaration : Declaration) : Option Bytes :=
  declaration.assignment?.map (·.name)

def value? (declaration : Declaration) : Option Bytes :=
  declaration.assignment?.map (·.value)

/-- The name without its vendor prefix. -/
def property? (declaration : Declaration) : Option Bytes :=
  declaration.name?.map fun name => name.drop (vendorPrefix name).length

/-- Reads a declaration without blanks around it. -/
def ofRaw (raw : Bytes) : Declaration where
  assignment? := Assignment.ofRaw? raw
  hacked := startsWithMarker raw ||
    (Assignment.ofRaw? raw).any fun assignment =>
      hackEndings.any (·.isSuffixOf assignment.value)
  vendor := vendorPrefix raw ≠ []

end Declaration

/-- The text behind the first close of a comment, if it is closed. -/
def behindComment? : Bytes → Option Bytes
  | [] => none
  | first :: rest => if closesComment first rest then some (rest.drop 1) else behindComment? rest

/-- The whole text is one closed comment. -/
def isComment : Bytes → Bool
  | [] => false
  | first :: rest => opensComment first rest && behindComment? (rest.drop 1) == some []

inductive Kind where
  | comment
  | declaration (declaration : Declaration)
  deriving DecidableEq, Repr

structure Item where
  text : Bytes
  kind : Kind
  deriving DecidableEq, Repr

namespace Item

def classify (text : Bytes) : Kind :=
  if isComment text.trim then .comment else .declaration (Declaration.ofRaw text.trim)

def ofText (text : Bytes) : Item where
  text := text
  kind := classify text

def declaration? (item : Item) : Option Declaration :=
  match item.kind with
  | .comment => none
  | .declaration declaration => some declaration

end Item
end CssSort
