import CssSort.Cursor.Search

/-! The semicolon behind the last declaration of a block may be left out. It is
put back right behind the last meaningful piece, in front of any blanks and
comments, so that the declaration can be moved. -/
namespace CssSort.Block
open Ascii

/-- Where the semicolon of the last declaration is missing. A block of blanks and
comments needs none. -/
def missingSemicolon? (block : Bytes) : Option Nat :=
  match lastSignificant? block with
  | none => none
  | some (stop, last) => if last = semicolon then none else some stop

def terminate (block : Bytes) : Bytes :=
  match missingSemicolon? block with
  | none => block
  | some stop => block.take stop ++ semicolon :: block.drop stop

end CssSort.Block
