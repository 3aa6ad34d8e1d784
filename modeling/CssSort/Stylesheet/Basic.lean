import CssSort.Block.Arrange
import CssSort.Log
import CssSort.Stylesheet.Layout

/-! Sorting a style sheet: the units of every innermost block are arranged and
the text around the blocks is kept byte by byte. -/
namespace CssSort.Stylesheet

def alphabetize (direction : Direction) (text : Bytes) : Bytes :=
  ((Layout.ofText text).mapBlocks (Block.arrange direction)).toText

/-- What sorting a block reports. A vacant block is passed over in silence. -/
def blockEvents (block : Bytes) : List Event :=
  if Block.isVacant block then []
  else [.sorting (Block.parts block).units.length (Block.missingSemicolon? block).isSome]

/-- What sorting a style sheet reports, in either direction. -/
def events (text : Bytes) : List Event :=
  let blocks := (Layout.ofText text).blocks
  blocks.flatMap (fun block => blockEvents block.text) ++
    [.alphabetized blocks.length text.length]

end CssSort.Stylesheet
