import CssSort.Block.Parts
import CssSort.Block.Semicolon
import CssSort.Item.Order

/-! A block with its units in canonical order. -/
namespace CssSort.Block

def Parts.sort (direction : Direction) (parts : Parts) : Parts where
  units := (Item.sort direction (parts.units.map Item.ofText)).map (·.text)
  trailing := parts.trailing

/-- The parts of a block whose last declaration has its semicolon. -/
def parts (block : Bytes) : Parts :=
  Parts.ofText (terminate block)

/-- Has no units, which means that it holds nothing but blanks. -/
def isVacant (block : Bytes) : Bool :=
  (parts block).units.isEmpty

/-- Sorts the units of a block. A vacant block stays as it is. -/
def arrange (direction : Direction) (block : Bytes) : Bytes :=
  if isVacant block then block else ((parts block).sort direction).toText

end CssSort.Block
