import CssSort.Direction

/-! What a user can choose. -/
namespace CssSort

structure Settings where
  direction : Direction := .ascending
  deriving DecidableEq, Repr

end CssSort
