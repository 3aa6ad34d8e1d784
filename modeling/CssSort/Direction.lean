/-! The direction in which names and values are sorted. -/
namespace CssSort

inductive Direction where
  | ascending
  | descending
  deriving DecidableEq, Repr

namespace Direction

def ofAscending (ascending : Bool) : Direction :=
  if ascending then .ascending else .descending

def apply : Direction → Ordering → Ordering
  | ascending, ordering => ordering
  | descending, ordering => ordering.swap

end Direction
end CssSort
