import CssSort.Direction
import CssSort.Item.Basic

/-! The order of the items of a block. Declarations stand by property, and with
one property plain before hacked and vendor prefixed before standard, whatever
the direction, so that the later one still overrides the earlier one. Comments go
last and are all equal, so a stable sort keeps them as they were written. -/
namespace CssSort

namespace Declaration

/-- An absent name or value comes first in ascending order. -/
def compare (direction : Direction) (a b : Declaration) : Ordering :=
  (direction.apply (Ord.compare a.property? b.property?)).then <|
  (Ord.compare a.hacked b.hacked).then <|
  (Ord.compare b.vendor a.vendor).then <|
  (direction.apply (Ord.compare a.value? b.value?)).then <|
  direction.apply (Ord.compare a.name? b.name?)

end Declaration

def Kind.compare (direction : Direction) : Kind → Kind → Ordering
  | .comment, .comment => .eq
  | .comment, .declaration _ => .gt
  | .declaration _, .comment => .lt
  | .declaration a, .declaration b => a.compare direction b

namespace Item

def compare (direction : Direction) (a b : Item) : Ordering :=
  a.kind.compare direction b.kind

def sort (direction : Direction) (items : List Item) : List Item :=
  items.mergeSort fun a b => compare direction a b != .gt

end Item
end CssSort
