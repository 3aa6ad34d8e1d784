import CssSort.Error
import CssSort.Stylesheet.Basic

/-! The sorted style sheet handed to a buffer, which may have a limited size. -/
namespace CssSort

structure Delivery where
  /-- What arrived in the buffer. -/
  written : Bytes
  error? : Option Error
  deriving DecidableEq, Repr

/-- A buffer with room for `room` bytes, if it is limited, takes the first bytes
that fit. -/
def Delivery.ofBytes (bytes : Bytes) : (room : Option Nat) → Delivery
  | none => ⟨bytes, none⟩
  | some room =>
    ⟨bytes.take room, if bytes.length ≤ room then none else some .bufferFull⟩

/-- An empty style sheet is an error and nothing is written. -/
def Stylesheet.deliver (direction : Direction) (text : Bytes) (room : Option Nat) : Delivery :=
  if text.isEmpty then ⟨[], some .emptyInput⟩
  else Delivery.ofBytes (alphabetize direction text) room

end CssSort
