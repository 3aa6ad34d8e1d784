import CssSort.Bytes

/-! What a reader of CSS text has to remember: whether it stands in a string or
a comment, and how many parentheses are open. One byte, with the bytes behind it
for look-ahead, decides how long the next piece is and what holds after it. -/
namespace CssSort
open Ascii

inductive Quote where
  | single
  | double
  deriving DecidableEq, Repr

namespace Quote

def byte : Quote → UInt8
  | single => singleQuote
  | double => doubleQuote

def ofByte? (byte : UInt8) : Option Quote :=
  if byte = singleQuote then some single
  else if byte = doubleQuote then some double
  else none

end Quote

inductive Mode where
  | normal
  | quoted (quote : Quote)
  | comment
  deriving DecidableEq, Repr

def opensComment (first : UInt8) (rest : Bytes) : Bool :=
  first == slash && rest.head? == some asterisk

def closesComment (first : UInt8) (rest : Bytes) : Bool :=
  first == asterisk && rest.head? == some slash

/-- Width of the character behind a backslash, if there is one. -/
def escapedWidth : Bytes → Nat
  | [] => 0
  | escaped :: _ => charWidth escaped

namespace Mode

/-- How many bytes of `rest` belong to the piece that starts with `first`. The
marks around a comment and an escape are one piece each, and so is every other
character. -/
def reach (mode : Mode) (first : UInt8) (rest : Bytes) : Nat :=
  match mode with
  | comment => if closesComment first rest then 1 else charWidth first - 1
  | quoted _ => if first = backslash then escapedWidth rest else charWidth first - 1
  | normal =>
    if opensComment first rest then 1
    else if first = backslash then escapedWidth rest
    else charWidth first - 1

/-- A line feed that is not escaped ends a string: reading recovers on the next
line. -/
def next (mode : Mode) (first : UInt8) (rest : Bytes) : Mode :=
  match mode with
  | comment => if closesComment first rest then normal else comment
  | quoted quote => if first = lineFeed ∨ first = quote.byte then normal else quoted quote
  | normal =>
    if opensComment first rest then comment
    else match Quote.ofByte? first with
      | some quote => quoted quote
      | none => normal

end Mode

/-- Parentheses are counted in a 32-bit word. -/
structure Context where
  mode : Mode := .normal
  depth : UInt32 := 0
  deriving DecidableEq, Repr

namespace Context

/-- Outside strings, comments and parentheses. -/
def isTopLevel (context : Context) : Bool :=
  context.mode == .normal && context.depth == 0

/-- A closing parenthesis without an open one changes nothing. -/
def nextDepth (context : Context) (first : UInt8) : UInt32 :=
  if context.mode ≠ .normal then context.depth
  else if first = openParen then context.depth + 1
  else if first = closeParen then (if context.depth = 0 then 0 else context.depth - 1)
  else context.depth

def next (context : Context) (first : UInt8) (rest : Bytes) : Context where
  mode := context.mode.next first rest
  depth := context.nextDepth first

end Context
end CssSort
