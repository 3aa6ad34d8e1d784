/-! The bytes that have a meaning in a style sheet, and the classes it sorts
bytes into. All of them are ASCII, so none occurs inside a longer UTF-8
character and a text can be read byte by byte. -/
namespace CssSort.Ascii

abbrev asterisk : UInt8 := 0x2A
abbrev backslash : UInt8 := 0x5C
abbrev carriageReturn : UInt8 := 0x0D
abbrev closeBrace : UInt8 := 0x7D
abbrev closeParen : UInt8 := 0x29
abbrev colon : UInt8 := 0x3A
abbrev dash : UInt8 := 0x2D
abbrev doubleQuote : UInt8 := 0x22
abbrev formFeed : UInt8 := 0x0C
abbrev lineFeed : UInt8 := 0x0A
abbrev openBrace : UInt8 := 0x7B
abbrev openParen : UInt8 := 0x28
abbrev semicolon : UInt8 := 0x3B
abbrev singleQuote : UInt8 := 0x27
abbrev slash : UInt8 := 0x2F
abbrev space : UInt8 := 0x20
abbrev tab : UInt8 := 0x09
abbrev underscore : UInt8 := 0x5F

/-- White space inside a line. -/
def isInlineBlank (byte : UInt8) : Bool :=
  byte == space || byte == tab

def isBlank (byte : UInt8) : Bool :=
  isInlineBlank byte || byte == lineFeed || byte == carriageReturn || byte == formFeed

def isDigit (byte : UInt8) : Bool :=
  0x30 ≤ byte && byte ≤ 0x39

/-- Letters, digits and the underscore. -/
def isWord (byte : UInt8) : Bool :=
  (0x61 ≤ byte && byte ≤ 0x7A) || (0x41 ≤ byte && byte ≤ 0x5A) || isDigit byte ||
    byte == underscore

/-- A mark in front of a property name that hides it from most browsers. -/
def isHackMarker (byte : UInt8) : Bool :=
  byte == underscore || byte == asterisk

def isBrace (byte : UInt8) : Bool :=
  byte == openBrace || byte == closeBrace

/-- Length of the UTF-8 character that starts with this byte. A byte from
inside a character counts for itself. -/
def charWidth (byte : UInt8) : Nat :=
  if 0xF0 ≤ byte then 4
  else if 0xE0 ≤ byte then 3
  else if 0xC0 ≤ byte then 2
  else 1

end CssSort.Ascii
