import CssSort.Text.Printable

/-! Text between double quotes, with an escape for every character that could not
be told apart otherwise. -/
namespace CssSort.Text

/-- The letter behind the backslash, for characters that have one of their own. -/
def escapeLetter? (char : Char) : Option Char :=
  if char = '"' ∨ char = '\\' then some char
  else if char = '\t' then some 't'
  else if char = '\n' then some 'n'
  else if char = '\r' then some 'r'
  else if char = Char.ofNat 0 then some '0'
  else none

/-- An apostrophe needs no escape. Other characters that cannot be seen are
written by number. -/
def quoteChar (char : Char) : List Char :=
  match escapeLetter? char with
  | some letter => ['\\', letter]
  | none =>
    if isPrintable char then [char]
    else "\\u\x7b".toList ++ Nat.toDigits 16 char.toNat ++ "\x7d".toList

def quote (text : String) : String :=
  String.ofList ('"' :: text.toList.flatMap quoteChar ++ ['"'])

/-- Quoted texts in brackets. -/
def quoteList (texts : List String) : String :=
  "[" ++ ", ".intercalate (texts.map quote) ++ "]"

end CssSort.Text
