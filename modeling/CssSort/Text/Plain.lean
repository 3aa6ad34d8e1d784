/-! Text without terminal commands. An escape character starts a command, and a
command ends with the character that its kind asks for, so what is left of a text
depends on how far a command has been read. White space that moves the cursor is
text even inside a command: it interrupts the command until the next control
character. -/
namespace CssSort.Text

/-- White space that moves the cursor. -/
def isBreak (char : Char) : Bool :=
  char == '\t' || char == '\n' || char == '\x0c' || char == '\r'

/-- Whether a character is text. Only ASCII has control characters here. -/
def isText (char : Char) : Bool :=
  isBreak char || (' ' ≤ char && char != '\x7f')

/-- A control character that starts a command, whatever comes before it. -/
def escape : Char := '\x1b'

/-- Control characters that break a command off. -/
def isCancel (char : Char) : Bool :=
  char == '\x18' || char == '\x1a'

/-- How much of a command has been read. -/
inductive Command where
  /-- Only the escape character. -/
  | opened
  /-- Also a mark that says what the last character chooses from. -/
  | choosing
  /-- Also a bracket, behind which numbers may stand. -/
  | counting
  deriving DecidableEq, Repr

/-- What a character of a text can belong to. -/
inductive Passage where
  | text
  | command (read : Command)
  /-- Text in the middle of a command. -/
  | interruption (read : Command)
  /-- A request to the system around the terminal, such as a new title. -/
  | request
  /-- The numbers and marks in front of a message to a device. -/
  | heading
  /-- A message, to a device or to nobody. -/
  | message
  deriving DecidableEq, Repr

/-- What follows a character of a command that neither starts another one nor
breaks this one off. -/
def Command.next (read : Command) (char : Char) : Passage :=
  match read with
  | opened =>
    if char == '[' then .command .counting
    else if char == ']' then .request
    else if char == 'P' then .heading
    else if char == 'X' || char == '^' || char == '_' then .message
    else if ' ' ≤ char && char ≤ '/' then .command .choosing
    else if '0' ≤ char && char ≤ '~' then .text
    else .command .opened
  | choosing => if '0' ≤ char && char ≤ '~' then .text else .command .choosing
  | counting => if '@' ≤ char && char ≤ '~' then .text else .command .counting

namespace Passage

def shows (passage : Passage) (char : Char) : Bool :=
  match passage with
  | text | interruption _ => isText char
  | command _ => isBreak char
  | request | heading | message => false

/-- What follows a character. A message ends with the byte `9C`, also where that
byte is part of a longer character. -/
def next (passage : Passage) (char : Char) : Passage :=
  if char == escape then .command .opened
  else if isCancel char then .text
  else
    match passage with
    | text => .text
    | command read => if isBreak char then .interruption read else read.next char
    | interruption read =>
      if !isText char then .command read
      else if char ≤ '\x7f' then .interruption read
      else .text
    | request => if char == '\x07' then .text else .request
    | heading => if '@' ≤ char && char ≤ '~' then .message else .heading
    | message => if (String.utf8EncodeChar char).contains 0x9C then .text else .message

/-- The text among characters of which the first belongs to this passage. -/
def plain (passage : Passage) : List Char → List Char
  | [] => []
  | char :: chars =>
    if passage.shows char then char :: (passage.next char).plain chars
    else (passage.next char).plain chars

theorem isText_of_mem_plain {passage : Passage} {chars : List Char} {char : Char}
    (h : char ∈ passage.plain chars) : isText char = true := by
  induction chars generalizing passage with
  | nil => simp [plain] at h
  | cons first rest ih =>
    rw [plain] at h
    split at h
    · rename_i shown
      rcases List.mem_cons.mp h with rfl | h
      · cases passage <;> simp_all [shows, isText]
      · exact ih h
    · exact ih h

end Passage

/-- What is left of a text without terminal commands and control characters. -/
def plain (text : String) : String :=
  String.ofList (Passage.text.plain text.toList)

end CssSort.Text
