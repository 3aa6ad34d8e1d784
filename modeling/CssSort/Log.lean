import CssSort.Settings.Basic
import CssSort.Text.Plain

/-! What a run reports while it works, as data. The wording is in one place and
a record carries its level, so that a reader can ask for less. -/
namespace CssSort

inductive Level where
  | error
  | warn
  | info
  | debug
  | trace
  deriving DecidableEq, Repr

namespace Level

def name : Level → String
  | error => "ERROR"
  | warn => "WARN"
  | info => "INFO"
  | debug => "DEBUG"
  | trace => "TRACE"

def ofName? (name : String) : Option Level :=
  [error, warn, info, debug, trace].find? (·.name == name.toUpper)

/-- Higher levels say more. -/
def rank : Level → Nat
  | error => 1
  | warn => 2
  | info => 3
  | debug => 4
  | trace => 5

end Level

inductive Event where
  | settings (settings : Settings)
  | sorting (units : Nat) (inserted : Bool)
  | alphabetized (blocks bytes : Nat)
  | unsorted (path : String)
  | written (path : String)
  deriving DecidableEq, Repr

namespace Event

def level : Event → Level
  | settings _ => .debug
  | sorting _ _ => .trace
  | alphabetized _ _ => .debug
  | unsorted _ => .warn
  | written _ => .info

def message : Event → String
  | settings chosen =>
    "Options \x7b ascending: " ++
      (if chosen.direction = .ascending then "true" else "false") ++ " \x7d"
  | sorting units inserted =>
    "sorting " ++ toString units ++ " units" ++ (if inserted then ", semicolon inserted" else "")
  | alphabetized blocks bytes =>
    "alphabetized " ++ toString blocks ++ " blocks in " ++ toString bytes ++ " bytes"
  | unsorted path => path ++ " is not alphabetized"
  | written path => "alphabetized " ++ path

/-- Width of the margin in front of every line of a message but the first. -/
def margin : Nat := 4

def indent (message : String) : String :=
  String.ofList <| message.toList.flatMap fun char =>
    if char = '\n' then char :: List.replicate margin ' ' else [char]

/-- A record is plain text, whatever a path in its message holds. -/
def render (event : Event) : String :=
  Text.plain (event.level.name ++ " " ++ indent event.message)

theorem isText_of_mem_render {event : Event} {char : Char}
    (member : char ∈ event.render.toList) : Text.isText char = true := by
  rw [render, Text.plain, String.toList_ofList] at member
  exact Text.Passage.isText_of_mem_plain member

/-- Whether a reader who asked for records up to `limit` sees this one. Without
a limit nothing is shown. -/
def isShown (limit : Option Level) (event : Event) : Bool :=
  limit.any fun limit => event.level.rank ≤ limit.rank

end Event
end CssSort
