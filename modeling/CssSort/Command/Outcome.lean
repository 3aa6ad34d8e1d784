import CssSort.Command.Arguments
import CssSort.Error
import CssSort.Log

/-! What a run can read, and what it leaves behind. What it would print, write
and report is data, so nothing happens before the run has ended. -/
namespace CssSort

structure Environment where
  file : String → Except FileFault Bytes
  standardInput : Bytes

namespace Environment

/-- Text has to be UTF-8. -/
def decode (bytes : Bytes) : Except Error Bytes :=
  if bytes.isUtf8 then .ok bytes else .error (.file .notUtf8)

def readFile (environment : Environment) (path : String) : Except Error Bytes :=
  match environment.file path with
  | .error fault => .error (.file fault)
  | .ok bytes => decode bytes

end Environment

inductive Ending where
  | success
  | failure (error : Error)
  | misuse (fault : UsageFault)
  | notice (topic : Notice)
  deriving DecidableEq, Repr

namespace Ending

def code : Ending → Nat
  | success => 0
  | failure _ => 1
  | misuse _ => 2
  | notice _ => 0

def error? : Ending → Option Error
  | failure error => some error
  | _ => none

end Ending

structure Outcome where
  ending : Ending := .success
  output : Bytes := []
  log : List Event := []
  /-- New contents of files, in the order in which they are written. -/
  writes : List (String × Bytes) := []
  deriving DecidableEq, Repr

namespace Outcome

/-- Puts events in front of the log. -/
def after (events : List Event) (outcome : Outcome) : Outcome :=
  { outcome with log := events ++ outcome.log }

end Outcome

/-- What a run does that halts at its words. -/
def Halt.outcome : Halt → Outcome
  | misuse fault => { ending := .misuse fault }
  | notice topic => { ending := .notice topic, output := Bytes.ofString topic.text }

end CssSort
