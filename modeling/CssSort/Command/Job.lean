import CssSort.Command.Arguments

/-! What the arguments ask for, once they are known to go together. Only files
can be written, so a job that writes always has some. -/
namespace CssSort

inductive Action where
  | print
  | check
  | write
  deriving DecidableEq, Repr

inductive Task where
  | files (paths : List String) (action : Action)
  /-- Prints or checks a text that is in no file, the standard input if none is
  given. -/
  | text (given? : Option String) (check : Bool)
  deriving DecidableEq, Repr

structure Job where
  task : Task
  descending : Bool
  config? : Option String
  deriving DecidableEq, Repr

namespace Job

/-- Text given on the command line leaves no place for files. Writing asks for
files where there is place for them, and otherwise means nothing. -/
def ofArguments (arguments : Arguments) : Except UsageFault Job :=
  let job (task : Task) : Job := ⟨task, arguments.descending, arguments.config?⟩
  if arguments.check && arguments.write then .error .checkWithWrite
  else
    match arguments.files, arguments.input? with
    | [], given? =>
      if arguments.write && given?.isNone then .error .writeWithoutFiles
      else .ok (job (.text given? arguments.check))
    | _ :: _, some _ => .error .inputWithFiles
    | path :: paths, none =>
      let action : Action :=
        if arguments.check then .check else if arguments.write then .write else .print
      .ok (job (.files (path :: paths) action))

def ofWords (words : List String) : Except Halt Job := do
  (ofArguments (← Arguments.ofWords words)).mapError .misuse

end Job
end CssSort
