import CssSort.Command.Run

/-! The command line. First the configuration is read, then the input, and what a
run decided on them is carried out after it has ended. -/
namespace CssSort

def faultOf : IO.Error → FileFault
  | .noFileOrDirectory .. => .missing
  | .inappropriateType _ code _ => if code = 21 then .isDirectory else .notDirectory
  | error@(.invalidArgument _ code _) =>
    if code = 36 then .nameTooLong else .other (toString error)
  | error => .other (toString error)

def readPath (path : String) : IO (Except FileFault Bytes) := do
  try
    let contents ← IO.FS.readBinFile path
    return .ok contents.data.toList
  catch error => return .error (faultOf error)

def readPaths (paths : List String) : IO (String → Except FileFault Bytes) := do
  let contents ← paths.mapM fun path => do return (path, ← readPath path)
  return fun path => (contents.lookup path).getD (.error .missing)

/-- Reads what a task works on. -/
def gather : Task → IO Environment
  | .files paths _ => do return { file := ← readPaths paths, standardInput := [] }
  | .text given? _ => do
    let input ← if given?.isNone then (← IO.getStdin).readBinToEnd else pure ByteArray.empty
    return { file := ← readPaths [], standardInput := input.data.toList }

/-- Nothing is read for a job that has no settings. -/
def execute (job : Job) : IO Outcome := do
  match job.settings { file := ← readPaths job.config?.toList, standardInput := [] } with
  | .error error => return { ending := .failure error }
  | .ok settings => return job.task.runWith settings (← gather job.task)

def perform (outcome : Outcome) : IO UInt32 := do
  let limit := (← IO.getEnv "RUST_LOG").bind Level.ofName?
  for event in outcome.log.filter (Event.isShown limit) do
    IO.eprintln event.render
  for (path, contents) in outcome.writes do
    IO.FS.writeBinFile path ⟨contents.toArray⟩
  (← IO.getStdout).write ⟨outcome.output.toArray⟩
  match outcome.ending with
  | .success | .notice _ => pure ()
  | .failure error => IO.eprintln ("Error: " ++ error.message)
  | .misuse fault => IO.eprintln ("error: " ++ fault.message)
  return UInt32.ofNat outcome.ending.code

end CssSort

def main (words : List String) : IO UInt32 := do
  match CssSort.Job.ofWords words with
  | .error halt => CssSort.perform halt.outcome
  | .ok job => CssSort.perform (← CssSort.execute job)
