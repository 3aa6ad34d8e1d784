import CssSort.Command.Job
import CssSort.Command.Outcome
import CssSort.Directory
import CssSort.Settings.Json
import CssSort.Stylesheet.Delivery

/-! A run of the program as a function of its arguments and of what it can read.
Settings come first, then all input, then the work, so a run that fails has
changed nothing. -/
namespace CssSort

/-- A file before and after sorting. -/
structure Sheet where
  path : String
  before : Bytes
  after : Bytes
  deriving DecidableEq, Repr

namespace Sheet

def ofText (direction : Direction) (path : String) (text : Bytes) : Sheet where
  path := path
  before := text
  after := Stylesheet.alphabetize direction text

def isChanged (sheet : Sheet) : Bool :=
  sheet.before != sheet.after

/-- Reads and sorts files in order and stops at the first that cannot be read.
What was reported up to there stays. -/
def readAll (environment : Environment) (direction : Direction) :
    List String → List Event × Except Error (List Sheet)
  | [] => ([], .ok [])
  | path :: paths =>
    match environment.readFile path with
    | .error error => ([], .error error)
    | .ok text =>
      let later := readAll environment direction paths
      (Stylesheet.events text ++ later.1, later.2.map (ofText direction path text :: ·))

end Sheet

namespace Action

def run (action : Action) (sheets : List Sheet) : Outcome :=
  let changed := sheets.filter Sheet.isChanged
  match action with
  | print => { output := sheets.flatMap (·.after) }
  | check =>
    { ending := if changed.isEmpty then .success else .failure (.unsorted (changed.map (·.path)))
      log := changed.map fun sheet => .unsorted sheet.path }
  | write =>
    { writes := changed.map fun sheet => (sheet.path, sheet.after)
      log := changed.map fun sheet => .written sheet.path }

end Action

namespace Task

/-- The name under which a text that is in no file is reported. -/
def standardInputName : String := "<stdin>"

def runFiles (environment : Environment) (direction : Direction) (paths : List String)
    (action : Action) : Outcome :=
  match Sheet.readAll environment direction paths with
  | (events, .error error) => { ending := .failure error, log := events }
  | (events, .ok sheets) => (action.run sheets).after events

/-- An empty text is an error, while an empty file is not. -/
def runText (direction : Direction) (text : Bytes) (check : Bool) : Outcome :=
  match Stylesheet.deliver direction text none with
  | ⟨_, some error⟩ => { ending := .failure error }
  | ⟨sorted, none⟩ =>
    Outcome.after (Stylesheet.events text) <|
      if !check then { output := sorted }
      else if sorted = text then {}
      else { ending := .failure (.unsorted [standardInputName]) }

def run (environment : Environment) (direction : Direction) : Task → Outcome
  | files paths action => runFiles environment direction paths action
  | text (some given) check => runText direction (Bytes.ofString given) check
  | text none check =>
    match Environment.decode environment.standardInput with
    | .error error => { ending := .failure error }
    | .ok input => runText direction input check

/-- A run that has its settings. -/
def runWith (task : Task) (settings : Settings) (environment : Environment) : Outcome :=
  (task.run environment settings.direction).after [.settings settings]

end Task

namespace Job

def readSettings (environment : Environment) (path : String) : Except Error Settings :=
  match environment.readFile path with
  | .error error => .error error
  | .ok json => (Settings.ofJson json).mapError .settings

/-- The flag wins over the configuration file, and that over what is chosen by
default. -/
def settings (job : Job) (environment : Environment) : Except Error Settings :=
  match job.config?.mapM (readSettings environment) with
  | .error error => .error error
  | .ok configured? =>
    let configured := configured?.getD {}
    .ok (if job.descending then { configured with direction := .descending } else configured)

def run (job : Job) (environment : Environment) : Outcome :=
  match job.settings environment with
  | .error error => { ending := .failure error }
  | .ok settings => job.task.runWith settings environment

end Job

/-- Runs the program on the words behind its name. -/
def Environment.run (environment : Environment) (words : List String) : Outcome :=
  match Job.ofWords words with
  | .error halt => halt.outcome
  | .ok job => job.run environment

namespace Directory

def environment (directory : Directory) (standardInput : Bytes) : Environment where
  file := directory.read
  standardInput := standardInput

/-- Runs the program in a directory. -/
def run (directory : Directory) (words : List String) (standardInput : Bytes) :
    Outcome × Directory :=
  let outcome := (directory.environment standardInput).run words
  (outcome, outcome.writes.foldl (fun current (path, contents) => current.write path contents)
    directory)

end Directory
end CssSort
