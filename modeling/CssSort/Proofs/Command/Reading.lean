import CssSort.Command.Run
import CssSort.Proofs.Command.Words
import CssSort.Proofs.Directory
import CssSort.Proofs.Text.Boundary
import Mathlib.Data.List.Forall2

/-! What a run reads in a directory. A path leads to a text or there is one reason why
not, and files are read in order up to the first that cannot be read. All that a run
does afterwards is told by the texts and the settings, the log apart. -/
namespace CssSort

namespace Outcome

@[simp] theorem after_ending (events : List Event) (outcome : Outcome) :
    (outcome.after events).ending = outcome.ending := rfl

@[simp] theorem after_output (events : List Event) (outcome : Outcome) :
    (outcome.after events).output = outcome.output := rfl

@[simp] theorem after_writes (events : List Event) (outcome : Outcome) :
    (outcome.after events).writes = outcome.writes := rfl

theorem after_after (first second : List Event) (outcome : Outcome) :
    (outcome.after first).after second = outcome.after (second ++ first) := by
  simp only [after, List.append_assoc]

end Outcome

namespace Directory

/-- A path leads to a file with this text. -/
def Holds (directory : Directory) (path : String) (text : Bytes) : Prop :=
  directory.read path = .ok text ∧ Bytes.isUtf8 text = true

/-- Why a path leads to no text. -/
inductive Unreadable (directory : Directory) (path : String) : FileFault → Prop
  | closed {fault : FileFault} : directory.read path = .error fault →
      Unreadable directory path fault
  | binary {contents : Bytes} : directory.read path = .ok contents →
      Bytes.isUtf8 contents = false → Unreadable directory path .notUtf8

/-- The first path in order that leads to no text. -/
def FirstUnreadable (directory : Directory) (paths : List String) (fault : FileFault) : Prop :=
  ∃ front path back texts, paths = front ++ path :: back ∧
    List.Forall₂ directory.Holds front texts ∧ directory.Unreadable path fault

/-- What a flag and a configuration file choose. -/
def settings (directory : Directory) (descending : Bool) (config? : Option String) :
    Except Error Settings :=
  Job.settings ⟨.text none true, descending, config?⟩ (directory.environment [])

variable {directory : Directory} {input : Bytes} {path : String}

theorem readFile_eq_ok_iff (input : Bytes) {text : Bytes} :
    (directory.environment input).readFile path = .ok text ↔ directory.Holds path text := by
  simp only [Environment.readFile, environment, Environment.decode, Holds]
  cases directory.read path with
  | error fault => simp
  | ok contents => grind

theorem readFile_eq_error_iff (input : Bytes) {error : Error} :
    (directory.environment input).readFile path = .error error ↔
      ∃ fault, directory.Unreadable path fault ∧ error = .file fault := by
  simp only [Environment.readFile, environment, Environment.decode]
  constructor
  · intro failed
    cases known : directory.read path with
    | error fault =>
      rw [known] at failed
      exact ⟨fault, .closed known, (Except.error.inj failed).symm⟩
    | ok contents =>
      simp only [known] at failed
      split at failed
      · cases failed
      · rename_i invalid
        exact ⟨.notUtf8, .binary known ((Bool.not_eq_true _).mp invalid),
          (Except.error.inj failed).symm⟩
  · rintro ⟨fault, unreadable, rfl⟩
    cases unreadable with
    | closed known => rw [known]
    | binary known invalid => simp [known, invalid]

theorem holds_or_unreadable (directory : Directory) (path : String) :
    (∃ text, directory.Holds path text) ∨ ∃ fault, directory.Unreadable path fault := by
  cases known : (directory.environment []).readFile path with
  | ok text => exact .inl ⟨text, (readFile_eq_ok_iff []).mp known⟩
  | error error =>
    obtain ⟨fault, unreadable, -⟩ := (readFile_eq_error_iff []).mp known
    exact .inr ⟨fault, unreadable⟩

theorem holds_or_firstUnreadable (directory : Directory) (paths : List String) :
    (∃ texts, List.Forall₂ directory.Holds paths texts) ∨
      ∃ fault, directory.FirstUnreadable paths fault := by
  induction paths with
  | nil => exact .inl ⟨[], .nil⟩
  | cons path paths ih =>
    obtain ⟨text, held⟩ | ⟨fault, unreadable⟩ := directory.holds_or_unreadable path
    · obtain ⟨texts, rest⟩ | ⟨fault, front, later, back, texts, rfl, rest, unreadable⟩ := ih
      · exact .inl ⟨text :: texts, .cons held rest⟩
      · exact .inr ⟨fault, path :: front, later, back, text :: texts, rfl, .cons held rest,
          unreadable⟩
    · exact .inr ⟨fault, [], path, paths, [], rfl, .nil, unreadable⟩

theorem forall_holds_iff {paths : List String} :
    (∀ path ∈ paths, ∃ text, directory.Holds path text) ↔
      ∃ texts, List.Forall₂ directory.Holds paths texts := by
  constructor
  · intro readable
    induction paths with
    | nil => exact ⟨[], .nil⟩
    | cons path paths ih =>
      obtain ⟨⟨text, first⟩, later⟩ := List.forall_mem_cons.mp readable
      obtain ⟨texts, held⟩ := ih later
      exact ⟨text :: texts, .cons first held⟩
  · rintro ⟨texts, held⟩
    induction held with
    | nil => exact List.forall_mem_nil _
    | cons first held ih => exact List.forall_mem_cons.mpr ⟨⟨_, first⟩, ih⟩

/-- Files that can be read come first among the sheets. -/
theorem readAll_append {front : List String} {texts : List Bytes}
    (held : List.Forall₂ directory.Holds front texts) (input : Bytes) (direction : Direction)
    (back : List String) :
    (Sheet.readAll (directory.environment input) direction (front ++ back)).2 =
      (Sheet.readAll (directory.environment input) direction back).2.map
        (List.zipWith (Sheet.ofText direction) front texts ++ ·) := by
  induction held with
  | nil =>
    simp only [List.nil_append, List.zipWith_nil_left]
    cases (Sheet.readAll (directory.environment input) direction back).2 <;> rfl
  | cons first held ih =>
    simp only [List.cons_append, Sheet.readAll, (readFile_eq_ok_iff input).mpr first, ih]
    cases (Sheet.readAll (directory.environment input) direction back).2 <;> rfl

theorem readAll_of_holds {paths : List String} {texts : List Bytes}
    (held : List.Forall₂ directory.Holds paths texts) (input : Bytes) (direction : Direction) :
    (Sheet.readAll (directory.environment input) direction paths).2 =
      .ok (List.zipWith (Sheet.ofText direction) paths texts) := by
  have all := readAll_append held input direction []
  simpa [Sheet.readAll, Except.map] using all

theorem readAll_of_firstUnreadable {paths : List String} {fault : FileFault}
    (unreadable : directory.FirstUnreadable paths fault) (input : Bytes)
    (direction : Direction) :
    (Sheet.readAll (directory.environment input) direction paths).2 = .error (.file fault) := by
  obtain ⟨front, path, back, texts, rfl, held, first⟩ := unreadable
  have failed : (directory.environment input).readFile path = .error (.file fault) :=
    (readFile_eq_error_iff input).mpr ⟨fault, first, rfl⟩
  rw [readAll_append held]
  simp only [Sheet.readAll, failed]
  rfl

theorem holds_of_mem_sheets {paths : List String} {texts : List Bytes} {direction : Direction}
    {sheet : Sheet} (held : List.Forall₂ directory.Holds paths texts)
    (member : sheet ∈ List.zipWith (Sheet.ofText direction) paths texts) :
    directory.Holds sheet.path sheet.before := by
  induction held with
  | nil => cases member
  | cons first held ih =>
    obtain rfl | later := List.mem_cons.mp member
    · exact first
    · exact ih later

/-- Settings depend on the configuration file alone. -/
theorem settings_congr {other : Directory} (descending : Bool) {config? : Option String}
    (same : ∀ path ∈ config?, other.read path = directory.read path) :
    other.settings descending config? = directory.settings descending config? := by
  cases config? with
  | none => rfl
  | some path =>
    have reads : (other.environment []).readFile path =
        (directory.environment []).readFile path := by
      simp only [Environment.readFile, environment, same path rfl]
    simp only [settings, Job.settings, Option.mapM_some, Job.readSettings, reads]

theorem settings_eq_error_iff {descending : Bool} {config? : Option String} {error : Error} :
    directory.settings descending config? = .error error ↔ ∃ path, config? = some path ∧
      ((∃ fault, directory.Unreadable path fault ∧ error = .file fault) ∨
        ∃ json fault, directory.Holds path json ∧ Settings.ofJson json = .error fault ∧
          error = .settings fault) := by
  cases config? with
  | none => simp [settings, Job.settings, pure, Except.pure]
  | some path =>
    simp only [Option.some.injEq, exists_eq_left', ← readFile_eq_error_iff [],
      ← readFile_eq_ok_iff []]
    simp only [settings, Job.settings, Option.mapM_some, Job.readSettings]
    cases (directory.environment []).readFile path with
    | error fault => simp
    | ok json =>
      cases known : Settings.ofJson json with
      | error fault => simp [Except.mapError, known, eq_comm]
      | ok settings => simp [Except.mapError, known]

/-- What a configuration file chooses, and what is chosen without one. -/
def Configures (directory : Directory) (settings : Settings) : Option String → Prop
  | none => settings = {}
  | some path => ∃ json, directory.Holds path json ∧ Settings.ofJson json = .ok settings

/-- The flag wins over the configuration file, and that over the default. -/
theorem settings_eq_ok_iff {descending : Bool} {config? : Option String} {chosen : Settings} :
    directory.settings descending config? = .ok chosen ↔
      ∃ configured, directory.Configures configured config? ∧
        chosen =
          if descending then { configured with direction := .descending } else configured := by
  cases config? with
  | none => simp [Configures, settings, Job.settings, pure, Except.pure, eq_comm]
  | some path =>
    simp only [Configures, ← readFile_eq_ok_iff []]
    simp only [settings, Job.settings, Option.mapM_some, Job.readSettings]
    cases (directory.environment []).readFile path with
    | error fault => simp
    | ok json =>
      cases known : Settings.ofJson json with
      | error fault => simp [Except.mapError, known]
      | ok configured => simp [Except.mapError, known, eq_comm]

theorem Holds.path_ne {text : Bytes} (held : directory.Holds path text) : path ≠ "" := by
  rintro rfl
  cases held.1

theorem config_ne {descending : Bool} {config? : Option String} {chosen : Settings}
    (settled : directory.settings descending config? = .ok chosen) : config? ≠ some "" := by
  rintro rfl
  obtain ⟨configured, ⟨json, held, -⟩, -⟩ := settings_eq_ok_iff.mp settled
  exact held.path_ne rfl

/-- Words can ask for any work on files that can be read. -/
theorem isComplete_of_holds {paths : List String} {texts : List Bytes} {descending : Bool}
    {config? : Option String} {chosen : Settings} (action : Action) (filled : paths ≠ [])
    (settled : directory.settings descending config? = .ok chosen)
    (held : List.Forall₂ directory.Holds paths texts) :
    Job.IsComplete ⟨.files paths action, descending, config?⟩ where
  config := config_ne settled
  paths := by
    intro member
    obtain ⟨text, first⟩ := forall_holds_iff.mpr ⟨texts, held⟩ "" member
    exact first.path_ne rfl
  files := by
    rintro other ⟨⟩
    exact filled rfl

/-- The text that is sorted if there are no files. -/
def givenText (given? : Option String) (input : Bytes) : Bytes :=
  given?.elim input Bytes.ofString

theorem run_text_of_binary {given? : Option String} (direction : Direction) (check : Bool)
    (binary : Bytes.isUtf8 (givenText given? input) = false) :
    Task.run (directory.environment input) direction (.text given? check) =
      { ending := .failure (.file .notUtf8) } := by
  cases given? with
  | none =>
    have refused : Bytes.isUtf8 input = false := binary
    simp [Task.run, environment, Environment.decode, refused]
  | some given =>
    have accepted : Bytes.isUtf8 (Bytes.ofString given) = false := binary
    rw [Bytes.isUtf8_ofString] at accepted
    cases accepted

theorem run_text_of_isUtf8 {given? : Option String} (direction : Direction) (check : Bool)
    (valid : Bytes.isUtf8 (givenText given? input) = true) :
    Task.run (directory.environment input) direction (.text given? check) =
      Task.runText direction (givenText given? input) check := by
  cases given? with
  | none =>
    have accepted : Bytes.isUtf8 input = true := valid
    simp [Task.run, environment, Environment.decode, accepted, givenText]
  | some given => rfl

theorem runText_nil (direction : Direction) (check : Bool) :
    Task.runText direction [] check = { ending := .failure .emptyInput } := rfl

theorem runText_print (direction : Direction) {text : Bytes} (filled : text ≠ []) :
    Task.runText direction text false =
      Outcome.after (Stylesheet.events text)
        { output := Stylesheet.alphabetize direction text } := by
  simp [Task.runText, Stylesheet.deliver, Delivery.ofBytes, filled]

theorem runText_check (direction : Direction) {text : Bytes} (filled : text ≠ []) :
    Task.runText direction text true =
      Outcome.after (Stylesheet.events text)
        { ending := if Stylesheet.alphabetize direction text = text then .success
            else .failure (.unsorted [Task.standardInputName]) } := by
  simp only [Task.runText, Stylesheet.deliver, Delivery.ofBytes, List.isEmpty_iff, filled]
  by_cases sorted : Stylesheet.alphabetize direction text = text <;> simp [sorted]

/-- The paths of the files that sorting changes. -/
def unsortedPaths (direction : Direction) (paths : List String) (texts : List Bytes) :
    List String :=
  ((paths.zip texts).filter fun (_, text) => Stylesheet.alphabetize direction text != text).map
    Prod.fst

theorem map_path_changed (direction : Direction) (paths : List String) (texts : List Bytes) :
    ((List.zipWith (Sheet.ofText direction) paths texts).filter Sheet.isChanged).map Sheet.path =
      unsortedPaths direction paths texts := by
  have changed : Sheet.isChanged ∘ Function.uncurry (Sheet.ofText direction) =
      fun (_, text) => Stylesheet.alphabetize direction text != text :=
    funext fun _ => bne_comm
  rw [← List.map_uncurry_zip_eq_zipWith, List.filter_map, List.map_map, changed]
  rfl

theorem check_run (direction : Direction) (paths : List String) (texts : List Bytes) :
    ∃ events, Action.check.run (List.zipWith (Sheet.ofText direction) paths texts) =
      { ending := if unsortedPaths direction paths texts = [] then .success
          else .failure (.unsorted (unsortedPaths direction paths texts))
        log := events } := by
  simp only [Action.run, ← map_path_changed, List.map_eq_nil_iff, List.isEmpty_iff]
  exact ⟨_, rfl⟩

section Run

variable {words : List String} {task : Task} {descending : Bool} {config? : Option String}

theorem run_of_halt {halt : Halt} (halted : Job.ofWords words = .error halt) :
    directory.run words input = (halt.outcome, directory) := by
  simp only [run, Environment.run, halted]
  cases halt <;> rfl

/-- A run that is asked for a notice prints it and does nothing else. -/
theorem run_notice {job : Job} (config : job.config? ≠ some "") (topic : Notice)
    (words : List String) :
    directory.run (job.flags.map Request.word ++ topic.flag.name :: words) input =
      ({ ending := .notice topic, output := Bytes.ofString topic.text }, directory) :=
  run_of_halt (Job.ofWords_notice config topic words)

theorem run_of_settings_error {error : Error}
    (asked : Job.ofWords words = .ok ⟨task, descending, config?⟩)
    (failed : directory.settings descending config? = .error error) :
    directory.run words input = ({ ending := .failure error }, directory) := by
  have unsettled : Job.settings ⟨task, descending, config?⟩ (directory.environment input) =
      .error error := failed
  simp only [run, Environment.run, asked, Job.run, unsettled]
  rfl

/-- With settings a run is its task, the log apart. -/
theorem run_of_settings {settings : Settings}
    (asked : Job.ofWords words = .ok ⟨task, descending, config?⟩)
    (chosen : directory.settings descending config? = .ok settings) :
    directory.run words input =
      let outcome := (task.run (directory.environment input) settings.direction).after
        [.settings settings]
      (outcome, directory.writeAll outcome.writes) := by
  have settled : Job.settings ⟨task, descending, config?⟩ (directory.environment input) =
      .ok settings := chosen
  simp only [run, Environment.run, asked, Job.run, settled, Task.runWith, writeAll]

variable {paths : List String} {action : Action} {settings : Settings}

theorem run_of_holds {texts : List Bytes}
    (asked : Job.ofWords words = .ok ⟨.files paths action, descending, config?⟩)
    (chosen : directory.settings descending config? = .ok settings)
    (held : List.Forall₂ directory.Holds paths texts) :
    ∃ events, directory.run words input =
      ((action.run (List.zipWith (Sheet.ofText settings.direction) paths texts)).after events,
        directory.writeAll
          (action.run (List.zipWith (Sheet.ofText settings.direction) paths texts)).writes) := by
  have sheets := readAll_of_holds held input settings.direction
  rw [run_of_settings asked chosen]
  cases read : Sheet.readAll (directory.environment input) settings.direction paths with
  | mk events result =>
    rw [read] at sheets
    obtain rfl : result = _ := sheets
    exact ⟨[.settings settings] ++ events, by
      simp only [Task.run, Task.runFiles, read, Outcome.after_after, Outcome.after_writes]⟩

theorem run_of_firstUnreadable {fault : FileFault}
    (asked : Job.ofWords words = .ok ⟨.files paths action, descending, config?⟩)
    (chosen : directory.settings descending config? = .ok settings)
    (unreadable : directory.FirstUnreadable paths fault) :
    ∃ events, directory.run words input =
      ({ ending := .failure (.file fault), log := events }, directory) := by
  have failed := readAll_of_firstUnreadable unreadable input settings.direction
  rw [run_of_settings asked chosen]
  cases read : Sheet.readAll (directory.environment input) settings.direction paths with
  | mk events result =>
    rw [read] at failed
    obtain rfl : result = _ := failed
    exact ⟨[.settings settings] ++ events, by
      simp only [Task.run, Task.runFiles, read]
      rfl⟩

end Run
end Directory
end CssSort
