import CssSort.Command.Job

/-! The words that ask for a job. Flags come first, each in a word of its own, and paths
stand behind two dashes, where they may look like flags. Such words are read as the job
they were made for, and a job that cannot be asked for so cannot be asked for at all. -/
namespace CssSort

theorem Flag.ofName?_name (flag : Flag) : ofName? flag.name = some flag := by
  cases flag <;> rfl

/-- The flag that asks for a notice. -/
def Notice.flag : Notice → Flag
  | help => .help
  | version => .version

namespace Request

/-- The word for a flag, with its value in the same word. -/
def word : Request → String
  | switch flag => flag.name
  | value flag text => flag.name ++ "=" ++ text
  | file path => path
  | refused _ => ""

/-- A flag that has a value if it takes one. -/
def isFlag : Request → Bool
  | switch flag => !flag.takesValue
  | value flag _ => flag.takesValue
  | _ => false

theorem splitFlag_switch (flag : Flag) : splitFlag (word (switch flag)) = (flag.name, none) := by
  cases flag <;> rfl

theorem splitFlag_value (flag : Flag) (text : String) :
    splitFlag (word (value flag text)) = (flag.name, some text) := by
  have chars : (word (value flag text)).toList = flag.name.toList ++ '=' :: text.toList := by
    simp [word]
  rw [splitFlag, chars]
  cases flag <;> simp [Flag.name]

/-- A flag is neither two dashes nor a path nor a single letter. -/
theorem word_isLong {request : Request} (flag : request.isFlag = true) :
    request.word ≠ "--" ∧ isFlagWord request.word = true ∧
      Flag.ofLetter? request.word = none := by
  obtain ⟨letter, chars, long⟩ :
      ∃ letter chars, request.word.toList = '-' :: '-' :: letter :: chars := by
    cases request with
    | file path => cases flag
    | refused fault => cases flag
    | switch name => cases name <;> exact ⟨_, _, rfl⟩
    | value name text => cases name <;> simp [word, Flag.name]
  refine ⟨?_, ?_, ?_⟩
  · intro same
    simp [same] at long
  · simp only [isFlagWord, long, Bool.and_eq_true, bne_iff_ne]
    refine ⟨rfl, ?_⟩
    intro same
    simp [same] at long
  · rw [Flag.ofLetter?, long]
    rfl

theorem ofWords_word {request : Request} (flag : request.isFlag = true) (words : List String) :
    ofWords (request.word :: words) = request :: ofWords words := by
  obtain ⟨dashes, long, letter⟩ := word_isLong flag
  cases request with
  | file path => cases flag
  | refused fault => cases flag
  | switch name =>
    have valueless : name.takesValue = false := by simpa [isFlag] using flag
    simp [ofWords, dashes, long, letter, splitFlag_switch, Flag.ofName?_name, valueless]
  | value name text =>
    have valued : name.takesValue = true := flag
    simp [ofWords, dashes, long, letter, splitFlag_value, Flag.ofName?_name, valued]

theorem ofWords_append {flags : List Request} (known : flags.all isFlag = true)
    (words : List String) : ofWords (flags.map word ++ words) = flags ++ ofWords words := by
  induction flags with
  | nil => rfl
  | cons flag flags ih =>
    obtain ⟨first, later⟩ : flag.isFlag = true ∧ flags.all isFlag = true := by simpa using known
    rw [List.map_cons, List.cons_append, ofWords_word first, ih later, List.cons_append]

end Request

namespace Action

/-- The flags that ask for a mode. -/
def flags : Action → List Request
  | print => []
  | check => [.switch .check]
  | write => [.switch .write]

def words (action : Action) : List String :=
  action.flags.map Request.word

end Action

namespace Task

def flags : Task → List Request
  | files _ action => action.flags
  | text given? check =>
    (if check then [.switch .check] else []) ++ given?.toList.map (.value .input)

/-- The arguments that the flags of a task give. -/
def switches : Task → Arguments
  | files _ action => { write := action == .write, check := action == .check }
  | text given? check => { input? := given?, check := check }

/-- The paths of the files that a task works on. -/
def paths : Task → List String
  | files paths _ => paths
  | text .. => []

end Task

namespace Arguments

/-- No path is empty. -/
structure NamesPaths (arguments : Arguments) : Prop where
  config : arguments.config? ≠ some ""
  files : "" ∉ arguments.files

theorem add_namesPaths {arguments next : Arguments} {request : Request}
    (named : arguments.NamesPaths) (added : arguments.add request = .ok next) :
    next.NamesPaths := by
  obtain ⟨config, files⟩ := named
  cases request with
  | file path => constructor <;> grind [add, String.isEmpty_iff]
  | value flag text => constructor <;> cases flag <;> grind [add, String.isEmpty_iff]
  | switch flag => constructor <;> cases flag <;> grind [add]
  | refused fault => cases added

theorem foldlM_namesPaths {requests : List Request} {arguments last : Arguments}
    (named : arguments.NamesPaths) (added : requests.foldlM add arguments = .ok last) :
    last.NamesPaths := by
  induction requests generalizing arguments with
  | nil =>
    cases added
    exact named
  | cons request requests ih =>
    rw [List.foldlM_cons] at added
    cases first : arguments.add request with
    | error halt =>
      rw [first] at added
      cases added
    | ok next =>
      rw [first] at added
      exact ih (add_namesPaths named first) added

theorem foldlM_files {paths : List String} (named : "" ∉ paths) (arguments : Arguments) :
    (paths.map Request.file).foldlM add arguments =
      .ok { arguments with files := arguments.files ++ paths } := by
  induction paths generalizing arguments with
  | nil => simp [pure, Except.pure]
  | cons path paths ih =>
    obtain ⟨filled, later⟩ : path ≠ "" ∧ "" ∉ paths := by simpa [eq_comm] using named
    have first : arguments.add (.file path) =
        .ok { arguments with files := arguments.files ++ [path] } := by
      simp [add, filled]
    rw [List.map_cons, List.foldlM_cons, first]
    change (paths.map Request.file).foldlM add _ = _
    rw [ih later]
    simp

end Arguments

namespace Job

/-- The flags that ask for a job. -/
def flags (job : Job) : List Request :=
  job.task.flags ++ (if job.descending then [.switch .descending] else []) ++
    job.config?.toList.map (.value .config)

/-- Words that ask for a job. -/
def words (job : Job) : List String :=
  job.flags.map Request.word ++ "--" :: job.task.paths

/-- A job that words can ask for: there are files where it works on files, and no path
is empty. -/
structure IsComplete (job : Job) : Prop where
  config : job.config? ≠ some ""
  paths : "" ∉ job.task.paths
  files : ∀ action, job.task ≠ .files [] action

theorem isFlag_flags (job : Job) : job.flags.all Request.isFlag = true := by
  obtain ⟨task, descending, config?⟩ := job
  have asked : task.flags.all Request.isFlag = true := by
    cases task with
    | files paths action => cases action <;> rfl
    | text given? check => cases check <;> cases given? <;> rfl
  simp only [flags, List.all_append, asked]
  cases descending <;> cases config? <;> rfl

/-- The arguments for a job. -/
def arguments (job : Job) : Arguments :=
  { job.task.switches with
    files := job.task.paths
    descending := job.descending
    config? := job.config? }

theorem foldlM_flags {job : Job} (config : job.config? ≠ some "") :
    job.flags.foldlM Arguments.add {} = .ok { job.arguments with files := [] } := by
  obtain ⟨task, descending, config?⟩ := job
  have asked : task.flags.foldlM Arguments.add {} = .ok task.switches := by
    cases task with
    | files paths action => cases action <;> rfl
    | text given? check => cases check <;> cases given? <;> rfl
  have unset : task.switches =
      { task.switches with files := [], descending := false, config? := none } := by
    cases task <;> rfl
  rw [flags, List.foldlM_append, List.foldlM_append, asked, unset]
  cases config? with
  | none => cases descending <;> rfl
  | some path =>
    have filled : path.isEmpty = false := by simpa using config
    cases descending <;>
      simp [bind, Except.bind, pure, Except.pure, Arguments.add, arguments, filled]

theorem ofArguments_arguments {job : Job} (files : ∀ action, job.task ≠ .files [] action) :
    ofArguments job.arguments = .ok job := by
  obtain ⟨task, descending, config?⟩ := job
  cases task with
  | text given? check => cases check <;> rfl
  | files paths action =>
    cases paths with
    | nil => exact absurd rfl (files action)
    | cons path paths => cases action <;> rfl

theorem ofWords_eq_ok_iff {job : Job} {words : List String} :
    ofWords words = .ok job ↔
      ∃ arguments, Arguments.ofWords words = .ok arguments ∧ ofArguments arguments = .ok job := by
  cases read : Arguments.ofWords words with
  | error halt =>
    have halted : ofWords words = .error halt := by
      rw [ofWords, read]
      rfl
    simp [halted]
  | ok arguments =>
    have asked : ofWords words = (ofArguments arguments).mapError .misuse := by
      rw [ofWords, read]
      rfl
    cases known : ofArguments arguments with
    | error fault =>
      have refused : ofWords words = .error (.misuse fault) := by
        rw [asked, known]
        rfl
      simp [refused, known]
    | ok other =>
      have given : ofWords words = .ok other := by
        rw [asked, known]
        rfl
      simp [given, known]

/-- A complete job is read back from its words. -/
theorem ofWords_words {job : Job} (complete : job.IsComplete) :
    ofWords job.words = .ok job := by
  refine ofWords_eq_ok_iff.mpr ⟨job.arguments, ?_, ofArguments_arguments complete.files⟩
  rw [Arguments.ofWords, words, Request.ofWords_append job.isFlag_flags, List.foldlM_append,
    foldlM_flags complete.config]
  exact Arguments.foldlM_files complete.paths _

/-- A notice is given whatever stands behind the word that asks for it. -/
theorem ofWords_notice {job : Job} (config : job.config? ≠ some "") (topic : Notice)
    (words : List String) :
    ofWords (job.flags.map Request.word ++ topic.flag.name :: words) = .error (.notice topic) := by
  have flagged : (Request.switch topic.flag).isFlag = true := by cases topic <;> rfl
  have first : Request.ofWords (topic.flag.name :: words) =
      .switch topic.flag :: Request.ofWords words := Request.ofWords_word flagged words
  have halted : Arguments.ofWords (job.flags.map Request.word ++ topic.flag.name :: words) =
      .error (.notice topic) := by
    rw [Arguments.ofWords, Request.ofWords_append job.isFlag_flags, List.foldlM_append,
      foldlM_flags config, first]
    cases topic <;> rfl
  rw [ofWords, halted]
  rfl

theorem isComplete_of_ofArguments {job : Job} {arguments : Arguments}
    (named : arguments.NamesPaths) (asked : ofArguments arguments = .ok job) :
    job.IsComplete := by
  obtain ⟨config, files⟩ := named
  unfold ofArguments at asked
  split at asked
  · cases asked
  · split at asked
    · split at asked <;> cases asked
      exact ⟨config, by simp [Task.paths], by simp⟩
    · cases asked
    · rename_i path paths known _
      cases asked
      exact ⟨config, by rw [← known]; exact files, by simp⟩

theorem isComplete_of_ofWords {job : Job} {words : List String}
    (asked : ofWords words = .ok job) : job.IsComplete := by
  obtain ⟨arguments, read, known⟩ := ofWords_eq_ok_iff.mp asked
  exact isComplete_of_ofArguments (Arguments.foldlM_namesPaths ⟨by simp, by simp⟩ read) known

/-- The jobs that words can ask for are those that are read back from their own words. -/
theorem exists_words_iff (job : Job) :
    (∃ words, ofWords words = .ok job) ↔ job.IsComplete :=
  ⟨fun ⟨_, asked⟩ => isComplete_of_ofWords asked, fun complete => ⟨_, ofWords_words complete⟩⟩

end Job
end CssSort
