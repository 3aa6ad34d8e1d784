import CssSort.Proofs.Command.Reading

/-! Runs that fail. All causes are listed in the order in which they are found: the
words, the configuration file, the input in its order, and last what a check finds. A
run without such a cause succeeds, and a run with one prints nothing and leaves every
file alone. -/
namespace CssSort.Directory

/-- The causes of a failure, and how a run with such a cause ends. -/
inductive Fails (directory : Directory) (words : List String) (input : Bytes) : Ending → Prop
  | misuse {fault : UsageFault} :
      Job.ofWords words = .error (.misuse fault) →
      Fails directory words input (.misuse fault)
  | config {task : Task} {descending : Bool} {path : String} {fault : FileFault} :
      Job.ofWords words = .ok ⟨task, descending, some path⟩ →
      directory.Unreadable path fault →
      Fails directory words input (.failure (.file fault))
  | settings {task : Task} {descending : Bool} {path : String} {json : Bytes}
      {fault : Json.Fault} :
      Job.ofWords words = .ok ⟨task, descending, some path⟩ →
      directory.Holds path json → Settings.ofJson json = .error fault →
      Fails directory words input (.failure (.settings fault))
  | file {paths : List String} {action : Action} {descending : Bool} {config? : Option String}
      {settings : Settings} {fault : FileFault} :
      Job.ofWords words = .ok ⟨.files paths action, descending, config?⟩ →
      directory.settings descending config? = .ok settings →
      directory.FirstUnreadable paths fault →
      Fails directory words input (.failure (.file fault))
  | unsorted {paths : List String} {texts : List Bytes} {descending : Bool}
      {config? : Option String} {settings : Settings} :
      Job.ofWords words = .ok ⟨.files paths .check, descending, config?⟩ →
      directory.settings descending config? = .ok settings →
      List.Forall₂ directory.Holds paths texts →
      unsortedPaths settings.direction paths texts ≠ [] →
      Fails directory words input
        (.failure (.unsorted (unsortedPaths settings.direction paths texts)))
  | binary {given? : Option String} {check descending : Bool} {config? : Option String}
      {settings : Settings} :
      Job.ofWords words = .ok ⟨.text given? check, descending, config?⟩ →
      directory.settings descending config? = .ok settings →
      Bytes.isUtf8 (givenText given? input) = false →
      Fails directory words input (.failure (.file .notUtf8))
  | empty {given? : Option String} {check descending : Bool} {config? : Option String}
      {settings : Settings} :
      Job.ofWords words = .ok ⟨.text given? check, descending, config?⟩ →
      directory.settings descending config? = .ok settings →
      givenText given? input = [] →
      Fails directory words input (.failure .emptyInput)
  | unsortedText {given? : Option String} {descending : Bool} {config? : Option String}
      {settings : Settings} :
      Job.ofWords words = .ok ⟨.text given? true, descending, config?⟩ →
      directory.settings descending config? = .ok settings →
      Bytes.isUtf8 (givenText given? input) = true → givenText given? input ≠ [] →
      Stylesheet.alphabetize settings.direction (givenText given? input) ≠
        givenText given? input →
      Fails directory words input (.failure (.unsorted [Task.standardInputName]))

variable {directory : Directory} {words : List String} {input : Bytes} {ending : Ending}

theorem Fails.code_ne_zero (fails : directory.Fails words input ending) : ending.code ≠ 0 := by
  cases fails <;> exact Nat.succ_ne_zero _

/-- A run with a cause of failure ends as the cause says, and does nothing else. -/
theorem Fails.run_eq (fails : directory.Fails words input ending) :
    ∃ events, directory.run words input = ({ ending := ending, log := events }, directory) := by
  cases fails with
  | misuse refused => exact ⟨[], run_of_halt refused⟩
  | config asked unreadable =>
    refine ⟨[], run_of_settings_error asked ?_⟩
    exact settings_eq_error_iff.mpr ⟨_, rfl, .inl ⟨_, unreadable, rfl⟩⟩
  | settings asked held refused =>
    refine ⟨[], run_of_settings_error asked ?_⟩
    exact settings_eq_error_iff.mpr ⟨_, rfl, .inr ⟨_, _, held, refused, rfl⟩⟩
  | file asked chosen unreadable => exact run_of_firstUnreadable asked chosen unreadable
  | unsorted asked chosen held found =>
    obtain ⟨events, ran⟩ := run_of_holds asked chosen held
    obtain ⟨log, checked⟩ := check_run _ _ _
    rw [ran, checked, if_neg found]
    exact ⟨_, rfl⟩
  | binary asked chosen invalid =>
    rw [run_of_settings asked chosen, run_text_of_binary _ _ invalid]
    exact ⟨_, rfl⟩
  | empty asked chosen vacant =>
    have valid := Bytes.isUtf8_nil
    rw [← vacant] at valid
    rw [run_of_settings asked chosen, run_text_of_isUtf8 _ _ valid, vacant, runText_nil]
    exact ⟨_, rfl⟩
  | unsortedText asked chosen valid filled found =>
    rw [run_of_settings asked chosen, run_text_of_isUtf8 _ _ valid, runText_check _ filled,
      if_neg found]
    exact ⟨_, rfl⟩

section Settled

variable {descending : Bool} {config? : Option String} {settings : Settings}
  (chosen : directory.settings descending config? = .ok settings)
include chosen

theorem files_success_or_fails {paths : List String} {action : Action}
    (asked : Job.ofWords words = .ok ⟨.files paths action, descending, config?⟩) :
    (directory.run words input).1.ending.code = 0 ∨
      ∃ ending, directory.Fails words input ending := by
  obtain ⟨texts, held⟩ | ⟨fault, unreadable⟩ := directory.holds_or_firstUnreadable paths
  · obtain ⟨events, ran⟩ := run_of_holds asked chosen held
    cases action with
    | print | write => exact .inl (by rw [ran]; rfl)
    | check =>
      by_cases found : unsortedPaths settings.direction paths texts = []
      · obtain ⟨log, checked⟩ := check_run settings.direction paths texts
        exact .inl (by rw [ran, checked, if_pos found]; rfl)
      · exact .inr ⟨_, .unsorted asked chosen held found⟩
  · exact .inr ⟨_, .file asked chosen unreadable⟩

theorem text_success_or_fails {given? : Option String} {check : Bool}
    (asked : Job.ofWords words = .ok ⟨.text given? check, descending, config?⟩) :
    (directory.run words input).1.ending.code = 0 ∨
      ∃ ending, directory.Fails words input ending := by
  have ran : directory.run words input = _ := run_of_settings asked chosen
  cases valid : Bytes.isUtf8 (givenText given? input) with
  | false => exact .inr ⟨_, .binary asked chosen valid⟩
  | true =>
    rw [run_text_of_isUtf8 _ _ valid] at ran
    by_cases filled : givenText given? input = []
    · exact .inr ⟨_, .empty asked chosen filled⟩
    · cases check with
      | false => exact .inl (by rw [ran, runText_print _ filled]; rfl)
      | true =>
        by_cases sorted : Stylesheet.alphabetize settings.direction (givenText given? input) =
            givenText given? input
        · exact .inl (by rw [ran, runText_check _ filled, if_pos sorted]; rfl)
        · exact .inr ⟨_, .unsortedText asked chosen valid filled sorted⟩

end Settled

/-- Without a cause of failure a run succeeds, or it gives the notice that was asked for. -/
theorem success_or_fails (directory : Directory) (words : List String) (input : Bytes) :
    (directory.run words input).1.ending.code = 0 ∨
      ∃ ending, directory.Fails words input ending := by
  cases asked : Job.ofWords words with
  | error halt =>
    cases halt with
    | misuse fault => exact .inr ⟨_, .misuse asked⟩
    | notice topic => exact .inl (by rw [run_of_halt asked]; rfl)
  | ok job =>
    obtain ⟨task, descending, config?⟩ := job
    cases chosen : directory.settings descending config? with
    | error error =>
      obtain ⟨path, rfl, ⟨fault, unreadable, rfl⟩ | ⟨json, fault, held, refused, rfl⟩⟩ :=
        settings_eq_error_iff.mp chosen
      · exact .inr ⟨_, .config asked unreadable⟩
      · exact .inr ⟨_, .settings asked held refused⟩
    | ok settings =>
      cases task with
      | files paths action => exact files_success_or_fails chosen asked
      | text given? check => exact text_success_or_fails chosen asked

theorem fails_iff : directory.Fails words input ending ↔
    (directory.run words input).1.ending = ending ∧ ending.code ≠ 0 := by
  constructor
  · intro fails
    obtain ⟨events, ran⟩ := fails.run_eq
    exact ⟨by rw [ran], fails.code_ne_zero⟩
  · rintro ⟨rfl, nonzero⟩
    obtain success | ⟨ending, fails⟩ := directory.success_or_fails words input
    · exact absurd success nonzero
    · obtain ⟨events, ran⟩ := fails.run_eq
      rw [ran]
      exact fails

/-- A run that fails has no effect, and it fails for one of the listed causes. Where the
settings cannot be read, nothing else has any influence on the run. -/
theorem failed_run_changes_nothing (directory : Directory) (words : List String)
    (input : Bytes) :
    ((directory.run words input).1.ending.code ≠ 0 →
      (directory.run words input).2 = directory ∧ (directory.run words input).1.output = []) ∧
    (∀ ending, directory.Fails words input ending ↔
      (directory.run words input).1.ending = ending ∧ ending.code ≠ 0) ∧
    ∀ task descending path error,
      Job.ofWords words = .ok ⟨task, descending, some path⟩ →
      directory.settings descending (some path) = .error error →
      ∀ (other : Directory) (otherInput : Bytes), other.read path = directory.read path →
        other.run words otherInput = ({ ending := .failure error }, other) := by
  refine ⟨?_, fun ending => fails_iff, ?_⟩
  · intro nonzero
    obtain ⟨events, ran⟩ := (fails_iff.mpr ⟨rfl, nonzero⟩).run_eq
    rw [ran]
    exact ⟨rfl, rfl⟩
  · intro task descending path error asked failed other otherInput same
    apply run_of_settings_error asked
    rw [settings_congr descending (by rintro _ ⟨⟩; exact same)]
    exact failed

/-- A file that needs sorting is not written if a folder stands behind it, and a folder
for a configuration file is found before any file is looked for. -/
theorem failed_run_changes_nothing_folder :
    let directory : Directory :=
      { entries := [("a.css", .file (Bytes.ofString "{b:c;a:d}")), ("pages", .folder)] }
    let words := ["--write", "a.css", "pages", "missing.css"]
    (directory.Fails words [] (.failure (.file .isDirectory)) ∧
      (directory.run words []).2 = directory ∧ (directory.run words []).1.output = []) ∧
    let other : Directory := { entries := [("pages", .folder)] }
    other.run ["a.css", "--config", "pages"] [] =
      ({ ending := .failure (.file .isDirectory) }, other) := by
  intro directory words
  have held : directory.Holds "a.css" (Bytes.ofString "{b:c;a:d}") :=
    ⟨rfl, Bytes.isUtf8_ofString _⟩
  have closed : directory.Unreadable "pages" .isDirectory := .closed rfl
  have fails : directory.Fails words [] (.failure (.file .isDirectory)) :=
    .file rfl rfl ⟨["a.css"], "pages", ["missing.css"], _, rfl, .cons held .nil, closed⟩
  obtain ⟨effect, causes, -⟩ := failed_run_changes_nothing directory words []
  obtain ⟨ended, nonzero⟩ := (causes _).mp fails
  obtain ⟨-, -, first⟩ := failed_run_changes_nothing directory ["a.css", "--config", "pages"] []
  refine ⟨⟨fails, effect (by rw [ended]; exact nonzero)⟩, ?_⟩
  exact first (.files ["a.css"] .print) false "pages" _ rfl
    (settings_eq_error_iff.mpr ⟨"pages", rfl, .inl ⟨_, closed, rfl⟩⟩) _ [] rfl

end CssSort.Directory
