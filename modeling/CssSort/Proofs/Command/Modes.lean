import CssSort.Proofs.Command.Rewriting
import CssSort.Proofs.Stylesheet.Growth
import Mathlib.Tactic.TFAE

/-! Printing, checking and writing decide alike. What tells them apart is only what they
do with a file that is not in order. Sorting never makes a text shorter, so a printed
file cannot make up for a change of another one, and even the whole output tells
whether all files are in order. -/
namespace CssSort

/-- Sorting never makes a style sheet shorter. -/
theorem Stylesheet.length_le_alphabetize (direction : Direction) (text : Bytes) :
    text.length ≤ (alphabetize direction text).length := by
  rw [length_alphabetize]
  exact Nat.le_add_right _ _

section Joined

variable {f : Bytes → Bytes} (longer : ∀ text, text.length ≤ (f text).length)
include longer

theorem length_flatten_le (texts : List Bytes) :
    texts.flatten.length ≤ (texts.map f).flatten.length := by
  induction texts with
  | nil => exact Nat.le_refl _
  | cons text texts ih =>
    simp only [List.map_cons, List.flatten_cons, List.length_append]
    have first := longer text
    omega

/-- Texts that never get shorter are all kept if they are kept end to end. With no shorter
texts behind it the first one is no longer either. -/
theorem flatten_map_eq_iff (texts : List Bytes) :
    (texts.map f).flatten = texts.flatten ↔ ∀ text ∈ texts, f text = text := by
  constructor
  · intro same
    induction texts with
    | nil => exact List.forall_mem_nil _
    | cons text texts ih =>
      simp only [List.map_cons, List.flatten_cons] at same
      have equal : (f text).length = text.length := by
        have whole := congrArg List.length same
        have first := longer text
        have behind := length_flatten_le longer texts
        simp only [List.length_append] at whole
        omega
      obtain ⟨head, tail⟩ := List.append_inj same equal
      exact List.forall_mem_cons.mpr ⟨head, ih tail⟩
  · intro kept
    rw [List.map_congr_left kept, List.map_id']

end Joined

namespace Directory

variable {directory : Directory} {direction : Direction} {paths : List String}
  {texts : List Bytes}

theorem unsortedPaths_eq_nil_iff (held : List.Forall₂ directory.Holds paths texts) :
    unsortedPaths direction paths texts = [] ↔
      ∀ text ∈ texts, Stylesheet.alphabetize direction text = text := by
  induction held with
  | nil => simp [unsortedPaths]
  | cons first held ih =>
    rw [List.forall_mem_cons, ← ih]
    simp [unsortedPaths]

theorem print_run (held : List.Forall₂ directory.Holds paths texts) :
    Action.print.run (List.zipWith (Sheet.ofText direction) paths texts) =
      { output := (texts.map (Stylesheet.alphabetize direction)).flatten } := by
  have sorted : (List.zipWith (Sheet.ofText direction) paths texts).map Sheet.after =
      texts.map (Stylesheet.alphabetize direction) := by
    induction held with
    | nil => rfl
    | cons first held ih => exact congrArg (Stylesheet.alphabetize direction _ :: ·) ih
  rw [← sorted]
  rfl

/-- Files in order stay as they are. -/
theorem sortFiles_of_sorted (held : List.Forall₂ directory.Holds paths texts)
    (sorted : unsortedPaths direction paths texts = []) :
    directory.sortFiles direction (directory.targets paths) = directory := by
  rw [← map_path_changed, List.map_eq_nil_iff] at sorted
  rw [sortFiles, ← written_changed held, sorted]
  exact overwrite_none

/-- Files that read as before were in order. -/
theorem sorted_of_read_sortFiles (held : List.Forall₂ directory.Holds paths texts)
    (kept : ∀ path, (directory.sortFiles direction (directory.targets paths)).read path =
      directory.read path) :
    unsortedPaths direction paths texts = [] := by
  have sorted := forall₂_read_sortFiles direction held
  rw [unsortedPaths, List.map_eq_nil_iff, List.filter_eq_nil_iff]
  rintro ⟨path, text⟩ member
  have old := (List.forall₂_iff_zip.mp held).2 member
  have new := (List.forall₂_iff_zip.mp sorted).2 member
  rw [kept, old.1] at new
  simpa using (Except.ok.inj new).symm

/-- What the three modes do with the same files. -/
structure ModesAgree (directory : Directory) (direction : Direction) (paths : List String)
    (texts : List Bytes) (run : Action → Outcome × Directory) : Prop where
  printed : (run .print).1.ending = .success ∧
    (run .print).1.output = (texts.map (Stylesheet.alphabetize direction)).flatten
  decided : [(run .check).1.ending = .success, (run .write).2 = directory,
    ∀ path, (run .write).2.read path = directory.read path,
    (run .print).1.output = texts.flatten].TFAE
  reported : (run .check).1.ending =
    if unsortedPaths direction paths texts = [] then .success
    else .failure (.unsorted (unsortedPaths direction paths texts))
  silent : (run .check).1.output = [] ∧ (run .check).2 = directory

section Runs

variable {descending : Bool} {config? : Option String} {settings : Settings}

/-- Files that can be read are treated alike in the three modes. -/
theorem modesAgree {commands : Action → List String} (inputs : Action → Bytes)
    (asked : ∀ action, Job.ofWords (commands action) =
      .ok ⟨.files paths action, descending, config?⟩)
    (chosen : directory.settings descending config? = .ok settings)
    (held : List.Forall₂ directory.Holds paths texts) :
    ModesAgree directory settings.direction paths texts fun action =>
      directory.run (commands action) (inputs action) := by
  obtain ⟨printEvents, printed⟩ := run_of_holds (asked .print) chosen held
  obtain ⟨checkEvents, checked⟩ := run_of_holds (asked .check) chosen held
  obtain ⟨events, checkRun⟩ := check_run settings.direction paths texts
  obtain ⟨writes, writeEvents, written⟩ := write_run (inputs .write) (asked .write) chosen held
  rw [print_run held] at printed
  rw [checkRun] at checked
  constructor
  case printed =>
    rw [printed]
    exact ⟨rfl, rfl⟩
  case decided =>
    have success : (directory.run (commands .check) (inputs .check)).1.ending = .success ↔
        unsortedPaths settings.direction paths texts = [] := by
      rw [checked]
      simp
    have output : (directory.run (commands .print) (inputs .print)).1.output = texts.flatten ↔
        unsortedPaths settings.direction paths texts = [] := by
      rw [printed, unsortedPaths_eq_nil_iff held]
      exact flatten_map_eq_iff (Stylesheet.length_le_alphabetize settings.direction) texts
    rw [success, output, written]
    tfae_have 1 → 2 := sortFiles_of_sorted held
    tfae_have 2 → 3 := fun same path => by rw [same]
    tfae_have 3 → 1 := sorted_of_read_sortFiles held
    tfae_have 1 ↔ 4 := Iff.rfl
    tfae_finish
  case reported => rw [checked, Outcome.after_ending]
  case silent =>
    rw [checked]
    exact ⟨rfl, rfl⟩

/-- Files that can be read have words for the three modes, with any settings. -/
theorem modesAgree_words (inputs : Action → Bytes) (filled : paths ≠ [])
    (chosen : directory.settings descending config? = .ok settings)
    (held : List.Forall₂ directory.Holds paths texts) :
    ModesAgree directory settings.direction paths texts fun action =>
      directory.run (Job.words ⟨.files paths action, descending, config?⟩) (inputs action) :=
  modesAgree inputs
    (fun action => Job.ofWords_words (isComplete_of_holds action filled chosen held)) chosen held

/-- A text of its own is in order for a check exactly if it is printed as it is. -/
theorem check_text_iff {given? : Option String} {printing checking : List String}
    {printInput checkInput text : Bytes}
    (asked : Job.ofWords printing = .ok ⟨.text given? false, descending, config?⟩)
    (checked : Job.ofWords checking = .ok ⟨.text given? true, descending, config?⟩)
    (printText : givenText given? printInput = text)
    (checkText : givenText given? checkInput = text) (filled : text ≠ []) :
    (directory.run checking checkInput).1.ending = .success ↔
      (directory.run printing printInput).1.output = text := by
  cases chosen : directory.settings descending config? with
  | error error =>
    rw [run_of_settings_error asked chosen, run_of_settings_error checked chosen]
    exact iff_of_false Ending.noConfusion (Ne.symm filled)
  | ok settings =>
    rw [run_of_settings asked chosen, run_of_settings checked chosen]
    cases valid : Bytes.isUtf8 text with
    | false =>
      rw [run_text_of_binary _ _ (checkText ▸ valid), run_text_of_binary _ _ (printText ▸ valid)]
      exact iff_of_false Ending.noConfusion (Ne.symm filled)
    | true =>
      rw [run_text_of_isUtf8 _ _ (checkText ▸ valid), run_text_of_isUtf8 _ _ (printText ▸ valid),
        printText, checkText, runText_print _ filled, runText_check _ filled]
      simp

theorem check_text_words_iff (given? : Option String) (input : Bytes)
    (config : config? ≠ some "") (filled : givenText given? input ≠ []) :
    (directory.run (Job.words ⟨.text given? true, descending, config?⟩) input).1.ending =
        .success ↔
      (directory.run (Job.words ⟨.text given? false, descending, config?⟩) input).1.output =
        givenText given? input := by
  have complete (check : Bool) : Job.IsComplete ⟨.text given? check, descending, config?⟩ :=
    ⟨config, List.not_mem_nil, fun action => Task.noConfusion⟩
  exact check_text_iff (Job.ofWords_words (complete false)) (Job.ofWords_words (complete true))
    rfl rfl filled

end Runs

/-- In a directory with some settings, printing, checking and writing decide alike for all
files that can be read, and printing and checking for a text of its own. -/
theorem modes_decide_alike (directory : Directory) (descending : Bool)
    (config? : Option String) :
    (∀ (commands : Action → List String) (inputs : Action → Bytes) (paths : List String)
      (texts : List Bytes) (settings : Settings),
      (∀ action, Job.ofWords (commands action) =
        .ok ⟨.files paths action, descending, config?⟩) →
      directory.settings descending config? = .ok settings →
      List.Forall₂ directory.Holds paths texts →
      ModesAgree directory settings.direction paths texts fun action =>
        directory.run (commands action) (inputs action)) ∧
    ∀ (given? : Option String) (printing checking : List String)
      (printInput checkInput text : Bytes),
      Job.ofWords printing = .ok ⟨.text given? false, descending, config?⟩ →
      Job.ofWords checking = .ok ⟨.text given? true, descending, config?⟩ →
      givenText given? printInput = text → givenText given? checkInput = text → text ≠ [] →
      ((directory.run checking checkInput).1.ending = .success ↔
        (directory.run printing printInput).1.output = text) := by
  constructor
  · intro commands inputs paths texts settings asked chosen held
    exact modesAgree inputs asked chosen held
  · intro given? printing checking printInput checkInput text asked checked
    exact check_text_iff asked checked

/-- A file that is named twice and is not in order is reported twice. -/
theorem modes_decide_alike_repeated :
    let directory : Directory :=
      { entries := [("a.css", .file (Bytes.ofString "{b:c;a:d}")),
          ("b.css", .file (Bytes.ofString "{a:b;}"))] }
    let run (action : Action) := directory.run (action.words ++ ["a.css", "b.css", "a.css"]) []
    (run .check).1.ending = .failure (.unsorted ["a.css", "a.css"]) ∧
    (run .write).2 ≠ directory ∧
    ((directory.run ["--check", "--input", "{a:b;}"] []).1.ending = .success ↔
      (directory.run ["--input", "{a:b;}"] []).1.output = Bytes.ofString "{a:b;}") := by
  intro directory run
  have unsorted : directory.Holds "a.css" (Bytes.ofString "{b:c;a:d}") :=
    ⟨rfl, Bytes.isUtf8_ofString _⟩
  have sorted : directory.Holds "b.css" (Bytes.ofString "{a:b;}") := ⟨rfl, Bytes.isUtf8_ofString _⟩
  have asked : ∀ action, Job.ofWords (action.words ++ ["a.css", "b.css", "a.css"]) =
      .ok ⟨.files ["a.css", "b.css", "a.css"] action, false, none⟩ := by
    intro action
    cases action <;> rfl
  have found : unsortedPaths .ascending ["a.css", "b.css", "a.css"]
      [Bytes.ofString "{b:c;a:d}", Bytes.ofString "{a:b;}", Bytes.ofString "{b:c;a:d}"] =
        ["a.css", "a.css"] := by
    simp only [unsortedPaths, Stylesheet.alphabetize, Block.arrange_eq_insertionSort]
    decide +kernel
  obtain ⟨files, text⟩ := modes_decide_alike directory false none
  have agree := files _ (fun _ => []) _ _ {} asked rfl
    (.cons unsorted (.cons sorted (.cons unsorted .nil)))
  have reported : (run .check).1.ending = .failure (.unsorted ["a.css", "a.css"]) := by
    have reported := agree.reported
    rw [found] at reported
    exact reported
  refine ⟨reported, ?_, ?_⟩
  · intro kept
    have success := (agree.decided.out 1 0).mp kept
    exact Ending.noConfusion (reported.symm.trans success)
  · exact text (some "{a:b;}") _ _ [] [] _ rfl rfl rfl rfl (by decide +kernel)

end Directory
end CssSort
