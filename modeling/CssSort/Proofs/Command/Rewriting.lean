import CssSort.Proofs.Command.Reading

/-! Runs that write. A file may be named several times and under several paths, but all
texts are read before the first is written, so every named file is sorted once. What a
run leaves behind is told by the set of files it was given, and runs on different files
one after the other add up to one run on all of them. -/
namespace CssSort.Directory

/-- What sorting writes into a file. A file in order is left alone. -/
def sortedText? (directory : Directory) (direction : Direction) (name : String) : Option Bytes :=
  (directory.file? name).bind fun text =>
    if Stylesheet.alphabetize direction text = text then none
    else some (Stylesheet.alphabetize direction text)

/-- What sorting writes into the files with these names. -/
def sortedTexts (directory : Directory) (direction : Direction) (names : List String)
    (name : String) : Option Bytes :=
  if name ∈ names then directory.sortedText? direction name else none

def sortFiles (directory : Directory) (direction : Direction) (names : List String) :
    Directory :=
  directory.overwrite (directory.sortedTexts direction names)

/-- The names of the files that paths lead to. -/
def targets (directory : Directory) (paths : List String) : List String :=
  paths.filterMap directory.target?

variable {directory : Directory} {direction : Direction} {names : List String}

theorem mem_targets {paths : List String} {path name : String} (member : path ∈ paths)
    (target : directory.target? path = some name) : name ∈ directory.targets paths :=
  List.mem_filterMap.mpr ⟨path, member, target⟩

theorem keepsFolders_sortedTexts :
    directory.KeepsFolders (directory.sortedTexts direction names) := by
  intro name changed
  unfold sortedTexts sortedText? at changed
  split at changed
  · cases known : directory.file? name with
    | none => simp [known] at changed
    | some text => rfl
  · cases changed

theorem target?_sortFiles (path : String) :
    (directory.sortFiles direction names).target? path = directory.target? path :=
  target?_overwrite keepsFolders_sortedTexts path

theorem targets_sortFiles (paths : List String) :
    (directory.sortFiles direction names).targets paths = directory.targets paths :=
  List.filterMap_congr fun path _ => target?_sortFiles path

theorem sortFiles_congr {others : List String} (same : ∀ name, name ∈ others ↔ name ∈ names) :
    directory.sortFiles direction others = directory.sortFiles direction names := by
  unfold sortFiles
  congr 1
  funext name
  simp only [sortedTexts, same]

theorem read_sortFiles {path name : String} {text : Bytes}
    (readable : directory.read path = .ok text) (target : directory.target? path = some name)
    (member : name ∈ names) :
    (directory.sortFiles direction names).read path =
      .ok (Stylesheet.alphabetize direction text) := by
  obtain ⟨_, found, known⟩ := read_eq_ok_iff.mp readable
  obtain rfl := Option.some.inj (found.symm.trans target)
  rw [sortFiles, read_overwrite keepsFolders_sortedTexts, readable, target]
  simp only [Option.bind_some, sortedTexts, member, if_true, sortedText?, known]
  split
  · rename_i sorted
    exact congrArg Except.ok sorted.symm
  · rfl

theorem read_sortFiles_of_apart {path : String}
    (apart : ∀ name ∈ directory.target? path, name ∉ names) :
    (directory.sortFiles direction names).read path = directory.read path := by
  have kept : (directory.target? path).bind (directory.sortedTexts direction names) = none := by
    rw [Option.bind_eq_none_iff]
    intro name target
    exact if_neg (apart name target)
  rw [sortFiles, read_overwrite keepsFolders_sortedTexts, kept]
  cases directory.read path <;> rfl

/-- Sorting some files and then others is sorting all of them. -/
theorem sortFiles_sortFiles {others : List String} (disjoint : names.Disjoint others) :
    (directory.sortFiles direction names).sortFiles direction others =
      directory.sortFiles direction (names ++ others) := by
  have later : ∀ name ∈ others, (directory.sortFiles direction names).sortedText? direction name =
      directory.sortedText? direction name := by
    intro name member
    have kept : directory.sortedTexts direction names name = none :=
      if_neg fun first => disjoint first member
    rw [sortedText?, sortFiles, file?_overwrite keepsFolders_sortedTexts, kept]
    rfl
  rw [sortFiles, sortFiles, overwrite_overwrite, ← sortFiles]
  congr 1
  funext name
  simp only [sortedTexts, List.mem_append]
  by_cases member : name ∈ others
  · have first : name ∉ names := fun first => disjoint first member
    simp only [member, first, if_true, if_false, or_true, later name member, Option.or_none]
  · simp only [member, if_false, or_false, Option.none_or]

theorem sortedTexts_cons (name other : String) :
    directory.sortedTexts direction (name :: names) other =
      (directory.sortedTexts direction names other).or
        (if name = other then directory.sortedText? direction name else none) := by
  simp only [sortedTexts, List.mem_cons]
  by_cases same : name = other
  · subst same
    by_cases member : name ∈ names <;> simp [member]
  · simp [same, Ne.symm same]

section Run

variable {paths : List String} {texts : List Bytes}

/-- What is written for the changed sheets, in terms of the files alone. -/
theorem written_changed (held : List.Forall₂ directory.Holds paths texts) :
    directory.written (((List.zipWith (Sheet.ofText direction) paths texts).filter
        Sheet.isChanged).map fun sheet => (sheet.path, sheet.after)) =
      directory.sortedTexts direction (directory.targets paths) := by
  induction held with
  | nil => rfl
  | @cons path text paths texts first held ih =>
    obtain ⟨name, target, known⟩ := read_eq_ok_iff.mp first.1
    have names : directory.targets (path :: paths) = name :: directory.targets paths :=
      List.filterMap_cons_some target
    funext other
    rw [names, sortedTexts_cons, ← ih, List.zipWith_cons_cons]
    by_cases sorted : Stylesheet.alphabetize direction text = text
    · have dropped : (Sheet.ofText direction path text).isChanged = false := by
        simp [Sheet.isChanged, Sheet.ofText, sorted]
      simp [dropped, sortedText?, known, sorted]
    · have kept : (Sheet.ofText direction path text).isChanged = true :=
        bne_iff_ne.mpr (Ne.symm sorted)
      rw [List.filter_cons_of_pos kept]
      simp only [List.map_cons, written, Sheet.ofText, target, Option.some.injEq, sortedText?,
        known, Option.bind_some, sorted, if_false]

theorem forall₂_read_sortFiles (direction : Direction)
    (held : List.Forall₂ directory.Holds paths texts) :
    List.Forall₂ (fun path text =>
      (directory.sortFiles direction (directory.targets paths)).read path =
        .ok (Stylesheet.alphabetize direction text)) paths texts := by
  rw [List.forall₂_iff_zip] at held ⊢
  refine ⟨held.1, ?_⟩
  intro path text member
  have first := held.2 member
  obtain ⟨name, target, -⟩ := read_eq_ok_iff.mp first.1
  exact read_sortFiles first.1 target (mem_targets (List.of_mem_zip member).1 target)

variable {words : List String} {descending : Bool} {config? : Option String}
  {settings : Settings}

/-- A run that writes sorts the files it was given. -/
theorem write_run (input : Bytes)
    (asked : Job.ofWords words = .ok ⟨.files paths .write, descending, config?⟩)
    (chosen : directory.settings descending config? = .ok settings)
    (held : List.Forall₂ directory.Holds paths texts) :
    ∃ writes events, directory.run words input = ({ writes := writes, log := events },
      directory.sortFiles settings.direction (directory.targets paths)) := by
  obtain ⟨events, ran⟩ := run_of_holds asked chosen held
  have readable : ∀ write ∈ (Action.write.run
      (List.zipWith (Sheet.ofText settings.direction) paths texts)).writes,
        ∃ old, directory.read write.1 = .ok old := by
    intro write member
    obtain ⟨sheet, changed, rfl⟩ := List.mem_map.mp member
    exact ⟨_, (holds_of_mem_sheets held (List.mem_of_mem_filter changed)).1⟩
  rw [ran, writeAll_eq readable]
  simp only [Action.run, written_changed held]
  exact ⟨_, _, rfl⟩

/-- Files that can be read need no words but their paths to be sorted. -/
theorem write_words_run (input : Bytes) (filled : paths ≠ [])
    (chosen : directory.settings descending config? = .ok settings)
    (held : List.Forall₂ directory.Holds paths texts) :
    ∃ writes events, directory.run (Job.words ⟨.files paths .write, descending, config?⟩) input =
      ({ writes := writes, log := events },
        directory.sortFiles settings.direction (directory.targets paths)) :=
  write_run input (Job.ofWords_words (isComplete_of_holds .write filled chosen held)) chosen held

end Run

/-- Runs one after the other that write, each with files of its own. -/
inductive Rewrites (descending : Bool) (config? : Option String) :
    Directory → List (List String) → Directory → Prop
  | done {directory : Directory} : Rewrites descending config? directory [] directory
  | run {directory last : Directory} {words : List String} {input : Bytes}
      {paths : List String} {batches : List (List String)} :
      Job.ofWords words = .ok ⟨.files paths .write, descending, config?⟩ →
      Rewrites descending config? (directory.run words input).2 batches last →
      Rewrites descending config? directory (paths :: batches) last

/-- There are such runs for all batches of paths that are not empty. -/
theorem exists_rewrites (directory : Directory) (descending : Bool) {config? : Option String}
    {batches : List (List String)} (config : config? ≠ some "")
    (filled : ∀ paths ∈ batches, paths ≠ [] ∧ "" ∉ paths) :
    ∃ last, Rewrites descending config? directory batches last := by
  induction batches generalizing directory with
  | nil => exact ⟨directory, .done⟩
  | cons paths batches ih =>
    obtain ⟨⟨first, named⟩, later⟩ := List.forall_mem_cons.mp filled
    have complete : Job.IsComplete ⟨.files paths .write, descending, config?⟩ :=
      ⟨config, named, by rintro action ⟨⟩; exact first rfl⟩
    have asked := Job.ofWords_words complete
    obtain ⟨last, runs⟩ := ih (directory.run _ []).2 later
    exact ⟨last, .run asked runs⟩

/-- Two lists of paths lead to the same files. -/
def SameFiles (directory : Directory) (paths others : List String) : Prop :=
  ∀ target, target ∈ others.map directory.target? ↔ target ∈ paths.map directory.target?

/-- No file is named in two of the batches. -/
def Separate (directory : Directory) (batches : List (List String)) : Prop :=
  batches.Pairwise fun first second =>
    (directory.targets first).Disjoint (directory.targets second)

theorem mem_targets_iff {paths : List String} {name : String} :
    name ∈ directory.targets paths ↔ some name ∈ paths.map directory.target? := by
  simp [targets]

theorem SameFiles.readable {paths others : List String} (same : directory.SameFiles paths others)
    (readable : ∀ path ∈ paths, ∃ text, directory.Holds path text) :
    ∀ path ∈ others, ∃ text, directory.Holds path text := by
  intro path member
  obtain ⟨known, listed, shared⟩ :=
    List.mem_map.mp ((same (directory.target? path)).mp (List.mem_map_of_mem member))
  obtain ⟨text, held⟩ := readable known listed
  obtain ⟨name, target, contents⟩ := read_eq_ok_iff.mp held.1
  exact ⟨text, read_eq_ok_iff.mpr ⟨name, shared.symm.trans target, contents⟩, held.2⟩

theorem holds_sortFiles_of_apart {path : String} {text : Bytes}
    (apart : ∀ name ∈ directory.target? path, name ∉ names) (held : directory.Holds path text) :
    (directory.sortFiles direction names).Holds path text :=
  ⟨(read_sortFiles_of_apart apart).trans held.1, held.2⟩

theorem targets_append (paths others : List String) :
    directory.targets (paths ++ others) = directory.targets paths ++ directory.targets others :=
  List.filterMap_append

theorem Separate.disjoint_flatten {paths : List String} {batches : List (List String)}
    (separate : directory.Separate (paths :: batches)) :
    (directory.targets paths).Disjoint (directory.targets batches.flatten) := by
  intro name first later
  obtain ⟨path, member, target⟩ := List.mem_filterMap.mp later
  obtain ⟨batch, known, inside⟩ := List.mem_flatten.mp member
  have disjoint := (List.pairwise_cons.mp separate).1 batch known
  exact disjoint first (mem_targets inside target)

/-- Runs on separate files add up to one change of the directory. A run leaves the files
of the others and the configuration file as they were. -/
theorem Rewrites.eq_sortFiles {descending : Bool} {config? : Option String} {last : Directory}
    {batches : List (List String)} {settings : Settings}
    (runs : Rewrites descending config? directory batches last)
    (chosen : directory.settings descending config? = .ok settings)
    (apart : ∀ path ∈ config?, ∀ name ∈ directory.target? path,
      name ∉ directory.targets batches.flatten)
    (readable : ∀ path ∈ batches.flatten, ∃ text, directory.Holds path text)
    (separate : directory.Separate batches) :
    last = directory.sortFiles settings.direction (directory.targets batches.flatten) := by
  induction runs with
  | done => exact overwrite_none.symm
  | @run directory last words input paths batches asked runs ih =>
    rw [List.flatten_cons] at readable
    rw [List.flatten_cons, targets_append] at apart
    rw [List.flatten_cons, targets_append]
    obtain ⟨texts, held⟩ := forall_holds_iff.mp fun path member =>
      readable path (List.mem_append_left _ member)
    obtain ⟨writes, events, ran⟩ := write_run input asked chosen held
    have disjoint := separate.disjoint_flatten
    simp only [ran, targets_sortFiles, target?_sortFiles, Separate] at ih
    rw [← sortFiles_sortFiles disjoint]
    apply ih
    · rw [settings_congr descending, chosen]
      intro path configured
      apply read_sortFiles_of_apart
      intro name target member
      exact apart path configured name target (List.mem_append_left _ member)
    · intro path configured name target member
      exact apart path configured name target (List.mem_append_right _ member)
    · intro path member
      obtain ⟨text, held⟩ := readable path (List.mem_append_right _ member)
      refine ⟨text, holds_sortFiles_of_apart ?_ held⟩
      intro name target first
      exact disjoint first (mem_targets member target)
    · exact (List.pairwise_cons.mp separate).2

section Rewriting

variable {words : List String} {paths : List String} {texts : List Bytes} {descending : Bool}
  {config? : Option String} {settings : Settings}

/-- A run that writes sorts every file it is given and no other. The same files under other
paths, in another order, named more than once, or given to several runs of which each has
files of its own, end in the same directory. -/
theorem write_sorts_files (input : Bytes)
    (asked : Job.ofWords words = .ok ⟨.files paths .write, descending, config?⟩)
    (chosen : directory.settings descending config? = .ok settings)
    (apart : ∀ path ∈ config?, directory.target? path ∉ paths.map directory.target?)
    (held : List.Forall₂ directory.Holds paths texts) :
    (directory.run words input).1.ending = .success ∧
    (directory.run words input).1.output = [] ∧
    List.Forall₂ (fun path text => (directory.run words input).2.read path =
      .ok (Stylesheet.alphabetize settings.direction text)) paths texts ∧
    (∀ path, directory.target? path ∉ paths.map directory.target? →
      (directory.run words input).2.read path = directory.read path) ∧
    ∀ batches last, Rewrites descending config? directory batches last →
      directory.SameFiles paths batches.flatten → directory.Separate batches →
      last = (directory.run words input).2 := by
  obtain ⟨writes, events, ran⟩ := write_run input asked chosen held
  rw [ran]
  refine ⟨rfl, rfl, forall₂_read_sortFiles _ held, ?_, ?_⟩
  · intro path other
    apply read_sortFiles_of_apart
    intro name target member
    rw [Option.mem_def] at target
    exact other (target ▸ mem_targets_iff.mp member)
  · intro batches last runs same separate
    have readable := same.readable (forall_holds_iff.mpr ⟨texts, held⟩)
    have others : ∀ path ∈ config?, ∀ name ∈ directory.target? path,
        name ∉ directory.targets batches.flatten := by
      intro path configured name target member
      rw [Option.mem_def] at target
      rw [mem_targets_iff, same, ← target] at member
      exact apart path configured member
    rw [runs.eq_sortFiles chosen others readable separate]
    apply sortFiles_congr
    intro name
    rw [mem_targets_iff, mem_targets_iff]
    exact same (some name)

end Rewriting

/-- A file that is named under several paths is sorted once, also where a path leaves the
directory and leads back, and two runs with a file each end in the same directory. -/
theorem write_sorts_files_aliases :
    let directory : Directory :=
      { entries := [("a.css", .file (Bytes.ofString "{b:c;a:d}")),
          ("b.css", .file (Bytes.ofString "{z:y}")), ("o.json", .file (Bytes.ofString "[false]"))]
        home := ["srv", "site"] }
    let words := ["--write", "--config", "o.json", "a.css", "b.css", "./a.css", "/srv/site/a.css"]
    let first := (directory.run ["--write", "--config", "o.json", "b.css"] []).2
    (directory.run words []).1.ending = .success ∧
    (directory.run words []).2.read "a.css" =
      .ok (Stylesheet.alphabetize .descending (Bytes.ofString "{b:c;a:d}")) ∧
    (first.run ["--write", "../site/a.css", "--config", "o.json"] []).2 =
      (directory.run words []).2 := by
  intro directory words first
  have targets : directory.target? "a.css" = some "a.css" ∧
      directory.target? "./a.css" = some "a.css" ∧
      directory.target? "/srv/site/a.css" = some "a.css" ∧
      directory.target? "../site/a.css" = some "a.css" ∧
      directory.target? "b.css" = some "b.css" ∧ directory.target? "o.json" = some "o.json" :=
    ⟨rfl, rfl, rfl, rfl, rfl, rfl⟩
  have one : ∀ path, directory.target? path = some "a.css" →
      directory.Holds path (Bytes.ofString "{b:c;a:d}") := fun path target =>
    ⟨read_eq_ok_iff.mpr ⟨_, target, rfl⟩, Bytes.isUtf8_ofString _⟩
  have two : directory.Holds "b.css" (Bytes.ofString "{z:y}") := ⟨rfl, Bytes.isUtf8_ofString _⟩
  have chosen : directory.settings false (some "o.json") = .ok { direction := .descending } := rfl
  have runs : Rewrites false (some "o.json") directory [["b.css"], ["../site/a.css"]]
      (first.run ["--write", "../site/a.css", "--config", "o.json"] []).2 :=
    .run rfl (.run rfl .done)
  have asked : Job.ofWords words =
      .ok ⟨.files ["a.css", "b.css", "./a.css", "/srv/site/a.css"] .write, false,
        some "o.json"⟩ := rfl
  obtain ⟨ending, -, sorted, -, same⟩ := write_sorts_files [] asked chosen
    (by rintro _ ⟨⟩; simp [targets])
    (.cons (one _ rfl) (.cons two (.cons (one _ rfl) (.cons (one _ rfl) .nil))))
  obtain ⟨read, -⟩ := List.forall₂_cons.mp sorted
  refine ⟨ending, read, same _ _ runs ?_ ?_⟩
  · intro target
    simp [targets, or_comm]
  · simp [Separate, targets, Directory.targets]

end CssSort.Directory
