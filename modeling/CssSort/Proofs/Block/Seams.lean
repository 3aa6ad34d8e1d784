import CssSort.Proofs.Block.Closed

/-! What is read from units put one behind the other. A unit that takes a comment
along keeps its kind, and the comment had no declaration in it. So the kinds that
are read again are some of the kinds that were put together, in the same order,
and the declarations are all there. -/
namespace CssSort
open Ascii

theorem Sealed.statement_of_endsBare {unit : Bytes} (ended : Sealed unit)
    (bare : endsBare unit = true) :
    ∃ blanks statement, AllBlank blanks ∧ IsStatement statement ∧ unit = blanks ++ statement := by
  cases ended with
  | comment all closed =>
    rw [endsBare_comment all closed] at bare
    contradiction
  | bare all valid => exact ⟨_, _, all, valid, rfl⟩
  | noted all valid spaces closed =>
    rw [endsBare_statement all valid, List.isEmpty_iff, List.append_eq_nil_iff] at bare
    exact absurd bare.2 closed.ne_nil

theorem Item.classify_append {unit next : Bytes} (ended : Sealed unit) (valid : IsUnit next)
    (bare : endsBare unit = true) (opens : opensInline next = true) :
    classify (unit ++ next) = classify unit := by
  obtain ⟨blanks, statement, all, known, rfl⟩ := ended.statement_of_endsBare bare
  rw [List.append_assoc]
  exact classify_note all known (valid.isNote opens)

/-- Name, value and hack of a declaration that has a colon. -/
def Kind.content? : Kind → Option (Bytes × Bytes × Bool)
  | .comment => none
  | .declaration found =>
    found.assignment?.map fun assignment => (assignment.name, assignment.value, found.hacked)

/-- The declarations among the units of a block. -/
def entries (units : List Bytes) : List (Bytes × Bytes × Bool) :=
  units.filterMap fun unit => (Item.classify unit).content?

theorem entries_append (front back : List Bytes) :
    entries (front ++ back) = entries front ++ entries back :=
  List.filterMap_append

theorem IsSilent.content? {unit : Bytes} (silent : IsSilent unit) (solid : unit.trimEnd = unit) :
    (Item.classify unit).content? = none := by
  obtain ⟨blanks, body, all, boundary, rfl⟩ := exists_blanks unit
  have nowhere : findTopLevel? (blanks ++ body) colon = none :=
    silent.skipPast 0 (by decide) (by decide)
  rw [findTopLevel?_blanks all _ (by decide) (by decide), Option.map_eq_none_iff] at nowhere
  have unassigned : Assignment.ofRaw? body = none := by rw [Assignment.ofRaw?, nowhere, Option.map_none]
  rw [Item.classify, Bytes.trim_append all boundary (Bytes.trimEnd_of_append solid)]
  split
  · rfl
  · simp [Kind.content?, Declaration.ofRaw, unassigned]

section Attach

variable {unit : Bytes} {units : List Bytes} (ended : Sealed unit)
  (valid : ∀ next ∈ units, IsUnit next)
include ended valid

theorem kinds_attach :
    ((attach unit units).map Item.classify).Sublist ((unit :: units).map Item.classify) := by
  cases units with
  | nil => exact .refl _
  | cons next later =>
    rw [attach]
    split
    · rename_i glued
      obtain ⟨bare, opens⟩ := Bool.and_eq_true_iff.mp glued
      have same := Item.classify_append ended (valid next List.mem_cons_self) bare opens
      simp only [List.map_cons, same]
      exact (List.sublist_cons_self _ _).cons_cons _
    · exact .refl _

theorem entries_attach : entries (attach unit units) = entries (unit :: units) := by
  cases units with
  | nil => rfl
  | cons next later =>
    rw [attach]
    split
    · rename_i glued
      obtain ⟨bare, opens⟩ := Bool.and_eq_true_iff.mp glued
      have known := valid next List.mem_cons_self
      have same := Item.classify_append ended known bare opens
      have empty := (known.isNote opens).silent.content? known.solid
      simp only [entries, List.filterMap_cons, same, empty]
    · rfl

end Attach

/-- Units that end by themselves do not end with a blank, and neither does their text. -/
theorem trimEnd_flatten {units : List Bytes} (ended : ∀ unit ∈ units, Sealed unit) :
    Bytes.trimEnd units.flatten = units.flatten := by
  induction units with
  | nil => rfl
  | cons unit units ih =>
    have later := ih fun unit member => ended unit (List.mem_cons_of_mem _ member)
    rw [List.flatten_cons, Bytes.trimEnd_append (ended unit List.mem_cons_self).solid, later]

section Flatten

variable {units : List Bytes} {behind : Bytes} (ended : ∀ unit ∈ units, Sealed unit)
  (solid : behind.trimEnd = behind)
include ended solid

theorem trimEnd_flatten_append :
    Bytes.trimEnd (units.flatten ++ behind) = units.flatten ++ behind := by
  rw [Bytes.trimEnd_append (trimEnd_flatten ended), solid]

theorem kinds_flatten_append :
    ((unitsOf (units.flatten ++ behind)).map Item.classify).Sublist
      (units.map Item.classify ++ (unitsOf behind).map Item.classify) := by
  induction units with
  | nil => exact .refl _
  | cons unit units ih =>
    have ended' := fun unit member => ended unit (List.mem_cons_of_mem _ member)
    have valid : ∀ next ∈ unitsOf (units.flatten ++ behind), IsUnit next := fun next member =>
      isUnit_of_mem (trimEnd_flatten_append ended' solid) member
    rw [List.flatten_cons, List.append_assoc, unitsOf_append (ended unit List.mem_cons_self)]
    exact (kinds_attach (ended unit List.mem_cons_self) valid).trans ((ih ended').cons_cons _)

theorem entries_flatten_append :
    entries (unitsOf (units.flatten ++ behind)) = entries units ++ entries (unitsOf behind) := by
  induction units with
  | nil => rfl
  | cons unit units ih =>
    have ended' := fun unit member => ended unit (List.mem_cons_of_mem _ member)
    have valid : ∀ next ∈ unitsOf (units.flatten ++ behind), IsUnit next := fun next member =>
      isUnit_of_mem (trimEnd_flatten_append ended' solid) member
    rw [List.flatten_cons, List.append_assoc, unitsOf_append (ended unit List.mem_cons_self),
      entries_attach (ended unit List.mem_cons_self) valid, ← List.singleton_append,
      entries_append, ih ended', ← List.append_assoc, ← entries_append, List.singleton_append]

end Flatten

theorem foldr_attach_of_not_bare {units : List Bytes} (noBare : ∀ unit ∈ units, endsBare unit = false)
    (later : List Bytes) : units.foldr attach later = units ++ later := by
  induction units with
  | nil => rfl
  | cons unit units ih =>
    have rest := ih fun unit member => noBare unit (List.mem_cons_of_mem _ member)
    rw [List.foldr_cons, rest, attach_of_not_bare (noBare unit List.mem_cons_self), List.cons_append]

theorem attach_of_not_inline {units : List Bytes}
    (apart : ∀ next ∈ units.head?, opensInline next = false) (unit : Bytes) :
    attach unit units = unit :: units := by
  cases units with
  | nil => rfl
  | cons next later => simp [attach, apart next rfl]

theorem foldr_attach_of_not_inline {units later : List Bytes}
    (apart : ∀ unit ∈ units, opensInline unit = false)
    (behind : ∀ next ∈ later.head?, opensInline next = false) :
    units.foldr attach later = units ++ later := by
  induction units with
  | nil => rfl
  | cons unit units ih =>
    have rest := ih fun unit member => apart unit (List.mem_cons_of_mem _ member)
    rw [List.foldr_cons, rest, List.cons_append]
    apply attach_of_not_inline
    cases units with
    | nil => exact behind
    | cons next units =>
      rintro _ ⟨⟩
      exact apart next (List.mem_cons_of_mem _ List.mem_cons_self)

/-- Declarations and comments read again: the first comment goes with the last
declaration if it has come to stand on its line. -/
def seam (declarations comments : List Bytes) : List Bytes :=
  match declarations.getLast?, comments with
  | some last, first :: later =>
    if endsBare last && opensInline first then
      declarations.dropLast ++ (last ++ first) :: later
    else declarations ++ comments
  | _, _ => declarations ++ comments

theorem seam_concat (front : List Bytes) (last : Bytes) (comments : List Bytes) :
    seam (front ++ [last]) comments = front ++ attach last comments := by
  cases comments with
  | nil => simp [seam, attach]
  | cons first later =>
    simp only [seam, List.getLast?_concat, attach, List.dropLast_concat]
    split
    · rfl
    · simp

/-- A comment of its own is nothing but a comment. -/
theorem IsUnit.silent_of_isRemark {unit : Bytes} (valid : IsUnit unit)
    (remark : Item.isRemark unit = true) : IsSilent unit := by
  rcases unit_cases valid.shape with silent | ⟨blanks, text, all, start, rfl⟩
  · exact silent
  · have solid : text.trimEnd = text := Bytes.trimEnd_of_append valid.solid
    rw [Item.isRemark, Item.classify_start all start solid] at remark
    contradiction

/-- A closed declaration does not start with a comment. -/
theorem IsUnit.not_inline {unit : Bytes} (valid : IsUnit unit) (closed : isClosed unit = true)
    (noRemark : Item.isRemark unit = false) : opensInline unit = false := by
  rw [Bool.eq_false_iff]
  intro opens
  have silent := (valid.isNote opens).silent
  rw [isClosed, noRemark, silent.noSemicolon] at closed
  contradiction

theorem not_inline_attach {unit : Bytes} (ended : Sealed unit) (apart : opensInline unit = false)
    (units : List Bytes) : ∀ next ∈ (attach unit units).head?, opensInline next = false := by
  cases units with
  | nil =>
    rintro _ ⟨⟩
    exact apart
  | cons next later =>
    rw [attach]
    split
    · rename_i glued
      obtain ⟨bare, -⟩ := Bool.and_eq_true_iff.mp glued
      obtain ⟨blanks, statement, all, valid, rfl⟩ := ended.statement_of_endsBare bare
      rintro _ ⟨⟩
      rw [List.append_assoc]
      exact opensInline_start all (valid.isStart_append next)
    · rintro _ ⟨⟩
      exact apart

theorem foldr_attach_eq_seam {declarations comments : List Bytes}
    (closed : ∀ unit ∈ declarations, IsUnit unit ∧ isClosed unit = true ∧ Item.isRemark unit = false)
    (remarks : ∀ unit ∈ comments, IsSilent unit) :
    (declarations ++ comments).foldr attach [] = seam declarations comments := by
  have kept : comments.foldr attach [] = comments := by
    rw [foldr_attach_of_not_bare fun unit member => (remarks unit member).notBare, List.append_nil]
  rw [List.foldr_append, kept]
  obtain rfl | ⟨front, last, rfl⟩ := List.eq_nil_or_concat' declarations
  · rfl
  · have apart : ∀ unit ∈ front ++ [last], opensInline unit = false := by
      intro unit member
      obtain ⟨valid, whole, noRemark⟩ := closed unit member
      exact valid.not_inline whole noRemark
    obtain ⟨valid, whole, noRemark⟩ := closed last List.mem_concat_self
    have ended := sealed_of_isClosed valid.shape whole noRemark
    rw [seam_concat, List.foldr_append]
    apply foldr_attach_of_not_inline
    · exact fun unit member => apart unit (List.mem_append_left _ member)
    · exact not_inline_attach ended (apart last List.mem_concat_self) comments

end CssSort
