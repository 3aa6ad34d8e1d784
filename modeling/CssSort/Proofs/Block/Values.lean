import CssSort.Proofs.Block.Endings
import CssSort.Proofs.Item.Anatomy

/-! Where the value of a declaration ends. A block is cut by one cursor that goes on to the next
semicolon, and a unit is taken apart by two more: one looks for its colon, the other starts
afresh behind the colon and looks for the semicolon. Since the first cursor remembers nothing
at these places, the value ends at the very semicolon at which the unit was cut off, or with
the unit if there is none. -/
namespace CssSort
open Ascii

/-- The one semicolon of a declaration is found behind its colon, read afresh. -/
theorem IsStatement.findTopLevel?_value {statement note : Bytes} (valid : IsStatement statement)
    (silent : IsSilent note) {middle : Nat}
    (found : findTopLevel? (statement ++ note) colon = some middle) :
    ∃ stop, findTopLevel? ((statement ++ note).drop (middle + 1)) semicolon = some stop ∧
      middle + 1 + stop = statement.length - 1 := by
  have bare : CssSort.endsBare statement = true :=
    valid.endsBare (show AllBlank [] by simp [AllBlank])
  have own : findTopLevel? statement colon = some middle := by
    rwa [findTopLevel?_note bare silent] at found
  obtain ⟨front, tail, rfl, rfl, -⟩ := findTopLevel?_hit isPlain_colon own
  have more : tail ≠ [] := by
    rintro rfl
    obtain ⟨read, ended⟩ := valid.exists_concat
    have last : [colon] = [semicolon] := (List.append_inj' ended rfl).2
    contradiction
  have places := valid.topLevelPlaces_append silent
  rw [List.append_assoc, List.cons_append] at found places
  have search := find?_topLevelPlaces isPlain_colon (show colon ≠ semicolon by decide) found
  have later : front.length < (front ++ colon :: tail).length - 1 := by
    have := List.length_pos_iff.mpr more
    simp only [List.length_append, List.length_cons]
    omega
  rw [places, List.find?_cons_of_pos (by simpa using later)] at search
  obtain ⟨stop, hit, place⟩ := Option.map_eq_some_iff.mp search.symm
  refine ⟨stop, ?_, place⟩
  rw [List.append_assoc, List.drop_length_add_append]
  exact hit

/-- Without a semicolon in the whole text there is none behind the colon. -/
theorem findTopLevel?_value_none {raw : Bytes} {middle : Nat}
    (found : findTopLevel? raw colon = some middle) (nowhere : findTopLevel? raw semicolon = none) :
    findTopLevel? (raw.drop (middle + 1)) semicolon = none := by
  obtain ⟨front, tail, rfl, rfl, -⟩ := findTopLevel?_hit isPlain_colon found
  have places : topLevelPlaces (front ++ colon :: tail) semicolon = [] :=
    Cursor.places_of_none nowhere
  have search := find?_topLevelPlaces isPlain_colon (show colon ≠ semicolon by decide) found
  rw [places, List.find?_nil] at search
  rw [List.drop_length_add_append]
  exact Option.map_eq_none_iff.mp search.symm

namespace Declaration

variable {raw : Bytes}

theorem exists_colon (named : (ofRaw raw).property? ≠ none) :
    ∃ middle, findTopLevel? raw colon = some middle := by
  cases found : findTopLevel? raw colon with
  | some middle => exact ⟨middle, rfl⟩
  | none => exact absurd (by simp [ofRaw, property?, name?, Assignment.ofRaw?, found]) named

theorem value?_ofRaw {middle : Nat} (found : findTopLevel? raw colon = some middle) :
    (ofRaw raw).value? = some (Bytes.trim ((raw.drop (middle + 1)).take
      ((findTopLevel? (raw.drop (middle + 1)) semicolon).getD
        (raw.drop (middle + 1)).length))) := by
  simp [ofRaw, value?, Assignment.ofRaw?, found]

end Declaration

theorem Bytes.exists_blanks_trim {text : Bytes} (solid : text.trimEnd = text) :
    ∃ blanks, AllBlank blanks ∧ text = blanks ++ text.trim := by
  obtain ⟨blanks, body, all, noBlank, rfl⟩ := exists_blanks text
  exact ⟨blanks, all, by rw [trim_append all noBlank (trimEnd_of_append solid)]⟩

namespace Block

/-- The declaration in a unit, with its colon at `middle` behind the `blanks` in front, ends
where the cursor came to the end of the unit: the semicolon found behind the colon is the one
that the cursor stopped at, and where it found none, the value is all that is left. -/
structure EndsAlike (start : Cursor) (blanks : Bytes) (middle : Nat) (declaration : Declaration) :
    Prop where
  declared : start.ending ≠ .comment
  ended : ∀ place, start.ending = .semicolon place →
    start.pos + (blanks.length + middle) < place ∧
    ∃ stop, findTopLevel? (start.unit.trim.drop (middle + 1)) semicolon = some stop ∧
      place = start.pos + (blanks.length + (middle + 1 + stop)) ∧
      declaration.value? = some (Bytes.trim ((start.unit.trim.drop (middle + 1)).take stop))
  missing : start.ending = .missing →
    findTopLevel? (start.unit.trim.drop (middle + 1)) semicolon = none ∧
    ∃ front gap value, start.unit.trim = front ++ colon :: (gap ++ value) ∧
      front.length = middle ∧ AllBlank gap ∧ declaration.value? = some value

variable {block : Bytes} {start : Cursor}

theorem trim_unit {blanks body : Bytes} (member : start ∈ starts block) (all : AllBlank blanks)
    (shape : start.unit = blanks ++ body) (noBlank : ∀ byte ∈ body.head?, isBlank byte = false) :
    start.unit.trim = body ∧ body.trimEnd = body := by
  have solid := solid_of_mem member
  rw [shape] at solid ⊢
  have solid' : body.trimEnd = body := Bytes.trimEnd_of_append solid
  exact ⟨Bytes.trim_append all noBlank solid', solid'⟩

theorem endsAlike_ended {blanks statement note : Bytes} {middle : Nat}
    (raw : start.unit.trim = statement ++ note) (valid : IsStatement statement)
    (silent : IsSilent note)
    (ending : start.ending = .semicolon (start.pos + (blanks.length + (statement.length - 1))))
    (found : findTopLevel? start.unit.trim colon = some middle) :
    EndsAlike start blanks middle (Declaration.ofRaw start.unit.trim) := by
  have value := Declaration.value?_ofRaw found
  rw [raw] at found
  obtain ⟨stop, hit, last⟩ := valid.findTopLevel?_value silent found
  rw [← raw] at hit
  constructor
  · simp [ending]
  · intro place same
    rw [ending, UnitEnding.semicolon.injEq] at same
    rw [hit, Option.getD_some] at value
    exact ⟨by omega, stop, hit, by omega, value⟩
  · simp [ending]

theorem endsAlike_missing {blanks : Bytes} {middle : Nat}
    (solid : start.unit.trim.trimEnd = start.unit.trim) (ending : start.ending = .missing)
    (nowhere : findTopLevel? start.unit.trim semicolon = none)
    (found : findTopLevel? start.unit.trim colon = some middle) :
    EndsAlike start blanks middle (Declaration.ofRaw start.unit.trim) := by
  have value := Declaration.value?_ofRaw found
  have absent := findTopLevel?_value_none found nowhere
  constructor
  · simp [ending]
  · simp [ending]
  · intro _
    refine ⟨absent, ?_⟩
    rw [absent, Option.getD_none, List.take_length] at value
    obtain ⟨front, tail, raw, rfl, -⟩ := findTopLevel?_hit isPlain_colon found
    have cut : start.unit.trim = (front ++ [colon]) ++ tail := by simp [raw]
    have behind : start.unit.trim.drop (front.length + 1) = tail := by
      rw [cut]
      exact List.drop_left' (by simp)
    rw [behind] at value
    rw [cut] at solid
    obtain ⟨gap, all, whole⟩ := Bytes.exists_blanks_trim (Bytes.trimEnd_of_append solid)
    exact ⟨front, gap, Bytes.trim tail, by rw [raw, ← whole], rfl, all, value⟩

/-- A comment, closed or not, has no colon at top level. -/
theorem not_named_of_silent {comment : Bytes} (raw : start.unit.trim = comment)
    (silent : IsSilent comment) : (Declaration.ofRaw start.unit.trim).property? = none := by
  by_contra named
  obtain ⟨middle, found⟩ := Declaration.exists_colon named
  have nowhere : findTopLevel? comment colon = none := silent.skipPast 0 (by decide) (by decide)
  rw [raw, nowhere] at found
  contradiction

theorem endsAlike_of_named (member : start ∈ starts block)
    (named : (Declaration.ofRaw start.unit.trim).property? ≠ none) :
    ∃ blanks middle, AllBlank blanks ∧ start.unit = blanks ++ start.unit.trim ∧
      findTopLevel? start.unit.trim colon = some middle ∧
      EndsAlike start blanks middle (Declaration.ofRaw start.unit.trim) := by
  obtain ⟨middle, found⟩ := Declaration.exists_colon named
  have nothing : AllBlank [] := by simp [AllBlank]
  cases unitShape_of_mem member with
  | closed all closed shape _ _ =>
    obtain ⟨raw, -⟩ := trim_unit member all shape (head_comment closed.opens)
    exact absurd (not_named_of_silent raw (closed.silent nothing)) named
  | unclosed all unclosed shape _ _ =>
    obtain ⟨raw, -⟩ := trim_unit member all shape (head_comment unclosed.opens)
    exact absurd (not_named_of_silent raw (unclosed.silent nothing)) named
  | @ended blanks statement note all valid silent shape ending =>
    obtain ⟨raw, -⟩ := trim_unit member all shape (valid.isStart_append note).noBlank
    exact ⟨blanks, middle, all, by rw [raw, shape], found,
      endsAlike_ended raw valid silent ending found⟩
  | @missing blanks body all first nowhere shape ending _ =>
    obtain ⟨raw, solid⟩ := trim_unit member all shape first.noBlank
    rw [← raw] at solid nowhere
    exact ⟨blanks, middle, all, by rw [raw, shape], found,
      endsAlike_missing solid ending nowhere found⟩

/-- The units of a block are read by one cursor, which stands at each of them behind those in
front, and only the last can lack its semicolon. If a unit has a property, its colon stands
before the semicolon at which the cursor ended the unit, and the value ends at that very
semicolon. If the cursor found none, the value runs to the end of the unit. -/
theorem value_ends_with_unit (block : Bytes) :
    (starts block).map Cursor.unit = (Parts.ofText block).units ∧
    ∀ before start after, starts block = before ++ start :: after →
      start.pos = (before.map Cursor.unit).flatten.length ∧
      (start.ending = .missing → after = []) ∧
      ∀ declaration, Item.classify start.unit = .declaration declaration →
        declaration.property? ≠ none →
        ∃ blanks middle, AllBlank blanks ∧ start.unit = blanks ++ start.unit.trim ∧
          findTopLevel? start.unit.trim colon = some middle ∧
          EndsAlike start blanks middle declaration := by
  refine ⟨map_unit_starts block, fun before start after whole => ?_⟩
  have member : start ∈ starts block := by simp [whole]
  obtain ⟨-, reads, rest, -⟩ := Cursor.of_mem_unitStarts rfl whole
  refine ⟨reads.pos.trans (Nat.zero_add _), ?_, ?_⟩
  · intro missing
    rw [rest]
    cases unitShape_of_mem member with
    | closed _ _ _ ending _ | unclosed _ _ _ ending _ | ended _ _ _ _ ending =>
      rw [ending] at missing
      contradiction
    | missing _ _ _ _ _ finished => exact Cursor.unitStarts_of_rest_nil finished
  · intro declaration own named
    obtain rfl : Declaration.ofRaw start.unit.trim = declaration := by
      unfold Item.classify at own
      split at own
      · cases own
      · exact Kind.declaration.inj own
    exact endsAlike_of_named member named

/-- A semicolon and a colon in parentheses, a comment with both behind the declaration, and a
last unit whose only semicolon stands in a parenthesis that is never closed. -/
theorem value_ends_with_unit_parentheses :
    let text := Bytes.ofString " a:url(;:) ; /*b:;*/ *c\\;:d:e;\n f: g(;"
    let first := Cursor.fresh 0 text
    let last := Cursor.fresh 30 (text.drop 30)
    starts text = [first, Cursor.fresh 20 (text.drop 20), last] ∧
    first.ending = .semicolon 11 ∧ last.ending = .missing ∧
    (Declaration.ofRaw first.unit.trim).value? = some (Bytes.ofString "url(;:)") ∧
    (Declaration.ofRaw last.unit.trim).value? = some (Bytes.ofString "g(;") ∧
    (∃ blanks middle, first.unit = blanks ++ first.unit.trim ∧
      EndsAlike first blanks middle (Declaration.ofRaw first.unit.trim)) ∧
    last.pos = (Bytes.ofString " a:url(;:) ; /*b:;*/ *c\\;:d:e;").length ∧
    ∃ blanks middle, last.unit = blanks ++ last.unit.trim ∧
      EndsAlike last blanks middle (Declaration.ofRaw last.unit.trim) := by
  intro text first last
  have whole : starts text = [first, Cursor.fresh 20 (text.drop 20), last] := by decide +kernel
  obtain ⟨-, reading⟩ := value_ends_with_unit text
  obtain ⟨-, -, ended⟩ := reading [] first _ whole
  obtain ⟨place, -, missing⟩ := reading [first, Cursor.fresh 20 (text.drop 20)] last [] whole
  obtain ⟨blanks, middle, -, shape, -, alike⟩ :=
    ended (Declaration.ofRaw first.unit.trim) (by decide +kernel) (by decide +kernel)
  obtain ⟨blanks', middle', -, shape', -, alike'⟩ :=
    missing (Declaration.ofRaw last.unit.trim) (by decide +kernel) (by decide +kernel)
  exact ⟨whole, by decide +kernel, by decide +kernel, by decide +kernel, by decide +kernel,
    ⟨blanks, middle, shape, alike⟩, place.trans (by decide +kernel), blanks', middle', shape',
    alike'⟩

end Block
end CssSort
