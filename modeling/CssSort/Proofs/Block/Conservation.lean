import CssSort.Proofs.Block.Stability

/-! Sorting a block loses nothing, repeats nothing and changes nothing, however the
block is written. Its units and the blanks behind them make up the block with its
semicolon, the units are written back in some order, and so the bytes are those of
the block and the semicolon that was missing. -/
namespace CssSort.Block
open Ascii

variable {direction : Direction} {block : Bytes}

/-- There is a last meaningful piece and it does not end with a semicolon. -/
def LacksSemicolon (block : Bytes) : Prop :=
  ∃ stop last, lastSignificant? block = some (stop, last) ∧ last ≠ semicolon

theorem lacksSemicolon_iff : LacksSemicolon block ↔ ∃ stop, missingSemicolon? block = some stop :=
  exists_congr fun _ => missingSemicolon?_eq_some_iff.symm

/-- Only blanks make up a block without units. -/
theorem units_eq_nil_iff : (parts block).units = [] ↔ AllBlank block := by
  constructor
  · intro vacant
    have whole := flatten_parts block
    rw [terminate_of_none (missingSemicolon?_of_units_nil vacant), vacant, List.flatten_nil,
      List.nil_append] at whole
    rw [← whole]
    exact allBlank_trailing block
  · intro all
    have units : (parts block).units = unitsOf block.trimEnd := by
      rw [parts_of_none (missingSemicolon?_blanks all)]
      rfl
    rw [units, Bytes.trimEnd_eq_nil_iff.mpr all, unitsOf_nil]

/-- The block has gained a semicolon or nothing, and its length tells which. -/
theorem perm_arrange_iff :
    ((arrange direction block).Perm (semicolon :: block) ↔ LacksSemicolon block) ∧
    ((arrange direction block).Perm block ↔ ¬ LacksSemicolon block) := by
  have moved := perm_arrange direction block
  have longer : ¬ (semicolon :: block).Perm block := by
    intro same
    simpa using same.length_eq
  rw [lacksSemicolon_iff]
  cases missing : missingSemicolon? block with
  | none =>
    rw [terminate_of_none missing] at moved
    constructor
    · exact iff_of_false (fun more => longer (more.symm.trans moved)) (by simp)
    · exact iff_of_true moved (by simp)
  | some stop =>
    have more := moved.trans (perm_terminate missing)
    constructor
    · exact iff_of_true more (by simp)
    · exact iff_of_false (fun same => longer (more.symm.trans same)) (by simp)

/-- Sorting writes the units of a block in some order, with the blanks behind them,
and these units make up the block. Its bytes are those of the block, and one
semicolon more exactly if the last declaration lacks its own. -/
theorem arrange_conserves (direction : Direction) (block : Bytes) :
    (∃ order : List Bytes, order.Perm (parts block).units ∧
      arrange direction block = order.flatten ++ (parts block).trailing) ∧
    (parts block).units.flatten ++ (parts block).trailing = terminate block ∧
    AllBlank (parts block).trailing ∧
    ((arrange direction block).Perm (semicolon :: block) ↔ LacksSemicolon block) ∧
    ((arrange direction block).Perm block ↔ ¬ LacksSemicolon block) ∧
    (AllBlank block → arrange direction block = block) := by
  refine ⟨?_, flatten_parts block, allBlank_trailing block, perm_arrange_iff.1,
    perm_arrange_iff.2, ?_⟩
  · exact ⟨((parts block).sort direction).units, Parts.perm_sort direction (parts block),
      arrange_eq direction block⟩
  · intro all
    exact arrange_of_units_nil (units_eq_nil_iff.mpr all)

/-- A string that is never closed keeps its bytes and takes in a semicolon. -/
theorem arrange_conserves_string :
    arrange .ascending (Bytes.ofString "b:c;a:'x") = Bytes.ofString "a:'x;b:c;" ∧
    (arrange .ascending (Bytes.ofString "b:c;a:'x")).Perm
      (semicolon :: Bytes.ofString "b:c;a:'x") ∧
    AllBlank (Bytes.ofString "\n \t") ∧
    arrange .ascending (Bytes.ofString "\n \t") = Bytes.ofString "\n \t" := by
  have lacks : LacksSemicolon (Bytes.ofString "b:c;a:'x") := ⟨8, 0x78, by decide +kernel, by decide⟩
  have blank : AllBlank (Bytes.ofString "\n \t") := by
    unfold AllBlank
    decide +kernel
  obtain ⟨-, -, -, more, -, -⟩ := arrange_conserves .ascending (Bytes.ofString "b:c;a:'x")
  obtain ⟨-, -, -, -, -, same⟩ := arrange_conserves .ascending (Bytes.ofString "\n \t")
  refine ⟨?_, more.mpr lacks, blank, same blank⟩
  rw [arrange_eq_insertionSort]
  decide +kernel

end CssSort.Block
