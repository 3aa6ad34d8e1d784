import CssSort.Proofs.Block.Stability

/-! The declarations of a block before and after sorting. Those in front of the
first unit that is not closed are always kept. From there on a comment, a string
or a parenthesis that was left open can take in what sorting has put behind it, so
the declarations are kept exactly if they are kept in that part of the block. -/
namespace CssSort.Block
open Ascii

variable {direction : Direction} {block : Bytes}

theorem perm_entries_sort (direction : Direction) (parts : Parts) :
    (entries (parts.sort direction).units).Perm (entries parts.units) :=
  (Parts.perm_sort direction parts).filterMap _

theorem entries_of_spill (short : (spill direction block).length ≤ 1) :
    entries (parts (arrange direction block)).units =
      entries ((parts block).sort direction).units := by
  have same := parts_of_none (missingSemicolon?_of_spill short)
  rcases sorted_of_spill short with vacant | ⟨front, last, sorted, ended⟩
  · rw [arrange_of_units_nil (units_nil_of_sort vacant), units_nil_of_sort vacant, vacant]
  · have member := last_mem_parts sorted
    rw [same, ofText_arrange sorted ended, sorted, entries_append,
      entries_flatten_append ended (isUnit_parts member).solid, unitsOf_unit member]

/-- The closed units in front of the first one that is not end by themselves. -/
theorem sealed_of_mem_takeWhile {unit : Bytes} (spills : spill direction block ≠ [])
    (member : unit ∈ ((parts block).sort direction).units.takeWhile isClosed) : Sealed unit := by
  obtain ⟨rest, last, cut⟩ := (List.eq_nil_or_concat' (spill direction block)).resolve_left spills
  have sorted : ((parts block).sort direction).units =
      (((parts block).sort direction).units.takeWhile isClosed ++ rest) ++ [last] := by
    rw [List.append_assoc, ← cut, takeWhile_append_spill]
  exact sealed_of_mem_front sorted (List.mem_append_left _ member) (List.mem_takeWhile_imp member)

/-- Units that end by themselves leave the parts of what follows as they are. -/
theorem entries_parts_append {units : List Bytes} (ended : ∀ unit ∈ units, Sealed unit)
    (behind : Bytes) : entries (parts (units.flatten ++ behind)).units =
      entries units ++ entries (parts behind).units := by
  rw [parts, parts, Parts.ofText, Parts.ofText, terminate_flatten_append ended,
    Bytes.trimEnd_append (trimEnd_flatten ended)]
  exact entries_flatten_append ended (Bytes.trimEnd_trimEnd _)

/-- Sorting keeps the declarations of a block exactly if it keeps those that are
read from the first unit on that is not closed. It does so if that one comes last. -/
theorem perm_entries_arrange_iff (direction : Direction) (block : Bytes) :
    (entries (parts (arrange direction block)).units).Perm (entries (parts block).units) ↔
      (spill direction block).length ≤ 1 ∨
      (entries (parts ((spill direction block).flatten ++ (parts block).trailing)).units).Perm
        (entries (spill direction block)) := by
  have moved := perm_entries_sort direction (parts block)
  by_cases short : (spill direction block).length ≤ 1
  · refine iff_of_true ?_ (.inl short)
    rw [entries_of_spill short]
    exact moved
  · have spills : spill direction block ≠ [] := by
      intro nothing
      simp [nothing] at short
    have ended : ∀ unit ∈ ((parts block).sort direction).units.takeWhile isClosed, Sealed unit :=
      fun unit member => sealed_of_mem_takeWhile spills member
    rw [or_iff_right short, arrange_eq, ← takeWhile_append_spill, List.flatten_append,
      List.append_assoc, entries_parts_append ended]
    rw [← takeWhile_append_spill, entries_append] at moved
    exact (moved.congr_right _).symm.trans (List.perm_append_left_iff _)

/-- A comment that is never closed is sorted in front of a declaration. -/
theorem declaration_commented_out :
    let block := Bytes.ofString "b:c;a:/*"
    arrange .ascending block = Bytes.ofString "a:;/*b:c;" ∧
    ¬ (entries (parts (arrange .ascending block)).units).Perm (entries (parts block).units) := by
  intro block
  have sorted : arrange .ascending block = Bytes.ofString "a:;/*b:c;" := by
    rw [arrange_eq_insertionSort]
    decide +kernel
  rw [sorted]
  exact ⟨rfl, by decide +kernel⟩

end CssSort.Block
