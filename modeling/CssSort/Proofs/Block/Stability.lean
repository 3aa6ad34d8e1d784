import CssSort.Proofs.Block.Seams
import CssSort.Proofs.Block.Semicolon

/-! A sorted block read again. As long as the units that sorting put in front of
others end by themselves, its semicolon is still there, the same units are found
up to comments that were taken along, and they are in order. Sorting it once more
then changes nothing. -/
namespace CssSort.Block
open Ascii

variable {direction : Direction} {block : Bytes}

theorem flatten_parts (block : Bytes) :
    (parts block).units.flatten ++ (parts block).trailing = terminate block :=
  Parts.toText_ofText (terminate block)

theorem parts_of_none (enough : missingSemicolon? block = none) :
    parts block = Parts.ofText block := by
  rw [parts, terminate_of_none enough]

theorem allBlank_trailing (block : Bytes) : AllBlank (parts block).trailing :=
  fun _ member => Bytes.isBlank_of_mem_blankEnd member

theorem missingSemicolon?_blanks {blanks : Bytes} (all : AllBlank blanks) :
    missingSemicolon? blanks = none := by
  have passes : (Cursor.ofText (blanks ++ [])).Passes (Cursor.fresh (0 + blanks.length) []) :=
    Cursor.passes_blanks all 0 rfl
  rw [List.append_nil] at passes
  have nothing : lastSignificant? blanks = none := by
    rw [lastSignificant?, passes.lastSignificant]
    exact Cursor.lastSignificant_of_rest_nil rfl none
  rw [missingSemicolon?, nothing]

theorem missingSemicolon?_of_units_nil (vacant : (parts block).units = []) :
    missingSemicolon? block = none := by
  cases missing : missingSemicolon? block with
  | none => rfl
  | some stop =>
    have whole := flatten_parts block
    have given : semicolon ∈ terminate block := by simp [terminate, missing]
    rw [← whole, vacant, List.flatten_nil, List.nil_append] at given
    exact absurd (allBlank_trailing block semicolon given) (by decide)

/-- A vacant block needs no case of its own. -/
theorem arrange_eq (direction : Direction) (block : Bytes) :
    arrange direction block =
      ((parts block).sort direction).units.flatten ++ (parts block).trailing := by
  rw [arrange]
  split
  · rename_i vacant
    have unitless : (parts block).units = [] := List.isEmpty_iff.mp vacant
    have moved := Parts.perm_sort direction (parts block)
    rw [unitless, List.perm_nil] at moved
    have whole := flatten_parts block
    rw [unitless, terminate_of_none (missingSemicolon?_of_units_nil unitless)] at whole
    rw [moved, whole]
  · rfl

/-- Blocks can be sorted by putting in one unit after the other. -/
theorem arrange_eq_insertionSort (direction : Direction) :
    arrange direction = fun block =>
      ((parts block).units.insertionSort (Item.notAfter direction · · = true)).flatten ++
        (parts block).trailing := by
  funext block
  rw [arrange_eq, Parts.units_sort_eq_insertionSort]

/-- Sorting moves bytes and adds none but the missing semicolon. -/
theorem perm_arrange (direction : Direction) (block : Bytes) :
    (arrange direction block).Perm (terminate block) := by
  rw [arrange_eq, ← flatten_parts]
  exact (Parts.perm_sort direction (parts block)).flatten.append_right _

theorem perm_terminate {stop : Nat} (missing : missingSemicolon? block = some stop) :
    (terminate block).Perm (semicolon :: block) := by
  have given : terminate block = block.take stop ++ semicolon :: block.drop stop := by
    rw [terminate, missing]
  have moved : (block.take stop ++ semicolon :: block.drop stop).Perm _ := List.perm_middle
  rwa [List.take_append_drop, ← given] at moved

theorem mem_terminate {byte : UInt8} (member : byte ∈ terminate block) :
    byte ∈ block ∨ byte = semicolon := by
  cases missing : missingSemicolon? block with
  | none =>
    rw [terminate_of_none missing] at member
    exact .inl member
  | some stop => exact (List.mem_cons.mp ((perm_terminate missing).mem_iff.mp member)).symm

/-- No unit of a block lacks its semicolon. -/
theorem missingSemicolon?_unit {unit : Bytes} (member : unit ∈ (parts block).units) :
    missingSemicolon? (unit ++ (parts block).trailing) = none := by
  rcases sealed_or_last member with ended | ⟨units, whole, ended⟩
  · have single : ∀ other ∈ [unit], Sealed other := by simpa using ended
    have search := missingSemicolon?_flatten_append single (parts block).trailing
    rwa [List.flatten_singleton, missingSemicolon?_blanks (allBlank_trailing block)] at search
  · have search := missingSemicolon?_flatten_append ended (unit ++ (parts block).trailing)
    have cut : (parts block).units = units ++ [unit] := whole
    have text : units.flatten ++ (unit ++ (parts block).trailing) = terminate block := by
      rw [← flatten_parts, cut, List.flatten_concat, List.append_assoc]
    rw [text, missingSemicolon?_terminate] at search
    exact Option.map_eq_none_iff.mp search.symm

section Sealed

variable {front : List Bytes} {last : Bytes}
  (sorted : ((parts block).sort direction).units = front ++ [last])
  (ended : ∀ unit ∈ front, Sealed unit)
include sorted

theorem last_mem_parts : last ∈ (parts block).units :=
  mem_sort_iff.mp (sorted ▸ List.mem_concat_self)

include ended

/-- The semicolon of a sorted block is where it was. -/
theorem missingSemicolon?_arrange : missingSemicolon? (arrange direction block) = none := by
  rw [arrange_eq, sorted, List.flatten_concat, List.append_assoc,
    missingSemicolon?_flatten_append ended, missingSemicolon?_unit (last_mem_parts sorted),
    Option.map_none]

theorem ofText_arrange : Parts.ofText (arrange direction block) =
    ⟨unitsOf (front.flatten ++ last), (parts block).trailing⟩ := by
  have valid := isUnit_parts (last_mem_parts sorted)
  have whole : arrange direction block = (front.flatten ++ last) ++ (parts block).trailing := by
    rw [arrange_eq, sorted, List.flatten_concat]
  have cut : (arrange direction block).trimEnd = front.flatten ++ last := by
    rw [whole, Bytes.trimEnd_append (trimEnd_flatten_append ended valid.solid),
      Bytes.trimEnd_eq_nil_iff.mpr (allBlank_trailing block), List.append_nil]
  rw [Parts.ofText, Bytes.blankEnd_of_trimEnd whole cut, cut]

theorem pairwise_arrange :
    (Parts.ofText (arrange direction block)).units.Pairwise (Item.notAfter direction · · = true) := by
  have member := last_mem_parts sorted
  have before := Parts.pairwise_sort direction (parts block)
  have kinds := kinds_flatten_append ended (isUnit_parts member).solid
  rw [unitsOf_unit member, ← List.map_append, ← sorted] at kinds
  rw [ofText_arrange sorted ended]
  have ordered : ∀ units : List Bytes, units.Pairwise (Item.notAfter direction · · = true) ↔
      (units.map Item.classify).Pairwise fun a b => (a.compare direction b != .gt) = true := by
    intro units
    rw [List.pairwise_map]
    rfl
  rw [ordered] at before ⊢
  exact before.sublist kinds

theorem arrange_of_sealed : arrange direction (arrange direction block) = arrange direction block := by
  have same := parts_of_none (missingSemicolon?_arrange sorted ended)
  have settled := Parts.sort_of_pairwise direction (pairwise_arrange sorted ended)
  rw [arrange_eq direction (arrange direction block), same, settled]
  exact Parts.toText_ofText _

end Sealed

/-- The sorted units from the first one on that is not closed. -/
def spill (direction : Direction) (block : Bytes) : List Bytes :=
  ((parts block).sort direction).units.dropWhile isClosed

theorem takeWhile_append_spill (direction : Direction) (block : Bytes) :
    ((parts block).sort direction).units.takeWhile isClosed ++ spill direction block =
      ((parts block).sort direction).units :=
  List.takeWhile_append_dropWhile

/-- If nothing stands behind the first unit that is not closed, all units that
stand in front of others end by themselves. -/
theorem sorted_of_spill (short : (spill direction block).length ≤ 1) :
    ((parts block).sort direction).units = [] ∨
      ∃ front last, ((parts block).sort direction).units = front ++ [last] ∧
        ∀ unit ∈ front, Sealed unit := by
  refine (List.eq_nil_or_concat' _).imp_right ?_
  rintro ⟨front, last, sorted⟩
  refine ⟨front, last, sorted, fun unit member => sealed_of_mem_front sorted member ?_⟩
  have whole := (takeWhile_append_spill direction block).trans sorted
  have inside : unit ∈ ((parts block).sort direction).units.takeWhile isClosed := by
    generalize spill direction block = rest at short whole
    rcases rest with _ | ⟨first, _ | ⟨second, later⟩⟩
    · rw [List.append_nil] at whole
      rw [whole]
      exact List.mem_append_left _ member
    · rw [(List.append_inj' whole rfl).1]
      exact member
    · simp at short
  exact List.mem_takeWhile_imp inside

theorem units_nil_of_sort (vacant : ((parts block).sort direction).units = []) :
    (parts block).units = [] := by
  have moved := Parts.perm_sort direction (parts block)
  rwa [vacant, List.nil_perm] at moved

theorem arrange_of_units_nil (vacant : (parts block).units = []) :
    arrange direction block = block := by
  rw [arrange, isVacant, vacant]
  rfl

theorem missingSemicolon?_of_spill (short : (spill direction block).length ≤ 1) :
    missingSemicolon? (arrange direction block) = none := by
  rcases sorted_of_spill short with vacant | ⟨front, last, sorted, ended⟩
  · have nothing := units_nil_of_sort vacant
    rw [arrange_of_units_nil nothing, missingSemicolon?_of_units_nil nothing]
  · exact missingSemicolon?_arrange sorted ended

theorem ofText_of_spill (short : (spill direction block).length ≤ 1) :
    Parts.ofText (arrange direction block) =
      ⟨((parts block).sort direction).units.foldr attach [], (parts block).trailing⟩ := by
  rcases sorted_of_spill short with vacant | ⟨front, last, sorted, ended⟩
  · have nothing := units_nil_of_sort vacant
    have same := parts_of_none (missingSemicolon?_of_units_nil nothing)
    rw [arrange_of_units_nil nothing, vacant, ← same, List.foldr_nil, ← nothing]
  · have again : unitsOf (front.flatten ++ last) = (front ++ [last]).foldr attach [] := by
      rw [unitsOf_flatten_append ended, unitsOf_unit (last_mem_parts sorted), List.foldr_append]
      rfl
    rw [ofText_arrange sorted ended, again, sorted]

theorem arrange_of_spill (short : (spill direction block).length ≤ 1) :
    arrange direction (arrange direction block) = arrange direction block := by
  rcases sorted_of_spill short with vacant | ⟨front, last, sorted, ended⟩
  · have nothing := units_nil_of_sort vacant
    rw [arrange_of_units_nil nothing, arrange_of_units_nil nothing]
  · exact arrange_of_sealed sorted ended

theorem spill_of_isClosed (closed : ∀ unit ∈ (parts block).units, isClosed unit = true) :
    spill direction block = [] := by
  rw [spill, List.dropWhile_eq_nil_iff]
  exact fun unit member => closed unit (mem_sort_iff.mp member)

/-- A block of closed units read again after sorting. Its semicolon is there, and
what is found are the sorted units and the blanks behind them, up to a comment that
has come to stand on the line of the last declaration. That comment changes nothing
in the declaration, so the block is sorted for good. -/
theorem reread_closed_block (direction : Direction) (block : Bytes)
    (closed : ∀ unit ∈ (parts block).units, isClosed unit = true) :
    let sorted := ((parts block).sort direction).units
    let declarations := sorted.filter (!Item.isRemark ·)
    let comments := sorted.filter Item.isRemark
    sorted = declarations ++ comments ∧
    missingSemicolon? (arrange direction block) = none ∧
    Parts.ofText (arrange direction block) =
      ⟨seam declarations comments, (parts block).trailing⟩ ∧
    (∀ last ∈ declarations.getLast?, ∀ first ∈ comments.head?,
      endsBare last = true → opensInline first = true →
        Item.classify (last ++ first) = Item.classify last) ∧
    arrange direction (arrange direction block) = arrange direction block := by
  intro sorted declarations comments
  have short : (spill direction block).length ≤ 1 := by simp [spill_of_isClosed closed]
  have split : declarations ++ comments = sorted :=
    Item.filter_append_filter (Parts.pairwise_sort direction (parts block))
  have valid : ∀ unit ∈ sorted, IsUnit unit ∧ isClosed unit = true := fun unit member =>
    ⟨isUnit_parts (mem_sort_iff.mp member), closed unit (mem_sort_iff.mp member)⟩
  have known : ∀ unit ∈ declarations,
      IsUnit unit ∧ isClosed unit = true ∧ Item.isRemark unit = false := by
    intro unit member
    obtain ⟨inside, noRemark⟩ := List.mem_filter.mp member
    obtain ⟨shape, whole⟩ := valid unit inside
    exact ⟨shape, whole, by simpa using noRemark⟩
  refine ⟨split.symm, missingSemicolon?_of_spill short, ?_, ?_, arrange_of_spill short⟩
  · have silent : ∀ unit ∈ comments, IsSilent unit := by
      intro unit member
      obtain ⟨inside, remark⟩ := List.mem_filter.mp member
      exact (valid unit inside).1.silent_of_isRemark remark
    have again := ofText_of_spill short
    rwa [show ((parts block).sort direction).units = _ from split.symm,
      foldr_attach_eq_seam known silent] at again
  · intro last final first front bare opens
    obtain ⟨shape, whole, noRemark⟩ := known last (List.mem_of_getLast? final)
    have inside : first ∈ sorted := (List.mem_filter.mp (List.mem_of_head? front)).1
    exact Item.classify_append (sealed_of_isClosed shape.shape whole noRemark)
      (valid first inside).1 bare opens

theorem reread_closed_block_note :
    let block := Bytes.ofString "/*n*/b:c"
    (∀ unit ∈ (parts block).units, isClosed unit = true) ∧
    missingSemicolon? (arrange .ascending block) = none ∧
    Parts.ofText (arrange .ascending block) = ⟨[Bytes.ofString "b:c;/*n*/"], []⟩ ∧
    Item.classify (Bytes.ofString "b:c;/*n*/") = Item.classify (Bytes.ofString "b:c;") ∧
    arrange .ascending (arrange .ascending block) = arrange .ascending block := by
  intro block
  have closed : ∀ unit ∈ (parts block).units, isClosed unit = true := by decide +kernel
  have order : ((parts block).sort .ascending).units =
      [Bytes.ofString "b:c;", Bytes.ofString "/*n*/"] := by
    rw [Parts.units_sort_eq_insertionSort]
    decide +kernel
  obtain ⟨-, enough, again, keys, settled⟩ := reread_closed_block .ascending block closed
  rw [order] at again keys
  have glued := keys (Bytes.ofString "b:c;") (by decide +kernel) (Bytes.ofString "/*n*/")
    (by decide +kernel) (by decide +kernel) (by decide +kernel)
  exact ⟨closed, enough, again.trans (by decide +kernel), glued, settled⟩

end CssSort.Block
