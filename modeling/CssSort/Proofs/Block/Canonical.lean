import CssSort.Proofs.Block.Stability
import CssSort.Proofs.Item.Ties

/-! The canonical form of a block. Declarations that end by themselves are found
again in whatever order they are put together, since none of them starts with a
comment that the one in front could take along. What sorting makes of them depends
on their ties only and not on the order in which they were written. -/
namespace CssSort

/-- Blanks, and then a text that starts neither with a blank nor with a comment. It
ends at its first semicolon at top level, or at one closed comment behind it on the
same line. -/
inductive ClosedDeclaration : Bytes → Prop where
  | bare {blanks statement : Bytes} :
      AllBlank blanks → IsStatement statement → ClosedDeclaration (blanks ++ statement)
  | noted {blanks statement inline comment : Bytes} :
      AllBlank blanks → IsStatement statement → AllInline inline → IsClosedComment comment →
      ClosedDeclaration (blanks ++ (statement ++ (inline ++ comment)))

namespace ClosedDeclaration

variable {unit : Bytes}

theorem ended (closed : ClosedDeclaration unit) : Sealed unit := by
  cases closed with
  | bare all valid => exact .bare all valid
  | noted all valid spaces comment => exact .noted all valid spaces comment

theorem not_inline (closed : ClosedDeclaration unit) : opensInline unit = false := by
  cases closed with
  | bare all valid => exact opensInline_start all valid.toIsStart
  | noted all valid spaces comment => exact opensInline_start all (valid.isStart_append _)

/-- The shape of a closed unit that is no comment. -/
theorem of_isClosed (valid : IsUnit unit) (closed : isClosed unit = true)
    (noRemark : Item.isRemark unit = false) : ClosedDeclaration unit := by
  cases sealed_of_isClosed valid.shape closed noRemark with
  | comment all comment =>
    rw [isClosed, noRemark, (comment.silent all).noSemicolon] at closed
    contradiction
  | bare all statement => exact .bare all statement
  | noted all statement spaces comment => exact .noted all statement spaces comment

end ClosedDeclaration

namespace Block

variable {units : List Bytes} {blanks : Bytes}

/-- Closed declarations put together are the units of their text. None of them starts with
a comment, so none is taken along by the one in front of it. -/
theorem parts_flatten_append (closed : ∀ unit ∈ units, ClosedDeclaration unit)
    (all : AllBlank blanks) : parts (units.flatten ++ blanks) = ⟨units, blanks⟩ := by
  have ended : ∀ unit ∈ units, Sealed unit := fun unit member => (closed unit member).ended
  have enough : missingSemicolon? (units.flatten ++ blanks) = none := by
    rw [missingSemicolon?_flatten_append ended, missingSemicolon?_blanks all, Option.map_none]
  have cut : Bytes.trimEnd (units.flatten ++ blanks) = units.flatten := by
    rw [Bytes.trimEnd_append (trimEnd_flatten ended), Bytes.trimEnd_eq_nil_iff.mpr all,
      List.append_nil]
  have again : unitsOf units.flatten = units := by
    have found := unitsOf_flatten_append ended []
    rw [List.append_nil, unitsOf_nil, foldr_attach_of_not_inline
      (fun unit member => (closed unit member).not_inline) (by simp), List.append_nil] at found
    exact found
  rw [parts_of_none enough, Parts.ofText, Bytes.blankEnd_of_trimEnd rfl cut, cut, again]

/-- All units are closed and none is a comment of its own. -/
def HoldsDeclarations (block : Bytes) : Prop :=
  ∀ unit ∈ (parts block).units, isClosed unit = true ∧ Item.isRemark unit = false

section Declarations

variable {block : Bytes} (declared : HoldsDeclarations block)
include declared

/-- A sorted block of declarations is cut where it was put together. -/
theorem parts_arrange (direction : Direction) :
    parts (arrange direction block) = (parts block).sort direction := by
  have closed : ∀ unit ∈ ((parts block).sort direction).units, ClosedDeclaration unit := by
    intro unit member
    have known := mem_sort_iff.mp member
    obtain ⟨whole, noRemark⟩ := declared unit known
    exact .of_isClosed (isUnit_parts known) whole noRemark
  rw [arrange_eq, parts_flatten_append closed (allBlank_trailing block)]
  rfl

theorem holdsDeclarations_arrange (direction : Direction) :
    HoldsDeclarations (arrange direction block) := by
  intro unit member
  rw [parts_arrange declared] at member
  exact declared unit (mem_sort_iff.mp member)

theorem arrange_arrange (first second : Direction) :
    arrange second (arrange first block) = arrange second block := by
  rw [arrange_eq second (arrange first block), arrange_eq second block,
    parts_arrange declared, Parts.sort_sort]
  rfl

end Declarations

/-- The order in which closed declarations were written does not matter, apart from
ties: the units are found again either way, and the block is written alike. -/
theorem arrange_eq_of_keepsTies (direction : Direction) {units order : List Bytes} {blanks : Bytes}
    (closed : ∀ unit ∈ units, ClosedDeclaration unit)
    (kept : Item.KeepsTies direction units order) (all : AllBlank blanks) :
    parts (units.flatten ++ blanks) = ⟨units, blanks⟩ ∧
    parts (order.flatten ++ blanks) = ⟨order, blanks⟩ ∧
    arrange direction (units.flatten ++ blanks) = arrange direction (order.flatten ++ blanks) := by
  have closed' : ∀ unit ∈ order, ClosedDeclaration unit := by
    intro unit member
    exact closed unit (kept.perm.mem_iff.mp member)
  have found := parts_flatten_append closed all
  have found' := parts_flatten_append closed' all
  refine ⟨found, found', ?_⟩
  rw [arrange_eq, arrange_eq, found, found', Parts.sort_of_keepsTies kept]

/-- Two declarations of one name and value keep their order, and the third one moves. -/
theorem arrange_eq_of_keepsTies_note :
    let units := [Bytes.ofString "b:2;", Bytes.ofString "a:1; /*x*/", Bytes.ofString "\n a:1;"]
    let order := [Bytes.ofString "a:1; /*x*/", Bytes.ofString "\n a:1;", Bytes.ofString "b:2;"]
    let blanks := Bytes.ofString "\n"
    (∀ unit ∈ units, ClosedDeclaration unit) ∧ Item.KeepsTies .ascending units order ∧
    AllBlank blanks ∧
    arrange .ascending (units.flatten ++ blanks) = arrange .ascending (order.flatten ++ blanks) ∧
    arrange .ascending (order.flatten ++ blanks) =
      Bytes.ofString "a:1; /*x*/\n a:1;b:2;\n" := by
  intro units order blanks
  have all : AllBlank blanks := by
    unfold AllBlank
    decide +kernel
  have closed : ∀ unit ∈ units, ClosedDeclaration unit := by
    have found : (parts (units.flatten ++ blanks)).units = units := by decide +kernel
    have whole : ∀ unit ∈ units, isClosed unit = true ∧ Item.isRemark unit = false := by
      decide +kernel
    intro unit member
    exact .of_isClosed (isUnit_parts (found ▸ member)) (whole unit member).1 (whole unit member).2
  have kept : Item.KeepsTies .ascending units order := ⟨by decide +kernel, by decide +kernel⟩
  obtain ⟨-, -, same⟩ := arrange_eq_of_keepsTies .ascending closed kept all
  refine ⟨closed, kept, all, same, ?_⟩
  rw [arrange_eq_insertionSort]
  decide +kernel

end Block
end CssSort
