import CssSort.Proofs.Block.Endings
import CssSort.Proofs.Block.Split

/-! Which units are flagged as comments. The flag is set by looking for the marks of a comment
in the text of a unit, and the units are cut off by a cursor that reads comments character
by character. Both agree: flagged are the units that the cursor read as a comment and saw
closed, and no declaration, whatever comments it holds. -/
namespace CssSort
open Ascii

namespace Block

variable {block : Bytes} {start : Cursor}

theorem isUtf8_unit (valid : block.isUtf8 = true) (member : start ∈ starts block) :
    start.unit.isUtf8 = true :=
  isUtf8_of_mem_unitsOf (Bytes.isUtf8_trimEnd valid).1 _ (unit_mem member)

/-- A unit that starts with a comment and has blanks in front only. -/
theorem classify_comment_iff {blanks comment : Bytes} (all : AllBlank blanks)
    (opens : (Cursor.ofText comment).isAtComment = true) (solid : comment.trimEnd = comment) :
    Item.classify (blanks ++ comment) = .comment ↔ isComment comment = true := by
  rw [Item.classify, Bytes.trim_append all (head_comment opens) solid]
  split
  · rename_i whole
    exact iff_of_true rfl whole
  · rename_i other
    exact iff_of_false Kind.noConfusion other

theorem classify_eq_comment_iff (valid : block.isUtf8 = true) (member : start ∈ starts block) :
    Item.classify start.unit = .comment ↔
      start.ending = .comment ∧ start.skipUnit.context.mode = .normal := by
  have solid := solid_of_mem member
  have known := isUtf8_unit valid member
  cases unitShape_of_mem member with
  | closed all closed shape ending outside =>
    rw [shape] at known ⊢
    have whole := isComment_iff_spells.mpr (closed.spells (isUtf8_comment closed.opens known))
    exact iff_of_true ((classify_comment_iff all closed.opens closed.solid).mpr whole)
      ⟨ending, outside⟩
  | unclosed all unclosed shape ending inside =>
    rw [shape] at known solid ⊢
    rw [classify_comment_iff all unclosed.opens (Bytes.trimEnd_of_append solid),
      isComment_iff_skipComment (isUtf8_comment unclosed.opens known), unclosed.inside, inside]
    simp
  | ended all statement _ shape ending =>
    rw [shape] at solid ⊢
    rw [Item.classify_start all (statement.isStart_append _) (Bytes.trimEnd_of_append solid),
      ending]
    simp
  | missing all first _ shape ending _ =>
    rw [shape] at solid ⊢
    rw [Item.classify_start all first (Bytes.trimEnd_of_append solid), ending]
    simp

/-- A text is one whole comment if it starts with the opening mark and has its first closing
mark at its end, which is to say that a cursor skips the comment and is at the end, outside
of it. The units of a block are those that one cursor reads going on, and flagged as comments
are those that it read as a comment and saw closed. All other units are declarations. -/
theorem comment_flags_agree :
    (∀ raw : Bytes, raw.isUtf8 = true →
      (isComment raw = true ↔ SpellsComment raw) ∧
      (isComment raw = true ↔ (Cursor.ofText raw).isAtComment = true ∧
        (Cursor.ofText raw).skipComment.isAtEnd = true ∧
        (Cursor.ofText raw).skipComment.context.mode = .normal)) ∧
    ∀ block : Bytes, block.isUtf8 = true →
      (starts block).map Cursor.unit = (Parts.ofText block).units ∧
      ∀ start ∈ starts block,
        (Item.classify start.unit = .comment ↔
          start.ending = .comment ∧ start.skipUnit.context.mode = .normal) ∧
        (start.ending ≠ .comment →
          ∃ declaration, Item.classify start.unit = .declaration declaration) := by
  refine ⟨fun raw valid => ⟨isComment_iff_spells, isComment_iff_skipComment valid⟩, ?_⟩
  intro block valid
  refine ⟨map_unit_starts block, fun start member => ?_⟩
  have flag := classify_eq_comment_iff valid member
  refine ⟨flag, fun other => ?_⟩
  cases kind : Item.classify start.unit with
  | comment => exact absurd (flag.mp kind).1 other
  | declaration declaration => exact ⟨declaration, rfl⟩

/-- Marks that overlap; and a comment, a declaration with comments in it and behind it, and a
comment whose only closing mark is part of the opening one. -/
theorem comment_flags_agree_overlap :
    let short := Bytes.ofString "/**/"
    let odd := Bytes.ofString "/***/"
    let unclosed := Bytes.ofString "/*/"
    let block := Bytes.ofString "/*é*/ a:/*b*/c; /*x*/\n/*/ "
    isComment short = true ∧ SpellsComment odd ∧ isComment unclosed = false ∧
    (starts block).map Cursor.unit = [Bytes.ofString "/*é*/", Bytes.ofString " a:/*b*/c; /*x*/",
      Bytes.ofString "\n/*/"] ∧
    (starts block).map Cursor.ending = [.comment, .semicolon 15, .comment] ∧
    ∀ start ∈ starts block,
      (Item.classify start.unit = .comment ↔
        start.ending = .comment ∧ start.skipUnit.context.mode = .normal) := by
  intro short odd unclosed block
  obtain ⟨texts, blocks⟩ := comment_flags_agree
  obtain ⟨-, whole⟩ := texts short (Bytes.isUtf8_ofString _)
  obtain ⟨spelled, -⟩ := texts odd (Bytes.isUtf8_ofString _)
  obtain ⟨-, opened⟩ := texts unclosed (Bytes.isUtf8_ofString _)
  obtain ⟨units, flags⟩ := blocks block (Bytes.isUtf8_ofString _)
  refine ⟨whole.mpr (by decide +kernel), spelled.mp (by decide +kernel), ?_,
    units.trans (by decide +kernel), by decide +kernel, fun start member => (flags start member).1⟩
  rw [Bool.eq_false_iff, ne_eq, opened]
  decide +kernel

end Block
end CssSort
