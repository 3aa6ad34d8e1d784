import CssSort.Proofs.Block.Declarations
import CssSort.Proofs.Block.Remarks
import CssSort.Proofs.Stylesheet.Idempotence
import CssSort.Proofs.Stylesheet.Slices

/-! What the last unit of a block decides. All units in front of it are closed, so only the
last one can take in what sorting puts behind it, and nothing is put there if no other unit
has to follow it. Then the declarations are kept, and sorting twice is sorting once. -/
namespace CssSort
open Ascii

theorem IsStatement.isClosed {blanks statement note : Bytes} (all : AllBlank blanks)
    (valid : IsStatement statement)
    (passes : ∀ pos, (Cursor.fresh pos note).Passes (Cursor.fresh (pos + note.length) [])) :
    isClosed (blanks ++ (statement ++ note)) = true := by
  have start : (Cursor.ofText (blanks ++ (statement ++ note))).Passes
      (Cursor.fresh (0 + blanks.length) (statement ++ note)) := Cursor.passes_blanks all 0 rfl
  have search := start.skipPast (show isBlank semicolon = false by decide) (by decide)
  rw [valid.skipPast_append] at search
  have found : (findTopLevel? (blanks ++ (statement ++ note)) semicolon).isSome = true := by
    rw [findTopLevel?, search]
    rfl
  have outside : (Cursor.ofText (blanks ++ (statement ++ note))).finish.context.mode = .normal := by
    rw [← Cursor.finish_skipPast _ semicolon, search, (passes _).finish,
      Cursor.finish_of_rest_nil rfl]
    rfl
  rw [CssSort.isClosed, found, outside, Bool.or_eq_true]
  exact .inr rfl

/-- A unit that ends by itself is closed. -/
theorem Sealed.isClosed {unit : Bytes} (ended : Sealed unit) (valid : unit.isUtf8 = true) :
    isClosed unit = true := by
  cases ended with
  | comment all closed =>
    have whole := isComment_iff_spells.mpr (closed.spells (isUtf8_comment closed.opens valid))
    rw [CssSort.isClosed, Item.isRemark,
      (Block.classify_comment_iff all closed.opens closed.solid).mpr whole]
    rfl
  | @bare blanks statement all known =>
    have plain := known.isClosed all fun pos => Cursor.Passes.refl (Cursor.fresh pos [])
    rwa [List.append_nil] at plain
  | @noted blanks statement inline comment all known spaces closed =>
    refine known.isClosed all fun pos => ?_
    have behind := closed.passes (pos + inline.length) []
    rw [List.append_nil] at behind
    rw [List.length_append, ← Nat.add_assoc]
    exact (Cursor.passes_blanks spaces.allBlank pos rfl).trans behind

namespace Block

/-- The last unit is closed, or no other unit has to follow it. -/
def KeepsLast (direction : Direction) (block : Bytes) : Prop :=
  ∀ last ∈ (parts block).units.getLast?, isClosed last = true ∨
    ∀ unit ∈ (parts block).units, Item.notAfter direction unit last = true

instance (direction : Direction) (block : Bytes) : Decidable (KeepsLast direction block) :=
  inferInstanceAs (Decidable (∀ last ∈ (parts block).units.getLast?, _ ∨ ∀ unit ∈ _, _))

variable {direction : Direction} {block : Bytes}

theorem isClosed_front {units : List Bytes} {last : Bytes} (valid : block.isUtf8 = true)
    (whole : (parts block).units = units ++ [last]) : ∀ unit ∈ units, isClosed unit = true := by
  intro unit member
  have known : unit ∈ (parts block).units := whole ▸ List.mem_append_left _ member
  have text := (Bytes.isUtf8_trimEnd (isUtf8_terminate valid)).1
  exact ((unitsOf_concat whole).1 unit member).isClosed (isUtf8_of_mem_unitsOf text unit known)

theorem keepsLast_of_spill (short : (spill direction block).length ≤ 1) :
    KeepsLast direction block := by
  intro last final
  rw [or_iff_not_imp_left]
  intro unclosed unit member
  have places : ∀ other ∈ (parts block).units,
      other ∈ ((parts block).sort direction).units.takeWhile isClosed ∨
        other ∈ spill direction block := by
    intro other known
    rw [← List.mem_append, takeWhile_append_spill]
    exact mem_sort_iff.mpr known
  have inside := (places last (List.mem_of_getLast? final)).resolve_left
    fun front => unclosed (List.mem_takeWhile_imp front)
  have sorted := Parts.pairwise_sort direction (parts block)
  rw [← takeWhile_append_spill, List.pairwise_append] at sorted
  rcases places unit member with front | behind
  · exact sorted.2.2 unit front last inside
  · obtain ⟨other, single⟩ := List.length_eq_one_iff.mp
      (Nat.le_antisymm short (List.length_pos_of_mem inside))
    rw [single, List.mem_singleton] at inside behind
    rw [inside, behind]
    exact Item.notAfter_self direction other

/-- Whether a unit stands behind one that is not closed is told by the last unit of the
block, before anything is sorted. -/
theorem length_spill_le_one_iff (valid : block.isUtf8 = true) :
    (spill direction block).length ≤ 1 ↔ KeepsLast direction block := by
  refine ⟨keepsLast_of_spill, fun kept => ?_⟩
  obtain nothing | ⟨units, last, whole⟩ := List.eq_nil_or_concat' (parts block).units
  · rw [spill_of_isClosed (by simp [nothing])]
    exact Nat.zero_le 1
  have front := isClosed_front valid whole
  rcases kept last (by rw [whole, List.getLast?_concat]; rfl) with closed | behind
  · have all : ∀ unit ∈ (parts block).units, isClosed unit = true := by
      simpa [whole, or_imp, forall_and, closed] using front
    rw [spill_of_isClosed all]
    exact Nat.zero_le 1
  · have stays := Parts.units_sort_concat whole fun unit member =>
      behind unit (whole ▸ List.mem_append_left _ member)
    rw [spill, stays, List.dropWhile_append_of_pos fun unit member =>
      front unit (mem_sort_iff.mp member)]
    exact (List.dropWhile_sublist _).length_le

theorem arrange_of_keepsLast (valid : block.isUtf8 = true) (kept : KeepsLast direction block) :
    arrange direction (arrange direction block) = arrange direction block :=
  arrange_of_spill ((length_spill_le_one_iff valid).mpr kept)

theorem perm_entries_of_keepsLast (valid : block.isUtf8 = true)
    (kept : KeepsLast direction block) :
    (entries (parts (arrange direction block)).units).Perm (entries (parts block).units) := by
  rw [entries_of_spill ((length_spill_le_one_iff valid).mpr kept)]
  exact perm_entries_sort direction (parts block)

example : KeepsLast .ascending (Bytes.ofString "a:b;c:(") ∧
    ¬ KeepsLast .ascending (Bytes.ofString "c:d;a:(") := by
  decide +kernel

end Block

/-- A style sheet is sorted for good if the last unit of each block is closed or stays the
last one. -/
theorem Stylesheet.alphabetize_of_keepsLast (direction : Direction) {text : Bytes}
    (valid : text.isUtf8 = true)
    (kept : ∀ block ∈ (Layout.ofText text).blocks, Block.KeepsLast direction block.text) :
    alphabetize direction (alphabetize direction text) = alphabetize direction text := by
  rw [alphabetize_eq_self_iff, ofText_alphabetize, Layout.mapBlocks, List.forall_mem_map]
  intro block member
  refine Block.arrange_of_keepsLast (Layout.isUtf8_pieces valid _ ?_) (kept block member)
  rw [Layout.pieces, List.mem_cons, List.mem_flatMap]
  exact .inr ⟨block, member, List.mem_cons_self⟩

end CssSort
