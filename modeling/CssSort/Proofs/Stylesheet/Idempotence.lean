import CssSort.Proofs.Stylesheet.Sites

/-! Sorting a style sheet twice. The second time finds the blocks that the first
time wrote, so sorting is idempotent on a style sheet exactly if it is on each of
its blocks. There it is whenever no unit that is not closed has come to stand in
front of another one. -/
namespace CssSort
open Ascii

namespace Block

/-- The last declaration has its semicolon and sorting moves nothing. -/
def IsSettled (direction : Direction) (block : Bytes) : Prop :=
  missingSemicolon? block = none ∧ ((Parts.ofText block).sort direction).toText = block

instance (direction : Direction) (block : Bytes) : Decidable (IsSettled direction block) :=
  inferInstanceAs (Decidable (_ ∧ _))

theorem arrange_eq_self_iff {direction : Direction} {block : Bytes} :
    arrange direction block = block ↔ IsSettled direction block := by
  have enough_iff : missingSemicolon? block = none → (arrange direction block = block ↔
      ((Parts.ofText block).sort direction).toText = block) := by
    intro enough
    rw [arrange_eq, parts_of_none enough]
    rfl
  constructor
  · intro fixed
    have size := (perm_arrange direction block).length_eq
    cases missing : missingSemicolon? block with
    | none => exact ⟨missing, (enough_iff missing).mp fixed⟩
    | some stop =>
      rw [fixed, (perm_terminate missing).length_eq, List.length_cons] at size
      omega
  · rintro ⟨enough, unmoved⟩
    exact (enough_iff enough).mpr unmoved

theorem arrange_arrange_iff {direction : Direction} {block : Bytes} :
    arrange direction (arrange direction block) = arrange direction block ↔
      (spill direction block).length ≤ 1 ∨ IsSettled direction (arrange direction block) := by
  rw [arrange_eq_self_iff]
  constructor
  · exact .inr
  · rintro (short | settled)
    · exact arrange_eq_self_iff.mp (arrange_of_spill short)
    · exact settled

end Block

theorem Layout.mapBlocks_eq_self_iff {f : Bytes → Bytes} {layout : Layout} :
    layout.mapBlocks f = layout ↔ ∀ block ∈ layout.blocks, f block.text = block.text := by
  constructor
  · intro fixed block member
    have blocks : layout.blocks.map (fun block => { block with text := f block.text }) =
        layout.blocks.map id := (congrArg Layout.blocks fixed).trans (List.map_id _).symm
    exact congrArg InnerBlock.text (List.map_inj_left.mp blocks block member)
  · intro fixed
    have same : layout.mapBlocks f = layout.mapBlocks id := mapBlocks_congr fixed
    rw [same]
    simp [mapBlocks]

namespace Stylesheet

theorem alphabetize_eq_self_iff {direction : Direction} {text : Bytes} :
    alphabetize direction text = text ↔
      ∀ block ∈ (Layout.ofText text).blocks, Block.arrange direction block.text = block.text := by
  rw [← Layout.mapBlocks_eq_self_iff]
  constructor
  · intro fixed
    rw [← ofText_alphabetize, fixed]
  · intro fixed
    rw [alphabetize, fixed, Layout.toText_ofText]

/-- Sorting twice is sorting once exactly if, in every block, at most one unit
stands from the first one on that is not closed, or what was written happens to be
sorted when it is read again. -/
theorem alphabetize_idempotent_iff (direction : Direction) (text : Bytes) :
    alphabetize direction (alphabetize direction text) = alphabetize direction text ↔
      ∀ block ∈ (Layout.ofText text).blocks,
        (Block.spill direction block.text).length ≤ 1 ∨
          Block.IsSettled direction (Block.arrange direction block.text) := by
  rw [alphabetize_eq_self_iff, ofText_alphabetize, Layout.mapBlocks, List.forall_mem_map]
  exact forall₂_congr fun block _ => Block.arrange_arrange_iff

/-- A string that is never closed is sorted in front of a comment, and takes in the
semicolon that it was given. -/
theorem alphabetize_moves_again :
    let text := Bytes.ofString "\x7b/*c*/a:\"\x7d"
    alphabetize .ascending text = Bytes.ofString "\x7ba:\";/*c*/\x7d" ∧
    alphabetize .ascending (alphabetize .ascending text) =
      Bytes.ofString "\x7ba:\";/*c*/;\x7d" ∧
    alphabetize .ascending (alphabetize .ascending text) ≠ alphabetize .ascending text := by
  have once : alphabetize .ascending (Bytes.ofString "\x7b/*c*/a:\"\x7d") =
      Bytes.ofString "\x7ba:\";/*c*/\x7d" := by
    rw [alphabetize, Block.arrange_eq_insertionSort]
    decide +kernel
  have twice : alphabetize .ascending (Bytes.ofString "\x7ba:\";/*c*/\x7d") =
      Bytes.ofString "\x7ba:\";/*c*/;\x7d" := by
    rw [alphabetize, Block.arrange_eq_insertionSort]
    decide +kernel
  intro text
  rw [once, twice]
  exact ⟨rfl, rfl, by decide⟩

end Stylesheet
end CssSort
