import CssSort.Proofs.Block.Canonical
import CssSort.Proofs.Stylesheet.Sites

/-! Sorting a style sheet several times. As long as its blocks hold nothing but
closed declarations, each run finds the blocks and the units of the run before, and
what it makes of them depends on their ties only, which no run turns round. So a
sequence of runs in any directions leaves what the last one alone would have left. -/
namespace CssSort

namespace Layout

theorem mapBlocks_mapBlocks (f g : Bytes → Bytes) (layout : Layout) :
    (layout.mapBlocks f).mapBlocks g = layout.mapBlocks fun block => g (f block) := by
  simp [mapBlocks]

end Layout

namespace Stylesheet

/-- No block has a comment of its own or a declaration that is not closed. -/
def HoldsDeclarations (text : Bytes) : Prop :=
  ∀ block ∈ (Layout.ofText text).blocks, Block.HoldsDeclarations block.text

section Declarations

variable {text : Bytes} (declared : HoldsDeclarations text)
include declared

theorem holdsDeclarations_alphabetize (direction : Direction) :
    HoldsDeclarations (alphabetize direction text) := by
  intro block member
  rw [ofText_alphabetize] at member
  obtain ⟨source, known, rfl⟩ := List.mem_map.mp member
  exact Block.holdsDeclarations_arrange (declared source known) direction

theorem alphabetize_alphabetize (first second : Direction) :
    alphabetize second (alphabetize first text) = alphabetize second text := by
  have blocks : ((Layout.ofText text).mapBlocks (Block.arrange first)).mapBlocks
      (Block.arrange second) = (Layout.ofText text).mapBlocks (Block.arrange second) := by
    rw [Layout.mapBlocks_mapBlocks]
    apply Layout.mapBlocks_congr
    intro block member
    exact Block.arrange_arrange (declared block member) first second
  rw [alphabetize, ofText_alphabetize, blocks]
  rfl

end Declarations

/-- A style sheet of closed declarations shows no trace of the directions in which
it was sorted before the last one. -/
theorem alphabetize_runs {text : Bytes} (declared : HoldsDeclarations text)
    (directions : List Direction) (last : Direction) :
    (directions ++ [last]).foldl (fun sheet direction => alphabetize direction sheet) text =
      alphabetize last text := by
  induction directions generalizing text with
  | nil => rfl
  | cons first directions ih =>
    calc
      _ = alphabetize last (alphabetize first text) :=
        ih (holdsDeclarations_alphabetize declared first)
      _ = alphabetize last text := alphabetize_alphabetize declared first last

/-- One block has a tie and a comment behind a declaration, the other one lacks its
last semicolon. -/
theorem alphabetize_runs_back_and_forth :
    let text := Bytes.ofString "p\x7ba:1;a:1; /*n*/b:2;\x7dq\x7b_c:1;c:1\x7d"
    HoldsDeclarations text ∧
    [Direction.descending, .ascending, .descending].foldl
      (fun sheet direction => alphabetize direction sheet) text = alphabetize .descending text ∧
    alphabetize .descending text =
      Bytes.ofString "p\x7bb:2;a:1;a:1; /*n*/\x7dq\x7bc:1;_c:1;\x7d" := by
  intro text
  have declared : HoldsDeclarations text := by
    unfold HoldsDeclarations Block.HoldsDeclarations
    decide +kernel
  have written : alphabetize .descending text =
      Bytes.ofString "p\x7bb:2;a:1;a:1; /*n*/\x7dq\x7bc:1;_c:1;\x7d" := by
    rw [alphabetize, Block.arrange_eq_insertionSort]
    decide +kernel
  exact ⟨declared, alphabetize_runs declared [.descending, .ascending] .descending, written⟩

end Stylesheet
end CssSort
