import CssSort.Proofs.Block.Conservation
import CssSort.Proofs.Stylesheet.Sites
import CssSort.Stylesheet.Delivery

/-! How much longer sorting makes a style sheet. Each block whose last declaration
lacks its semicolon adds one byte, and nothing else does. The log tells these blocks
from the others that hold something, and a limited buffer is large enough exactly if
it has room for the style sheet and these bytes. -/
namespace CssSort
open Ascii

namespace Block

instance (block : Bytes) : Decidable (LacksSemicolon block) :=
  decidable_of_iff ((missingSemicolon? block).isSome = true)
    (Option.isSome_iff_exists.trans lacksSemicolon_iff.symm)

theorem length_arrange (direction : Direction) (block : Bytes) :
    (arrange direction block).length = block.length + if LacksSemicolon block then 1 else 0 := by
  split
  · rename_i lacks
    rw [(perm_arrange_iff.1.mpr lacks).length_eq, List.length_cons]
  · rename_i enough
    rw [(perm_arrange_iff.2.mpr enough).length_eq, Nat.add_zero]

theorem isVacant_iff {block : Bytes} :
    isVacant block = true ↔ block.any (!isBlank ·) = false := by
  rw [isVacant, List.isEmpty_iff, units_eq_nil_iff, AllBlank]
  simp

end Block

namespace Layout

theorem length_mapBlocks {f : Bytes → Bytes} {p : Bytes → Bool}
    (grown : ∀ block, (f block).length = block.length + if p block = true then 1 else 0)
    (layout : Layout) : (layout.mapBlocks f).toText.length =
      layout.toText.length + layout.blocks.countP fun block => p block.text := by
  obtain ⟨lead, blocks⟩ := layout
  simp only [mapBlocks, toText, List.length_append, Nat.add_assoc]
  congr 1
  induction blocks with
  | nil => rfl
  | cons block blocks ih =>
    simp only [List.map_cons, List.flatMap_cons, List.length_append, List.countP_cons,
      grown block.text, ih]
    omega

theorem countP_sites (layout : Layout) (p : Bytes → Bool) :
    layout.sites.countP (fun site => p site.inner) =
      layout.blocks.countP fun block => p block.text := by
  have inner := congrArg (List.countP p) (inner_sitesFrom layout.lead layout.blocks)
  rwa [List.countP_map, List.countP_map] at inner

theorem length_sites (layout : Layout) : layout.sites.length = layout.blocks.length := by
  have inner := congrArg List.length (inner_sitesFrom layout.lead layout.blocks)
  rwa [List.length_map, List.length_map] at inner

theorem nodup_sites (text : Bytes) : (ofText text).sites.Nodup :=
  (pairwise_sites text).imp fun less same => by simp [same] at less

end Layout

namespace Event

/-- The phrase is part of the message. -/
def Says (event : Event) (phrase : String) : Prop :=
  phrase.toList <:+: event.message.toList

instance (event : Event) (phrase : String) : Decidable (event.Says phrase) :=
  inferInstanceAs (Decidable (_ <:+: _))

theorem says_inserted (units : Nat) : (sorting units true).Says "semicolon inserted" := by
  have whole : (sorting units true).message =
      "sorting " ++ toString units ++ " units" ++ ", semicolon inserted" := rfl
  have phrase : ", semicolon inserted" = ", " ++ "semicolon inserted" := by decide +kernel
  rw [Says, whole, phrase, ← String.append_assoc, String.toList_append]
  exact (List.suffix_append _ _).isInfix

/-- The words around the number have no `c`, and the number has digits only. -/
theorem not_says_inserted (units : Nat) : ¬ (sorting units false).Says "semicolon inserted" := by
  intro spoken
  have whole : (sorting units false).message =
      "sorting " ++ toString units ++ " units" ++ "" := rfl
  have member : 'c' ∈ (sorting units false).message.toList := spoken.subset (by decide +kernel)
  rw [whole] at member
  have digit : 'c' ∈ Nat.toDigits 10 units := by simpa using member
  exact absurd (Nat.isDigit_of_mem_toDigits (by decide) (by decide) digit) (by decide)

end Event

namespace Stylesheet

/-- How many blocks lack the semicolon of their last declaration. -/
def lacking (text : Bytes) : Nat :=
  (Layout.ofText text).sites.countP fun site => Block.LacksSemicolon site.inner

theorem length_alphabetize (direction : Direction) (text : Bytes) :
    (alphabetize direction text).length = text.length + lacking text := by
  have each : ∀ block, (Block.arrange direction block).length =
      block.length + if decide (Block.LacksSemicolon block) = true then 1 else 0 := by
    intro block
    simpa using Block.length_arrange direction block
  have grown := Layout.length_mapBlocks each (Layout.ofText text)
  have counted := Layout.countP_sites (Layout.ofText text)
    fun block => decide (Block.LacksSemicolon block)
  rwa [Layout.toText_ofText, ← counted] at grown

/-- A block reports once or not at all. -/
theorem countP_blockEvents {p : Event → Bool} {q : Bytes → Bool}
    (each : ∀ block, (blockEvents block).countP p = if q block = true then 1 else 0)
    (layout : Layout) :
    (layout.blocks.flatMap fun block => blockEvents block.text).countP p =
      layout.sites.countP fun site => q site.inner := by
  rw [Layout.countP_sites]
  induction layout.blocks with
  | nil => rfl
  | cons block blocks ih =>
    rw [List.flatMap_cons, List.countP_append, each, ih, List.countP_cons, Nat.add_comm]

theorem countP_inserted (block : Bytes) :
    (blockEvents block).countP (·.Says "semicolon inserted") =
      if decide (Block.LacksSemicolon block) = true then 1 else 0 := by
  rw [blockEvents]
  split
  · rename_i vacant
    have unmissed := Block.missingSemicolon?_of_units_nil (List.isEmpty_iff.mp vacant)
    have enough : ¬ Block.LacksSemicolon block := by simp [Block.lacksSemicolon_iff, unmissed]
    simp [enough]
  · cases missing : Block.missingSemicolon? block with
    | none =>
      have enough : ¬ Block.LacksSemicolon block := by simp [Block.lacksSemicolon_iff, missing]
      simp [enough, Event.not_says_inserted]
    | some stop =>
      have lacks : Block.LacksSemicolon block := Block.lacksSemicolon_iff.mpr ⟨stop, missing⟩
      simp [lacks, Event.says_inserted]

theorem length_blockEvents (block : Bytes) :
    (blockEvents block).countP (fun _ => true) =
      if block.any (!isBlank ·) = true then 1 else 0 := by
  rw [blockEvents]
  split
  · rename_i vacant
    rw [Block.isVacant_iff.mp vacant]
    rfl
  · rename_i held
    rw [Block.isVacant_iff, Bool.not_eq_false] at held
    rw [held]
    rfl

theorem level_of_mem_blockEvents {block : Bytes} {event : Event}
    (member : event ∈ blockEvents block) : event.level = .trace := by
  rw [blockEvents] at member
  split at member
  · contradiction
  · obtain rfl := List.mem_singleton.mp member
    rfl

theorem filter_trace (text : Bytes) : (events text).filter (·.level == .trace) =
    (Layout.ofText text).blocks.flatMap fun block => blockEvents block.text := by
  have all : ∀ event ∈ (Layout.ofText text).blocks.flatMap fun block => blockEvents block.text,
      (event.level == .trace) = true := by
    intro event member
    obtain ⟨block, -, inside⟩ := List.mem_flatMap.mp member
    rw [level_of_mem_blockEvents inside]
    rfl
  rw [events, List.filter_append, List.filter_eq_self.mpr all]
  exact List.append_nil _

theorem filter_debug (text : Bytes) : (events text).filter (·.level == .debug) =
    [.alphabetized (Layout.ofText text).blocks.length text.length] := by
  have quieter : ∀ event ∈ (Layout.ofText text).blocks.flatMap fun block => blockEvents block.text,
      ¬ (event.level == .debug) = true := by
    intro event member
    obtain ⟨block, -, inside⟩ := List.mem_flatMap.mp member
    rw [level_of_mem_blockEvents inside]
    decide
  rw [events, List.filter_append, List.filter_eq_nil_iff.mpr quieter]
  rfl

theorem deliver_of_ne_nil {text : Bytes} (content : text ≠ []) (direction : Direction)
    (limit : Nat) : deliver direction text (some limit) =
      ⟨(alphabetize direction text).take (min limit (text.length + lacking text)),
        if text.length + lacking text ≤ limit then none else some .bufferFull⟩ := by
  rw [deliver, if_neg (by simpa using content), Delivery.ofBytes, ← length_alphabetize direction,
    ← List.take_eq_take_min]

/-- Sorting adds one byte for every innermost block that lacks its semicolon. The log
reports each block that holds something, says of these blocks that a semicolon was
inserted, and counts all blocks. A buffer that is large enough for the sum takes the
whole style sheet and any other one takes its first bytes. -/
theorem growth_log_and_delivery (direction : Direction) (text : Bytes) (limit : Nat) :
    let sites := (Layout.ofText text).sites
    let missing := sites.countP fun site => Block.LacksSemicolon site.inner
    let reports := (events text).filter (·.level == .trace)
    (sites.Nodup ∧ ∀ site, site ∈ sites ↔ site.Innermost text) ∧
    (alphabetize direction text).length = text.length + missing ∧
    reports.countP (·.Says "semicolon inserted") = missing ∧
    reports.length = sites.countP (fun site => site.inner.any (!isBlank ·)) ∧
    (events text).filter (·.level == .debug) = [.alphabetized sites.length text.length] ∧
    (text ≠ [] → ((deliver direction text (some limit)).error? = none ↔
        text.length + missing ≤ limit) ∧
      (limit < text.length + missing →
        (deliver direction text (some limit)).error? = some .bufferFull) ∧
      (deliver direction text (some limit)).written =
        (alphabetize direction text).take (min limit (text.length + missing))) ∧
    deliver direction [] (some limit) = ⟨[], some .emptyInput⟩ := by
  intro sites missing reports
  have size : (alphabetize direction text).length = text.length + missing :=
    length_alphabetize direction text
  refine ⟨⟨Layout.nodup_sites text, Layout.mem_sites_iff text⟩, size, ?_, ?_, ?_, ?_, rfl⟩
  · exact (congrArg _ (filter_trace text)).trans (countP_blockEvents countP_inserted _)
  · rw [← List.countP_true]
    exact (congrArg _ (filter_trace text)).trans (countP_blockEvents length_blockEvents _)
  · rw [filter_debug, ← Layout.length_sites]
  · intro content
    have taken : deliver direction text (some limit) =
        ⟨(alphabetize direction text).take (min limit (text.length + missing)),
          if text.length + missing ≤ limit then none else some .bufferFull⟩ :=
      deliver_of_ne_nil content direction limit
    rw [taken]
    refine ⟨?_, ?_, rfl⟩
    · simp
    · intro short
      exact if_neg (Nat.not_le.mpr short)

/-- One block of four lacks its semicolon, one is blank and one is a comment. A buffer
of the size of the style sheet is one byte short, and one that is a byte larger does. -/
theorem growth_log_and_delivery_blocks :
    let text := Bytes.ofString "\x7bb:1;a:2\x7d\x7b \x7d\x7b/*c*/\x7d\x7bd:3;\x7d"
    let sites := (Layout.ofText text).sites
    text ≠ [] ∧ text.length = 25 ∧ sites.length = 4 ∧
    sites.countP (fun site => Block.LacksSemicolon site.inner) = 1 ∧
    ((events text).filter (·.level == .trace)).countP (·.Says "semicolon inserted") = 1 ∧
    ((events text).filter (·.level == .trace)).length = 3 ∧
    (deliver .ascending text (some 26)).error? = none ∧
    (deliver .ascending text (some 25)).error? = some .bufferFull ∧
    (deliver .ascending text (some 25)).written =
      Bytes.ofString "\x7ba:2;b:1;\x7d\x7b \x7d\x7b/*c*/\x7d\x7bd:3;" := by
  have sorted : alphabetize .ascending
      (Bytes.ofString "\x7bb:1;a:2\x7d\x7b \x7d\x7b/*c*/\x7d\x7bd:3;\x7d") =
      Bytes.ofString "\x7ba:2;b:1;\x7d\x7b \x7d\x7b/*c*/\x7d\x7bd:3;\x7d" := by
    rw [alphabetize, Block.arrange_eq_insertionSort]
    decide +kernel
  intro text sites
  have content : text ≠ [] := by decide +kernel
  have size : text.length = 25 := by decide +kernel
  have missing : sites.countP (fun site => Block.LacksSemicolon site.inner) = 1 := by
    decide +kernel
  obtain ⟨-, -, inserted, reported, -, room, -⟩ := growth_log_and_delivery .ascending text 26
  obtain ⟨-, -, -, -, -, short, -⟩ := growth_log_and_delivery .ascending text 25
  obtain ⟨enough, -, -⟩ := room content
  obtain ⟨-, full, taken⟩ := short content
  refine ⟨content, size, by decide +kernel, missing, inserted.trans missing,
    reported.trans (by decide +kernel), enough.mpr ?_, full ?_, ?_⟩
  · rw [missing, size]
  · rw [missing, size]
    decide
  · rw [taken, missing, size, sorted]
    decide +kernel

end Stylesheet
end CssSort
