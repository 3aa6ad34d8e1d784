import CssSort.Bytes

/-! A style sheet taken apart around its innermost blocks. A block is the text
between an opening brace and the first brace behind it, if that one closes. All
other braces, outer and unmatched ones, are part of the text around the blocks. -/
namespace CssSort
open Ascii

structure InnerBlock where
  text : Bytes
  /-- What follows up to the next block, from the closing brace on. -/
  behind : Bytes
  deriving DecidableEq, Repr

structure Layout where
  /-- What stands in front of the first block, its opening brace included. -/
  lead : Bytes
  blocks : List InnerBlock
  deriving DecidableEq, Repr

namespace Layout

/-- Puts one byte in front. An opening brace starts a block when the first brace
of the lead closes it. -/
def push (byte : UInt8) (layout : Layout) : Layout :=
  if byte == openBrace && (layout.lead.dropWhile (!isBrace ·)).head? == some closeBrace then
    { lead := [openBrace]
      blocks :=
        ⟨layout.lead.takeWhile (!isBrace ·), layout.lead.dropWhile (!isBrace ·)⟩ ::
          layout.blocks }
  else { layout with lead := byte :: layout.lead }

def ofText (text : Bytes) : Layout :=
  text.foldr push ⟨[], []⟩

def toText (layout : Layout) : Bytes :=
  layout.lead ++ layout.blocks.flatMap fun block => block.text ++ block.behind

theorem toText_push (byte : UInt8) (layout : Layout) :
    (layout.push byte).toText = byte :: layout.toText := by
  unfold push
  split
  · rename_i brace
    obtain ⟨rfl, -⟩ : byte = openBrace ∧ _ := by simpa using brace
    have lead : layout.lead.takeWhile (!isBrace ·) ++ layout.lead.dropWhile (!isBrace ·) =
        layout.lead := List.takeWhile_append_dropWhile
    simp only [toText, List.flatMap_cons, List.cons_append, List.nil_append, lead]
  · rfl

theorem toText_ofText (text : Bytes) : (ofText text).toText = text := by
  induction text with
  | nil => rfl
  | cons byte text ih =>
    rw [ofText, List.foldr_cons, toText_push]
    exact congrArg (byte :: ·) ih

def mapBlocks (f : Bytes → Bytes) (layout : Layout) : Layout where
  lead := layout.lead
  blocks := layout.blocks.map fun block => { block with text := f block.text }

end Layout
end CssSort
