import CssSort.Cursor.Search

/-! A block cut into the units that sorting moves: a declaration up to its
semicolon together with a comment behind it on the same line, or a comment that
stands alone. Every unit keeps the blanks in front of it and the blanks at the
end of the block stand apart, so that nothing is lost. -/
namespace CssSort
open Ascii

namespace Cursor

/-- Reads one unit. Without a top-level semicolon a declaration takes all that
is left. -/
def skipUnit (cursor : Cursor) : Cursor :=
  let start := cursor.skipBlanks
  if start.isAtComment then start.skipComment
  else match start.skipPast semicolon with
    | (none, stop) => stop
    | (some _, stop) =>
      if stop.skipInlineBlanks.isAtComment then stop.skipInlineBlanks.skipComment else stop

theorem exists_reads_skipUnit (cursor : Cursor) :
    ∃ read, cursor.Reads read cursor.skipUnit ∧ (read = [] → cursor.rest = []) := by
  have blanks := reads_skipWhile cursor isBlank
  have joined : ∀ {read : Bytes} {later : Cursor}, cursor.skipBlanks.Reads read later →
      (read = [] → cursor.skipBlanks.rest = []) →
      ∃ all, cursor.Reads all later ∧ (all = [] → cursor.rest = []) := by
    intro read later reads progress
    refine ⟨cursor.rest.takeWhile isBlank ++ read, blanks.trans reads, fun nothing => ?_⟩
    obtain ⟨noBlanks, noMore⟩ := List.append_eq_nil_iff.mp nothing
    have ahead : cursor.rest = cursor.rest.takeWhile isBlank ++ cursor.skipBlanks.rest := blanks.rest
    rw [ahead, noBlanks, progress noMore, List.append_nil]
  dsimp only [skipUnit]
  split
  · obtain ⟨read, reads, progress⟩ := exists_reads_skipComment cursor.skipBlanks
    exact joined reads progress
  · obtain ⟨read, reads, progress⟩ := exists_reads_skipPast cursor.skipBlanks semicolon
    split
    · rename_i search
      rw [search] at reads
      exact joined reads progress
    · rename_i stop search
      rw [search] at reads
      split
      · obtain ⟨comment, attached, -⟩ := exists_reads_skipComment stop.skipInlineBlanks
        have inline := reads_skipWhile stop isInlineBlank
        refine joined ((reads.trans inline).trans attached) fun nothing => progress ?_
        simp only [List.append_eq_nil_iff] at nothing
        exact nothing.1.1
      · exact joined reads progress

theorem rest_length_skipUnit_lt {cursor : Cursor} (unread : cursor.rest ≠ []) :
    cursor.skipUnit.rest.length < cursor.rest.length := by
  obtain ⟨read, reads, progress⟩ := exists_reads_skipUnit cursor
  have longer := List.length_pos_iff.mpr fun nothing => unread (progress nothing)
  rw [reads.length]
  omega

end Cursor

/-- The units of a text. Each is read from a fresh context, since a unit that
leaves another context behind is the last one. -/
def unitsOf (text : Bytes) : List Bytes :=
  if text = [] then []
  else text.take (Cursor.ofText text).skipUnit.pos :: unitsOf (Cursor.ofText text).skipUnit.rest
termination_by text.length
decreasing_by exact Cursor.rest_length_skipUnit_lt (by assumption)

theorem flatten_unitsOf (text : Bytes) : (unitsOf text).flatten = text := by
  fun_induction unitsOf text with
  | case1 => rfl
  | case2 text _ ih =>
    obtain ⟨read, reads, -⟩ := Cursor.exists_reads_skipUnit (Cursor.ofText text)
    have whole : text = read ++ (Cursor.ofText text).skipUnit.rest := reads.rest
    have stop : (Cursor.ofText text).skipUnit.pos = read.length :=
      reads.pos.trans (Nat.zero_add _)
    have first : text.take read.length = read := by
      rw [whole]
      exact List.take_left
    rw [List.flatten_cons, ih, stop, first]
    exact whole.symm

namespace Block

/-- The units of a block and the blanks behind them. -/
structure Parts where
  units : List Bytes
  trailing : Bytes
  deriving DecidableEq, Repr

namespace Parts

def ofText (block : Bytes) : Parts where
  units := unitsOf block.trimEnd
  trailing := block.blankEnd

def toText (parts : Parts) : Bytes :=
  parts.units.flatten ++ parts.trailing

theorem toText_ofText (block : Bytes) : (ofText block).toText = block := by
  rw [toText, ofText, flatten_unitsOf, Bytes.trimEnd_append_blankEnd]

end Parts
end Block
end CssSort
