import CssSort.Cursor.Basic

/-! Reading on until something is found: a byte outside strings, comments and
parentheses, the end of a comment, or the last piece that carries meaning. Each
search ends because every step leaves fewer bytes. -/
namespace CssSort
open Ascii

namespace Cursor

/-- Reads until `byte` starts a piece at top level and stops behind that piece.
The position of the byte comes with the cursor, or nothing when the text ran out. -/
def skipPast (cursor : Cursor) (byte : UInt8) : Option Nat × Cursor :=
  match _ : cursor.step? with
  | none => (none, cursor)
  | some (piece, next) =>
    if cursor.context.isTopLevel && piece.first == byte then (some cursor.pos, next)
    else next.skipPast byte
termination_by cursor.rest.length
decreasing_by exact rest_length_of_step? (by assumption)

/-- Reads to the end of the comment the cursor is in. -/
def leaveComment (cursor : Cursor) : Cursor :=
  match _ : cursor.step? with
  | none => cursor
  | some (_, next) => if cursor.context.mode = .comment then next.leaveComment else cursor
termination_by cursor.rest.length
decreasing_by exact rest_length_of_step? (by assumption)

/-- Reads the comment that starts here. A comment that is never closed takes
the rest of the text. -/
def skipComment (cursor : Cursor) : Cursor :=
  match cursor.step? with
  | none => cursor
  | some (_, next) => next.leaveComment

/-- Finds the last piece from here on that is neither blank nor part of a
comment, and gives its end and its last byte; `last` if there is none. -/
def lastSignificant (cursor : Cursor) (last : Option (Nat × UInt8)) : Option (Nat × UInt8) :=
  match _ : cursor.step? with
  | none => last
  | some (piece, next) =>
    if cursor.context.mode == .comment || cursor.isAtComment || isBlank piece.first then
      next.lastSignificant last
    else next.lastSignificant (some (next.pos, piece.last))
termination_by cursor.rest.length
decreasing_by all_goals exact rest_length_of_step? (by assumption)

theorem exists_reads_skipPast (cursor : Cursor) (byte : UInt8) :
    ∃ read, cursor.Reads read (cursor.skipPast byte).2 ∧ (read = [] → cursor.rest = []) := by
  fun_induction skipPast cursor byte with
  | case1 cursor step => exact ⟨[], .refl cursor, fun _ => step?_eq_none_iff.mp step⟩
  | case2 cursor piece next step found =>
    exact ⟨piece.bytes, reads_of_step? step, by simp [Piece.bytes]⟩
  | case3 cursor piece next step other ih =>
    obtain ⟨read, reads, -⟩ := ih
    exact ⟨piece.bytes ++ read, (reads_of_step? step).trans reads, by simp [Piece.bytes]⟩

theorem exists_reads_leaveComment (cursor : Cursor) :
    ∃ read, cursor.Reads read cursor.leaveComment := by
  fun_induction leaveComment cursor with
  | case1 cursor => exact ⟨[], .refl cursor⟩
  | case2 cursor piece next step inside ih =>
    obtain ⟨read, reads⟩ := ih
    exact ⟨piece.bytes ++ read, (reads_of_step? step).trans reads⟩
  | case3 cursor => exact ⟨[], .refl cursor⟩

theorem exists_reads_skipComment (cursor : Cursor) :
    ∃ read, cursor.Reads read cursor.skipComment ∧ (read = [] → cursor.rest = []) := by
  unfold skipComment
  split
  · rename_i step
    exact ⟨[], .refl cursor, fun _ => step?_eq_none_iff.mp step⟩
  · rename_i piece next step
    obtain ⟨read, reads⟩ := exists_reads_leaveComment next
    exact ⟨piece.bytes ++ read, (reads_of_step? step).trans reads, by simp [Piece.bytes]⟩

end Cursor

/-- Position of the first `byte` outside strings, comments and parentheses. -/
def findTopLevel? (text : Bytes) (byte : UInt8) : Option Nat :=
  ((Cursor.ofText text).skipPast byte).1

/-- End and last byte of the last piece of a text that is neither blank nor part
of a comment. An escape is one piece, so its last byte is the escaped one. -/
def lastSignificant? (text : Bytes) : Option (Nat × UInt8) :=
  (Cursor.ofText text).lastSignificant none

end CssSort
