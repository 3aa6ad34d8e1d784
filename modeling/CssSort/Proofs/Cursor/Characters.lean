import CssSort.Block.Parts
import CssSort.Proofs.Cursor.Locality
import CssSort.Proofs.Text.Boundary

/-! A cursor reads whole characters. Every piece ends where a character ends, so
what is left of a text is text, however far the cursor was moved and whatever was
searched for. -/
namespace CssSort
open Ascii

theorem isUtf8_drop_charWidth {first : UInt8} {rest : Bytes}
    (valid : Bytes.isUtf8 (first :: rest) = true) :
    Bytes.isUtf8 (rest.drop (charWidth first - 1)) = true := by
  obtain ⟨inner, more, rfl, spells, known⟩ := Bytes.exists_character valid
  rw [spells.width, Nat.add_sub_cancel, List.drop_left]
  exact known

theorem isUtf8_drop_escapedWidth {text : Bytes} (valid : text.isUtf8 = true) :
    Bytes.isUtf8 (text.drop (escapedWidth text)) = true := by
  cases text with
  | nil => exact valid
  | cons escaped rest =>
    obtain ⟨inner, more, rfl, spells, known⟩ := Bytes.exists_character valid
    rw [escapedWidth, spells.width, List.drop_succ_cons, List.drop_left]
    exact known

/-- Both marks of a comment are two characters of one byte. -/
theorem isUtf8_drop_mark {first second : UInt8} {rest : Bytes} (ascii : isAscii first = true)
    (ascii' : isAscii second = true) (valid : Bytes.isUtf8 (first :: rest) = true)
    (next : rest.head? = some second) : Bytes.isUtf8 (rest.drop 1) = true := by
  obtain ⟨more, rfl⟩ := List.head?_eq_some_iff.mp next
  exact Bytes.isUtf8_tail ascii' (Bytes.isUtf8_tail ascii valid)

/-- A piece ends with a character, in each mode and for each kind of piece. -/
theorem Mode.isUtf8_drop_reach (mode : Mode) {first : UInt8} {rest : Bytes}
    (valid : Bytes.isUtf8 (first :: rest) = true) :
    Bytes.isUtf8 (rest.drop (mode.reach first rest)) = true := by
  cases mode with
  | normal =>
    simp only [reach]
    split
    · rename_i opens
      simp only [opensComment, Bool.and_eq_true, beq_iff_eq] at opens
      obtain ⟨rfl, next⟩ := opens
      exact isUtf8_drop_mark (by decide) (by decide) valid next
    · split
      · rename_i escape
        subst escape
        exact isUtf8_drop_escapedWidth (Bytes.isUtf8_tail (by decide) valid)
      · exact isUtf8_drop_charWidth valid
  | quoted quote =>
    simp only [reach]
    split
    · rename_i escape
      subst escape
      exact isUtf8_drop_escapedWidth (Bytes.isUtf8_tail (by decide) valid)
    · exact isUtf8_drop_charWidth valid
  | comment =>
    simp only [reach]
    split
    · rename_i closes
      simp only [closesComment, Bool.and_eq_true, beq_iff_eq] at closes
      obtain ⟨rfl, next⟩ := closes
      exact isUtf8_drop_mark (by decide) (by decide) valid next
    · exact isUtf8_drop_charWidth valid

namespace Cursor

/-- What is left to read is text. -/
def IsWhole (cursor : Cursor) : Prop :=
  cursor.rest.isUtf8 = true

/-- One step reads whole characters. -/
theorem IsWhole.of_step? {cursor next : Cursor} {piece : Piece} (whole : cursor.IsWhole)
    (step : cursor.step? = some (piece, next)) : next.IsWhole := by
  cases ahead : cursor.rest with
  | nil =>
    rw [step?_eq_none_iff.mpr ahead] at step
    contradiction
  | cons first rest =>
    rw [step?_cons ahead] at step
    obtain ⟨-, rfl⟩ := Prod.mk.inj (Option.some.inj step)
    rw [IsWhole, ahead] at whole
    exact cursor.context.mode.isUtf8_drop_reach whole

theorem IsWhole.skipWhile {cursor : Cursor} (whole : cursor.IsWhole) {p : UInt8 → Bool}
    (ascii : ∀ byte, p byte = true → isAscii byte = true) : (cursor.skipWhile p).IsWhole := by
  have reads := (reads_skipWhile cursor p).rest
  have cut : cursor.rest.takeWhile p ++ cursor.rest.dropWhile p = cursor.rest :=
    List.takeWhile_append_dropWhile
  have behind : (cursor.skipWhile p).rest = cursor.rest.dropWhile p :=
    List.append_cancel_left (reads.symm.trans cut.symm)
  rw [IsWhole, behind]
  exact Bytes.isUtf8_dropWhile ascii whole

theorem IsWhole.skipPast {cursor : Cursor} (whole : cursor.IsWhole) (byte : UInt8) :
    (cursor.skipPast byte).2.IsWhole := by
  fun_induction Cursor.skipPast cursor byte with
  | case1 cursor => exact whole
  | case2 cursor piece next step => exact whole.of_step? step
  | case3 cursor piece next step other ih => exact ih (whole.of_step? step)

theorem IsWhole.leaveComment {cursor : Cursor} (whole : cursor.IsWhole) :
    cursor.leaveComment.IsWhole := by
  fun_induction Cursor.leaveComment cursor with
  | case1 cursor => exact whole
  | case2 cursor piece next step inside ih => exact ih (whole.of_step? step)
  | case3 cursor => exact whole

theorem IsWhole.skipComment {cursor : Cursor} (whole : cursor.IsWhole) :
    cursor.skipComment.IsWhole := by
  unfold Cursor.skipComment
  split
  · exact whole
  · rename_i step
    exact (whole.of_step? step).leaveComment

theorem IsWhole.skipUnit {cursor : Cursor} (whole : cursor.IsWhole) : cursor.skipUnit.IsWhole := by
  have start : cursor.skipBlanks.IsWhole := whole.skipWhile fun _ => isAscii_of_isBlank
  have stop := start.skipPast semicolon
  dsimp only [Cursor.skipUnit]
  split
  · exact start.skipComment
  · split
    · rename_i search
      rwa [search] at stop
    · rename_i search
      rw [search] at stop
      split
      · exact (stop.skipWhile fun _ => isAscii_of_isInlineBlank).skipComment
      · exact stop

/-- The last meaningful piece ends where some step ended. -/
theorem IsWhole.lastSignificant {cursor : Cursor} (whole : cursor.IsWhole)
    (last : Option (Nat × UInt8)) :
    ∀ found ∈ cursor.lastSignificant last, found ∈ last ∨
      ∃ read later, cursor.Reads read later ∧ later.IsWhole ∧ later.pos = found.1 := by
  fun_induction Cursor.lastSignificant cursor last with
  | case1 cursor last =>
    intro found member
    exact .inl member
  | case2 cursor last piece next step idle ih =>
    intro found member
    apply (ih (whole.of_step? step) found member).imp_right
    rintro ⟨read, later, reads, known, place⟩
    exact ⟨_, later, (reads_of_step? step).trans reads, known, place⟩
  | case3 cursor last piece next step busy ih =>
    intro found member
    refine .inr ?_
    rcases ih (whole.of_step? step) found member with here | ⟨read, later, reads, known, place⟩
    · obtain rfl := Option.mem_some.mp here
      exact ⟨_, next, reads_of_step? step, whole.of_step? step, rfl⟩
    · exact ⟨_, later, (reads_of_step? step).trans reads, known, place⟩

end Cursor

theorem isUtf8_of_mem_unitsOf {text : Bytes} (valid : text.isUtf8 = true) :
    ∀ unit ∈ unitsOf text, unit.isUtf8 = true := by
  fun_induction unitsOf text with
  | case1 => simp
  | case2 text unread ih =>
    have start : (Cursor.ofText text).IsWhole := valid
    have later := start.skipUnit
    obtain ⟨read, reads, -⟩ := Cursor.exists_reads_skipUnit (Cursor.ofText text)
    have whole : text = read ++ (Cursor.ofText text).skipUnit.rest := reads.rest
    have stop : (Cursor.ofText text).skipUnit.pos = read.length := reads.pos.trans (Nat.zero_add _)
    have first : text.take read.length = read := by
      rw [whole]
      exact List.take_left
    rw [stop, first]
    refine List.forall_mem_cons.mpr ⟨?_, ?_⟩
    · rw [whole] at valid
      exact Bytes.isUtf8_of_append valid later
    · exact ih later

end CssSort
