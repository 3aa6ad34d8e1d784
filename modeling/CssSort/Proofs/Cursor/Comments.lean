import CssSort.Item.Basic
import CssSort.Proofs.Block.Shape
import CssSort.Proofs.Cursor.Characters

/-! How a comment is spelled. A cursor reads a comment character by character, and no
character holds a byte of the closing mark inside, so it stops where the mark stands
first. A closed comment therefore ends with the mark and has it nowhere else, and a
comment that is never closed does not have it at all. -/
namespace CssSort
open Ascii

/-- Stands between the marks of a comment, closed by the first mark behind it. -/
def SpellsComment (text : Bytes) : Prop :=
  ∃ body, text = slash :: asterisk :: (body ++ [asterisk, slash]) ∧
    ¬ [asterisk, slash] <:+: body ++ [asterisk]

/-- Opens a comment and has no mark that closes it. -/
def SpellsOpenComment (text : Bytes) : Prop :=
  ∃ body, text = slash :: asterisk :: body ∧ ¬ [asterisk, slash] <:+: body

theorem closesComment_iff {first : UInt8} {rest : Bytes} :
    closesComment first rest = true ↔ [asterisk, slash] <+: first :: rest := by
  rw [closesComment, Bool.and_eq_true, beq_iff_eq, beq_iff_eq, List.head?_eq_some_iff,
    List.cons_prefix_cons]
  constructor
  · rintro ⟨rfl, more, rfl⟩
    exact ⟨rfl, more, rfl⟩
  · rintro ⟨rfl, more, rfl⟩
    exact ⟨rfl, more, rfl⟩

theorem spelled_of_behindComment? {text rest : Bytes} (found : behindComment? text = some rest) :
    ∃ body, text = body ++ asterisk :: slash :: rest ∧
      ¬ [asterisk, slash] <:+: body ++ [asterisk] := by
  induction text with
  | nil => contradiction
  | cons first text ih =>
    simp only [behindComment?] at found
    split at found
    · rename_i closes
      obtain ⟨more, ahead⟩ := closesComment_iff.mp closes
      obtain ⟨rfl, rfl⟩ := List.cons.inj ahead
      obtain rfl := Option.some.inj found
      exact ⟨[], rfl, fun early => by simpa using early.length_le⟩
    · rename_i stays
      obtain ⟨body, rfl, free⟩ := ih found
      refine ⟨first :: body, rfl, fun inside => ?_⟩
      rcases List.infix_cons_iff.mp inside with early | later
      · apply stays
        rw [closesComment_iff]
        exact early.trans ⟨slash :: rest, by simp⟩
      · exact free later

theorem not_infix_of_behindComment? {text : Bytes} (nowhere : behindComment? text = none) :
    ¬ [asterisk, slash] <:+: text := by
  induction text with
  | nil => exact fun inside => by simpa using inside.length_le
  | cons first text ih =>
    simp only [behindComment?] at nowhere
    split at nowhere
    · contradiction
    · rename_i stays
      intro inside
      rcases List.infix_cons_iff.mp inside with early | later
      · exact stays (closesComment_iff.mpr early)
      · exact ih nowhere later

/-- A mark that starts in the body is two bytes long, so it lies in front of the last slash. -/
theorem behindComment?_spelled {body : Bytes} (free : ¬ [asterisk, slash] <:+: body ++ [asterisk])
    (behind : Bytes) : behindComment? (body ++ asterisk :: slash :: behind) = some behind := by
  induction body with
  | nil => rfl
  | cons first body ih =>
    have stays : ¬ closesComment first (body ++ asterisk :: slash :: behind) = true := by
      rw [closesComment_iff]
      intro closes
      refine free (List.IsPrefix.isInfix (List.prefix_of_prefix_length_le closes ?_ ?_))
      · exact ⟨slash :: behind, by simp⟩
      · simp
    rw [List.cons_append, behindComment?, if_neg stays]
    exact ih fun later => free (List.infix_cons_iff.mpr (.inr later))

theorem behindComment?_free {body : Bytes} (free : ¬ [asterisk, slash] <:+: body) :
    behindComment? body = none := by
  cases found : behindComment? body with
  | none => rfl
  | some behind =>
    obtain ⟨front, rfl, -⟩ := spelled_of_behindComment? found
    exact absurd ⟨front, behind, by simp⟩ free

/-- The bytes inside a character do not close a comment. -/
theorem behindComment?_inner {inner : Bytes} (marked : ∀ byte ∈ inner, isInner byte = true)
    (rest : Bytes) : behindComment? (inner ++ rest) = behindComment? rest := by
  induction inner with
  | nil => rfl
  | cons byte inner ih =>
    obtain ⟨first, more⟩ := List.forall_mem_cons.mp marked
    have stays : ¬ closesComment byte (inner ++ rest) = true := by
      rw [closesComment_iff, List.cons_prefix_cons]
      rintro ⟨rfl, -⟩
      exact absurd first (by decide)
    rw [List.cons_append, behindComment?, if_neg stays, ih more]

namespace Cursor

/-- A step inside a comment that does not close it passes over one character. -/
theorem behindComment?_of_step? {cursor next : Cursor} {piece : Piece} (whole : cursor.IsWhole)
    (step : cursor.step? = some (piece, next)) (inside : cursor.context.mode = .comment)
    (stays : next.context.mode = .comment) :
    behindComment? cursor.rest = behindComment? next.rest := by
  cases ahead : cursor.rest with
  | nil => simp [step?_eq_none_iff.mpr ahead] at step
  | cons first rest =>
    rw [IsWhole, ahead] at whole
    obtain ⟨inner, more, rfl, spells, -⟩ := Bytes.exists_character whole
    rw [step?_cons ahead] at step
    obtain ⟨-, rfl⟩ := Prod.mk.inj (Option.some.inj step)
    have open' : ¬ closesComment first (inner ++ more) = true := by
      intro closes
      simp [Context.next, inside, Mode.next, closes] at stays
    have left : (inner ++ more).drop (Mode.comment.reach first (inner ++ more)) = more := by
      rw [Mode.reach, if_neg open', spells.width, Nat.add_sub_cancel, List.drop_left]
    rw [behindComment?, if_neg open', behindComment?_inner spells.inner, inside, left]

/-- A comment is left behind its first closing mark, or not at all. Up to the mark both
sides pass over the same characters. -/
theorem behindComment?_eq_leaveComment {cursor : Cursor} (whole : cursor.IsWhole)
    (inside : cursor.context.mode = .comment) :
    behindComment? cursor.rest = if cursor.leaveComment.context.mode = .comment then none
      else some cursor.leaveComment.rest := by
  fun_induction leaveComment cursor with
  | case1 cursor step =>
    rw [if_pos inside, step?_eq_none_iff.mp step]
    rfl
  | case2 cursor piece next step _ ih =>
    by_cases stays : next.context.mode = .comment
    · rw [behindComment?_of_step? whole step inside stays]
      exact ih (whole.of_step? step) stays
    · obtain ⟨ahead, -, -⟩ := step?_close_inv step inside stays
      rw [leaveComment_of_outside stays, if_neg stays, ahead]
      rfl
  | case3 cursor piece next step outside => exact absurd inside outside

end Cursor

theorem behindComment?_eq_skipComment {rest : Bytes}
    (valid : Bytes.isUtf8 (slash :: asterisk :: rest) = true) :
    behindComment? rest =
      if (Cursor.ofText (slash :: asterisk :: rest)).skipComment.context.mode = .comment then none
      else some (Cursor.ofText (slash :: asterisk :: rest)).skipComment.rest := by
  have entered : (Cursor.ofText (slash :: asterisk :: rest)).skipComment = _ :=
    Cursor.skipComment_open rfl rfl
  have whole : (⟨rest, 2, ⟨.comment, 0⟩⟩ : Cursor).IsWhole :=
    Bytes.isUtf8_tail (by decide) (Bytes.isUtf8_tail (by decide) valid)
  rw [entered]
  exact Cursor.behindComment?_eq_leaveComment whole rfl

theorem IsClosedComment.spells {comment : Bytes} (closed : IsClosedComment comment)
    (valid : comment.isUtf8 = true) : SpellsComment comment := by
  obtain ⟨-, rest, ahead⟩ := Cursor.isAtComment_iff.mp closed.opens
  obtain rfl : comment = slash :: asterisk :: rest := ahead
  have found := behindComment?_eq_skipComment valid
  rw [closed.stop, if_neg Mode.noConfusion] at found
  change behindComment? rest = some [] at found
  obtain ⟨body, rfl, free⟩ := spelled_of_behindComment? found
  exact ⟨body, rfl, free⟩

theorem IsOpenComment.spells {comment : Bytes} (unclosed : IsOpenComment comment)
    (valid : comment.isUtf8 = true) : SpellsOpenComment comment := by
  obtain ⟨-, rest, ahead⟩ := Cursor.isAtComment_iff.mp unclosed.opens
  obtain rfl : comment = slash :: asterisk :: rest := ahead
  have found := behindComment?_eq_skipComment valid
  rw [if_pos unclosed.inside] at found
  exact ⟨rest, rfl, not_infix_of_behindComment? found⟩

theorem isComment_open (rest : Bytes) :
    isComment (slash :: asterisk :: rest) = true ↔ behindComment? rest = some [] := by
  rw [isComment, Bool.and_eq_true, beq_iff_eq]
  exact and_iff_right rfl

theorem isComment_opens {raw : Bytes} (whole : isComment raw = true) :
    ∃ rest, raw = slash :: asterisk :: rest := by
  cases raw with
  | nil => contradiction
  | cons first rest =>
    rw [isComment, Bool.and_eq_true, opensComment, Bool.and_eq_true, beq_iff_eq, beq_iff_eq,
      List.head?_eq_some_iff] at whole
    obtain ⟨⟨rfl, more, rfl⟩, -⟩ := whole
    exact ⟨more, rfl⟩

/-- The whole text is one comment if its first closing mark stands at its end. -/
theorem isComment_iff_spells {raw : Bytes} : isComment raw = true ↔ SpellsComment raw := by
  constructor
  · intro whole
    obtain ⟨rest, rfl⟩ := isComment_opens whole
    obtain ⟨body, rfl, free⟩ := spelled_of_behindComment? ((isComment_open rest).mp whole)
    exact ⟨body, rfl, free⟩
  · rintro ⟨body, rfl, free⟩
    exact (isComment_open _).mpr (behindComment?_spelled free [])

/-- A cursor tells the same: it skips the comment and nothing is left, inside or behind. -/
theorem isComment_iff_skipComment {raw : Bytes} (valid : raw.isUtf8 = true) :
    isComment raw = true ↔ (Cursor.ofText raw).isAtComment = true ∧
      (Cursor.ofText raw).skipComment.isAtEnd = true ∧
      (Cursor.ofText raw).skipComment.context.mode = .normal := by
  constructor
  · intro whole
    obtain ⟨rest, rfl⟩ := isComment_opens whole
    have known : (Cursor.ofText (slash :: asterisk :: rest)).isAtComment = true :=
      Cursor.isAtComment_iff.mpr ⟨rfl, rest, rfl⟩
    have search := behindComment?_eq_skipComment valid
    rw [(isComment_open rest).mp whole] at search
    split at search
    · contradiction
    · rename_i closed
      obtain ⟨_, _, context⟩ := Cursor.skipComment_closed known closed
      exact ⟨known, List.isEmpty_iff.mpr (Option.some.inj search).symm, by rw [context]; rfl⟩
  · rintro ⟨known, finished, outside⟩
    obtain ⟨-, rest, ahead⟩ := Cursor.isAtComment_iff.mp known
    obtain rfl : raw = slash :: asterisk :: rest := ahead
    have search := behindComment?_eq_skipComment valid
    rw [outside, if_neg Mode.noConfusion, List.isEmpty_iff.mp finished] at search
    exact (isComment_open rest).mpr search

end CssSort
