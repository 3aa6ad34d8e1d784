import CssSort.Proofs.Block.Shape
import CssSort.Proofs.Cursor.Characters

/-! A cursor at work. Whatever is done with it, one thing after the other, it stays in its
text and between two characters. A step gets further from any place in the text, even
from inside a character, and does nothing behind the end. So no search takes more steps
than there are bytes left. -/
namespace CssSort

namespace Cursor

/-- A cursor at any place of a text or behind its end, whatever it remembers. -/
def placed (text : Bytes) (pos : Nat) (context : Context) : Cursor where
  rest := text.drop pos
  pos := pos
  context := context

@[simp]
theorem rest_placed (text : Bytes) (pos : Nat) (context : Context) :
    (placed text pos context).rest = text.drop pos := rfl

@[simp]
theorem pos_placed (text : Bytes) (pos : Nat) (context : Context) :
    (placed text pos context).pos = pos := rfl

theorem advance_placed (text : Bytes) (pos amount : Nat) (context : Context) :
    (placed text pos context).advance amount = placed text (pos + amount) context := by
  simp [placed, advance]

theorem Reads.eq_placed {text read : Bytes} {pos : Nat} {context : Context} {later : Cursor}
    (reads : (placed text pos context).Reads read later) :
    later = placed text later.pos later.context := by
  obtain ⟨rest, place, context'⟩ := later
  have whole : text.drop pos = read ++ rest := reads.rest
  obtain rfl : place = pos + read.length := reads.pos
  rw [placed, ← List.drop_drop, whole, List.drop_left]

/-- In a text a cursor gets no further than its end. -/
theorem Reads.pos_le {text read : Bytes} {pos : Nat} {context : Context} {later : Cursor}
    (reads : (placed text pos context).Reads read later) (inside : pos ≤ text.length) :
    later.pos ≤ text.length := by
  have length := reads.length
  simp only [rest_placed, List.length_drop] at length
  rw [reads.pos, pos_placed]
  omega

section Step

variable {text : Bytes} {pos : Nat} {context : Context}

theorem isSome_step?_placed :
    (placed text pos context).step?.isSome = true ↔ pos < text.length := by
  rw [Option.isSome_iff_ne_none, ne_eq, step?_eq_none_iff, rest_placed, List.drop_eq_nil_iff]
  omega

/-- A step reads the byte it starts at and gets further, at most to the end. -/
theorem step?_placed {piece : Piece} {next : Cursor}
    (step : (placed text pos context).step? = some (piece, next)) :
    text[pos]? = some piece.first ∧ pos < next.pos ∧ next.pos ≤ text.length ∧
      next = placed text next.pos next.context := by
  have inside : pos < text.length := isSome_step?_placed.mp (by rw [step]; rfl)
  have reads := reads_of_step? step
  refine ⟨?_, ?_, reads.pos_le inside.le, reads.eq_placed⟩
  · have first : (text.drop pos).head? = some piece.first := congrArg List.head? reads.rest
    rwa [List.head?_drop] at first
  · simp [reads.pos, Piece.bytes]

end Step

/-- So many steps lead from a cursor to a later one. -/
inductive Steps : Nat → Cursor → Cursor → Prop where
  | refl (cursor : Cursor) : Steps 0 cursor cursor
  | next {count : Nat} {cursor next later : Cursor} {piece : Piece} :
      cursor.step? = some (piece, next) → Steps count next later → Steps (count + 1) cursor later

/-- Every step takes a byte at least. -/
theorem Steps.count_le {count : Nat} {cursor later : Cursor} (steps : Steps count cursor later) :
    count ≤ cursor.rest.length := by
  induction steps with
  | refl => exact Nat.zero_le _
  | next step _ ih =>
    have := rest_length_of_step? step
    omega

theorem exists_steps_skipPast (cursor : Cursor) (byte : UInt8) :
    ∃ count, Steps count cursor (cursor.skipPast byte).2 := by
  fun_induction Cursor.skipPast cursor byte with
  | case1 cursor => exact ⟨0, .refl cursor⟩
  | case2 cursor piece next step => exact ⟨1, .next step (.refl next)⟩
  | case3 cursor piece next step _ ih =>
    obtain ⟨count, steps⟩ := ih
    exact ⟨count + 1, .next step steps⟩

theorem exists_steps_leaveComment (cursor : Cursor) :
    ∃ count, Steps count cursor cursor.leaveComment := by
  fun_induction Cursor.leaveComment cursor with
  | case1 cursor => exact ⟨0, .refl cursor⟩
  | case2 cursor piece next step _ ih =>
    obtain ⟨count, steps⟩ := ih
    exact ⟨count + 1, .next step steps⟩
  | case3 cursor => exact ⟨0, .refl cursor⟩

theorem exists_steps_skipComment (cursor : Cursor) :
    ∃ count, Steps count cursor cursor.skipComment := by
  unfold Cursor.skipComment
  split
  · exact ⟨0, .refl cursor⟩
  · rename_i piece next step
    obtain ⟨count, steps⟩ := exists_steps_leaveComment next
    exact ⟨count + 1, .next step steps⟩

/-- A comment does not change how many parentheses are open, closed or not. -/
theorem depth_leaveComment (cursor : Cursor) :
    cursor.leaveComment.context.depth = cursor.context.depth := by
  fun_induction Cursor.leaveComment cursor with
  | case1 => rfl
  | case2 cursor piece next step inside ih => rw [ih, depth_of_step? step inside]
  | case3 => rfl

/-- A comment is read to its closing mark or to the end. -/
theorem skipComment_ends {cursor : Cursor} (opens : cursor.isAtComment = true) :
    cursor.skipComment.context.depth = cursor.context.depth ∧
      (cursor.skipComment.context.mode = .normal ∨ cursor.skipComment.isAtEnd = true) := by
  obtain ⟨outside, rest, ahead⟩ := isAtComment_iff.mp opens
  constructor
  · rw [skipComment_open outside ahead, depth_leaveComment]
  · by_cases inside : cursor.skipComment.context.mode = .comment
    · rw [skipComment_open outside ahead] at inside ⊢
      exact .inr (List.isEmpty_iff.mpr (rest_leaveComment inside))
    · obtain ⟨_, _, context⟩ := skipComment_closed opens inside
      exact .inl (by rw [context, outside])

/-- Stands in a text and between two characters of it. -/
structure Stands (cursor : Cursor) (text : Bytes) : Prop where
  reached : ∃ read, (ofText text).Reads read cursor
  whole : cursor.IsWhole

theorem Stands.reads {text read : Bytes} {cursor later : Cursor} (stands : cursor.Stands text)
    (reads : cursor.Reads read later) (whole : later.IsWhole) : later.Stands text := by
  obtain ⟨front, start⟩ := stands.reached
  exact ⟨⟨front ++ read, start.trans reads⟩, whole⟩

theorem stands_ofText {text : Bytes} (valid : text.isUtf8 = true) : (ofText text).Stands text :=
  ⟨⟨[], .refl _⟩, valid⟩

theorem Stands.place {text : Bytes} {cursor : Cursor} (stands : cursor.Stands text)
    (valid : text.isUtf8 = true) : cursor.pos ≤ text.length ∧ text.isBoundary cursor.pos = true ∧
      cursor = placed text cursor.pos cursor.context := by
  obtain ⟨read, reads⟩ := stands.reached
  have start : (placed text 0 {}).Reads read cursor := reads
  have whole : text = read ++ cursor.rest := reads.rest
  have pos : cursor.pos = read.length := reads.pos.trans (Nat.zero_add _)
  refine ⟨start.pos_le (Nat.zero_le _), ?_, start.eq_placed⟩
  rw [whole] at valid
  rw [pos, whole]
  exact Bytes.isBoundary_append (Bytes.isUtf8_of_append valid stands.whole) stands.whole

/-- What can be done with a cursor and with the copy of it that is kept. -/
inductive Operation where
  | step
  | skipPast (byte : UInt8)
  | skipBlanks
  | skipInlineBlanks
  | skipComment
  | save
  | restore
  deriving DecidableEq, Repr

/-- A cursor and the copy that was saved last. -/
structure Session where
  cursor : Cursor
  saved : Cursor
  deriving DecidableEq, Repr

namespace Session

/-- The cursor is saved as it is at the start. -/
def ofText (text : Bytes) : Session where
  cursor := Cursor.ofText text
  saved := Cursor.ofText text

/-- A step that finds nothing to read changes nothing, and a comment is skipped only where
one starts. -/
def perform (session : Session) : Operation → Session
  | .step => { session with cursor := (session.cursor.step?.map Prod.snd).getD session.cursor }
  | .skipPast byte => { session with cursor := (session.cursor.skipPast byte).2 }
  | .skipBlanks => { session with cursor := session.cursor.skipBlanks }
  | .skipInlineBlanks => { session with cursor := session.cursor.skipInlineBlanks }
  | .skipComment =>
    if session.cursor.isAtComment then { session with cursor := session.cursor.skipComment }
    else session
  | .save => { session with saved := session.cursor }
  | .restore => { session with cursor := session.saved }

def run (session : Session) (operations : List Operation) : Session :=
  operations.foldl perform session

/-- Both cursors stand in the text. -/
structure Stands (session : Session) (text : Bytes) : Prop where
  cursor : session.cursor.Stands text
  saved : session.saved.Stands text

/-- One operation, whichever it is, keeps both cursors in the text. -/
theorem Stands.perform {session : Session} {text : Bytes} (stands : session.Stands text)
    (operation : Operation) : (session.perform operation).Stands text := by
  have whole := stands.cursor.whole
  cases operation with
  | step =>
    refine ⟨?_, stands.saved⟩
    cases step : session.cursor.step? with
    | none => simpa [Session.perform, step] using stands.cursor
    | some found =>
      simpa [Session.perform, step] using
        stands.cursor.reads (reads_of_step? step) (whole.of_step? step)
  | skipPast byte =>
    obtain ⟨read, reads, -⟩ := exists_reads_skipPast session.cursor byte
    exact ⟨stands.cursor.reads reads (whole.skipPast byte), stands.saved⟩
  | skipBlanks =>
    exact ⟨stands.cursor.reads (reads_skipWhile _ _)
      (whole.skipWhile fun _ => Ascii.isAscii_of_isBlank), stands.saved⟩
  | skipInlineBlanks =>
    exact ⟨stands.cursor.reads (reads_skipWhile _ _)
      (whole.skipWhile fun _ => Ascii.isAscii_of_isInlineBlank), stands.saved⟩
  | skipComment =>
    simp only [Session.perform]
    split
    · obtain ⟨read, reads, -⟩ := exists_reads_skipComment session.cursor
      exact ⟨stands.cursor.reads reads whole.skipComment, stands.saved⟩
    · exact stands
  | save => exact ⟨stands.cursor, stands.cursor⟩
  | restore => exact ⟨stands.saved, stands.saved⟩

theorem Stands.run {session : Session} {text : Bytes} (stands : session.Stands text)
    (operations : List Operation) : (session.run operations).Stands text := by
  induction operations generalizing session with
  | nil => exact stands
  | cons operation operations ih => exact ih (stands.perform operation)

end Session

/-- After any operations on a text the cursor stands in it and between two characters. A
comment is read to its close or to the end of the text, and the parentheses stay as they
are. From any place at all, a step reads the byte there if there is one, gets further and
stays in the text, and otherwise changes nothing. So every run of steps is bounded by the
bytes that are left, and both searches are such runs. -/
theorem operations_keep_place (text : Bytes) :
    (text.isUtf8 = true → ∀ operations : List Operation,
      let cursor := ((Session.ofText text).run operations).cursor
      cursor.pos ≤ text.length ∧ text.isBoundary cursor.pos = true ∧
      cursor = placed text cursor.pos cursor.context) ∧
    ∀ (pos : Nat) (context : Context),
      let cursor := placed text pos context
      (∀ amount, cursor.advance amount = placed text (pos + amount) context) ∧
      (cursor.isAtComment = true → cursor.skipComment.context.depth = context.depth ∧
        (cursor.skipComment.context.mode = .normal ∨ cursor.skipComment.isAtEnd = true)) ∧
      (cursor.step?.isSome = true ↔ pos < text.length) ∧
      (∀ piece next, cursor.step? = some (piece, next) → text[pos]? = some piece.first ∧
        pos < next.pos ∧ next.pos ≤ text.length ∧ next = placed text next.pos next.context) ∧
      (text.length ≤ pos → ∀ saved, (Session.mk cursor saved).perform .step = ⟨cursor, saved⟩) ∧
      (∀ count later, Steps count cursor later → count ≤ text.length - pos) ∧
      (∀ byte, ∃ count, Steps count cursor (cursor.skipPast byte).2) ∧
      ∃ count, Steps count cursor cursor.skipComment := by
  constructor
  · intro valid operations
    have start : (Session.ofText text).Stands text := ⟨stands_ofText valid, stands_ofText valid⟩
    exact (start.run operations).cursor.place valid
  · intro pos context cursor
    refine ⟨fun amount => advance_placed text pos amount context, skipComment_ends,
      isSome_step?_placed, fun piece next => step?_placed, ?_, ?_, exists_steps_skipPast cursor,
      exists_steps_skipComment cursor⟩
    · intro behind saved
      have nothing : cursor.step? = none :=
        step?_eq_none_iff.mpr (List.drop_eq_nil_of_le behind)
      simp [Session.perform, nothing]
    · intro count later steps
      have bound := steps.count_le
      rwa [rest_placed, List.length_drop] at bound

/-- In a string, a character of two bytes behind a backslash, and then a parenthesis with a
comment in it that is never closed; and a step from inside the character. -/
theorem operations_keep_place_accents :
    let text := Bytes.ofString "'\\é'(/*x"
    let session := (Session.ofText text).run
      [.step, .save, .step, .restore, .step, .skipPast Ascii.semicolon]
    let comment := placed text 6 ⟨.normal, 1⟩
    text.isUtf8 = true ∧ text.length = 9 ∧ session.cursor.pos = 9 ∧
    text.isBoundary session.cursor.pos = true ∧ text.isBoundary 3 = false ∧
    comment.isAtComment = true ∧ comment.skipComment.context.depth = 1 ∧
    ((placed text 1 {}).advance 2).step?.isSome = true ∧
    ((placed text 1 {}).advance 20).step?.isSome = false := by
  intro text session comment
  have valid : text.isUtf8 = true := Bytes.isUtf8_ofString _
  have opens : comment.isAtComment = true := by decide +kernel
  obtain ⟨run, places⟩ := operations_keep_place text
  obtain ⟨-, inside, -⟩ := run valid
    [.step, .save, .step, .restore, .step, .skipPast Ascii.semicolon]
  obtain ⟨-, kept, -⟩ := places 6 ⟨.normal, 1⟩
  obtain ⟨moved, -⟩ := places 1 {}
  obtain ⟨-, -, found, -⟩ := places 3 {}
  obtain ⟨-, -, lost, -⟩ := places 21 {}
  refine ⟨valid, by decide +kernel, by decide +kernel, inside, by decide +kernel, opens,
    (kept opens).1, ?_, ?_⟩
  · rw [moved]
    exact found.mpr (by decide +kernel)
  · rw [moved, Bool.eq_false_iff]
    exact fun kept => absurd (lost.mp kept) (by decide +kernel)

end Cursor
end CssSort
