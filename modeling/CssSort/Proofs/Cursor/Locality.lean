import CssSort.Cursor.Search

/-! Reading is local. How far a cursor gets depends on the bytes it reads and on
nothing behind them, so known bytes are read alike in front of any text and at
any position. Only the last piece needs care: it may look one byte ahead, and it
may be cut short by the end of the text. -/
namespace CssSort
open Ascii

/-- A byte that is one piece outside strings and comments and changes nothing. -/
structure IsPlain (byte : UInt8) : Prop where
  width : charWidth byte = 1
  noSlash : byte ≠ slash
  noBackslash : byte ≠ backslash
  noQuote : Quote.ofByte? byte = none
  noOpen : byte ≠ openParen
  noClose : byte ≠ closeParen

theorem isPlain_semicolon : IsPlain semicolon := by
  constructor <;> decide

theorem isPlain_colon : IsPlain colon := by
  constructor <;> decide

theorem isPlain_of_isBlank {byte : UInt8} (blank : isBlank byte = true) : IsPlain byte := by
  simp only [isBlank, isInlineBlank, Bool.or_eq_true, beq_iff_eq] at blank
  rcases blank with ((((rfl | rfl) | rfl) | rfl) | rfl) <;> constructor <;> decide

namespace Mode

theorem reach_append (mode : Mode) (first : UInt8) {rest : Bytes} (known : rest ≠ [])
    (behind : Bytes) : mode.reach first (rest ++ behind) = mode.reach first rest := by
  cases rest with
  | nil => contradiction
  | cons byte rest => rfl

theorem next_append (mode : Mode) (first : UInt8) {rest : Bytes} (known : rest ≠ [])
    (behind : Bytes) : mode.next first (rest ++ behind) = mode.next first rest := by
  cases rest with
  | nil => contradiction
  | cons byte rest => rfl

theorem reach_plain {byte : UInt8} (plain : IsPlain byte) (rest : Bytes) :
    normal.reach byte rest = 0 := by
  simp [reach, opensComment, plain.noSlash, plain.noBackslash, plain.width]

theorem next_plain {byte : UInt8} (plain : IsPlain byte) (rest : Bytes) :
    normal.next byte rest = normal := by
  simp [next, opensComment, plain.noSlash, plain.noQuote]

end Mode

theorem Context.next_plain {context : Context} {byte : UInt8} (plain : IsPlain byte)
    (outside : context.mode = .normal) (rest : Bytes) : context.next byte rest = context := by
  obtain ⟨mode, depth⟩ := context
  obtain rfl : mode = .normal := outside
  simp [next, nextDepth, Mode.next_plain plain, plain.noOpen, plain.noClose]

theorem Context.isTopLevel_iff {context : Context} : context.isTopLevel = true ↔ context = {} := by
  obtain ⟨mode, depth⟩ := context
  simp [isTopLevel]

namespace Cursor

/-- The same place in a text that has `before` more bytes in front and goes on
with `behind`. -/
def embed (cursor : Cursor) (before : Nat) (behind : Bytes) : Cursor where
  rest := cursor.rest ++ behind
  pos := before + cursor.pos
  context := cursor.context

@[simp]
theorem rest_embed (cursor : Cursor) (before : Nat) (behind : Bytes) :
    (cursor.embed before behind).rest = cursor.rest ++ behind := rfl

@[simp]
theorem context_embed (cursor : Cursor) (before : Nat) (behind : Bytes) :
    (cursor.embed before behind).context = cursor.context := rfl

theorem step?_cons {cursor : Cursor} {first : UInt8} {rest : Bytes}
    (ahead : cursor.rest = first :: rest) :
    cursor.step? = some (⟨first, rest.take (cursor.context.mode.reach first rest)⟩,
      { rest := rest.drop (cursor.context.mode.reach first rest)
        pos := cursor.pos + ((rest.take (cursor.context.mode.reach first rest)).length + 1)
        context := cursor.context.next first rest }) := by
  rw [step?, ahead]
  rfl

theorem step?_plain {cursor : Cursor} {byte : UInt8} {rest : Bytes} (plain : IsPlain byte)
    (outside : cursor.context.mode = .normal) (ahead : cursor.rest = byte :: rest) :
    cursor.step? = some (⟨byte, []⟩, { cursor with rest := rest, pos := cursor.pos + 1 }) := by
  rw [step?_cons ahead, outside, Mode.reach_plain plain, Context.next_plain plain outside]
  rfl

/-- A step that leaves something unread is the same step in front of any text. -/
theorem step?_embed {cursor next : Cursor} {piece : Piece}
    (step : cursor.step? = some (piece, next)) (unread : next.rest ≠ [])
    (before : Nat) (behind : Bytes) :
    (cursor.embed before behind).step? = some (piece, next.embed before behind) := by
  cases ahead : cursor.rest with
  | nil =>
    rw [step?_eq_none_iff.mpr ahead] at step
    contradiction
  | cons first rest =>
    rw [step?_cons ahead] at step
    obtain ⟨rfl, rfl⟩ := Prod.mk.inj (Option.some.inj step)
    have known : rest ≠ [] := by
      rintro rfl
      exact unread (List.drop_nil)
    have inside : cursor.context.mode.reach first rest ≤ rest.length := by
      have := List.length_pos_iff.mpr unread
      simp only [List.length_drop] at this
      omega
    have same : (cursor.embed before behind).rest = first :: (rest ++ behind) := by
      rw [embed, ahead, List.cons_append]
    rw [step?_cons same]
    simp only [embed, Context.next, Mode.reach_append _ _ known, Mode.next_append _ _ known,
      List.take_append_of_le_length inside, List.drop_append_of_le_length inside, Nat.add_assoc]

/-- A step that stops before the text behind is a step of the known part. -/
theorem step?_of_embed {cursor later : Cursor} {piece : Piece} {before : Nat} {behind : Bytes}
    (step : (cursor.embed before behind).step? = some (piece, later))
    (enough : behind.length < later.rest.length) :
    ∃ next, cursor.step? = some (piece, next) ∧ next.rest ≠ [] ∧
      later = next.embed before behind := by
  cases ahead : cursor.rest with
  | nil =>
    have bound := rest_length_of_step? step
    simp only [embed, ahead, List.nil_append] at bound
    omega
  | cons first rest =>
    have whole : (cursor.embed before behind).rest = first :: (rest ++ behind) := by
      rw [embed, ahead, List.cons_append]
    have left := step
    rw [step?_cons whole] at left
    obtain ⟨-, rfl⟩ := Prod.mk.inj (Option.some.inj left)
    simp only [List.length_drop, List.length_append] at enough
    have known : rest ≠ [] := by
      rintro rfl
      simp only [List.length_nil] at enough
      omega
    simp only [embed, Mode.reach_append _ _ known] at enough
    have own := step?_cons ahead
    have unread : rest.drop (cursor.context.mode.reach first rest) ≠ [] := by
      apply List.ne_nil_of_length_pos
      rw [List.length_drop]
      omega
    have again := (step?_embed own unread before behind).symm.trans step
    obtain ⟨rfl, same⟩ := Prod.mk.inj (Option.some.inj again)
    exact ⟨_, own, unread, same.symm⟩

theorem skipPast_of_step? {cursor next : Cursor} {piece : Piece}
    (step : cursor.step? = some (piece, next)) (byte : UInt8) :
    cursor.skipPast byte = if cursor.context.isTopLevel && piece.first == byte
      then (some cursor.pos, next) else next.skipPast byte := by
  rw [skipPast]
  split
  · simp_all
  · rename_i found
    rw [step] at found
    obtain ⟨rfl, rfl⟩ := Prod.mk.inj (Option.some.inj found)
    rfl

theorem skipPast_of_rest_nil {cursor : Cursor} (nothing : cursor.rest = []) (byte : UInt8) :
    cursor.skipPast byte = (none, cursor) := by
  rw [skipPast]
  split
  · rfl
  · simp_all [step?_eq_none_iff.mpr nothing]

theorem step?_plain_inv {cursor next : Cursor} {piece : Piece}
    (step : cursor.step? = some (piece, next)) (plain : IsPlain piece.first)
    (outside : cursor.context.mode = .normal) :
    cursor.rest = piece.first :: next.rest ∧ next.pos = cursor.pos + 1 ∧
      next.context = cursor.context := by
  have reads := reads_of_step? step
  have ahead : cursor.rest = piece.first :: (piece.tail ++ next.rest) := reads.rest
  rw [step?_plain plain outside ahead] at step
  obtain ⟨same, later⟩ := Prod.mk.inj (Option.some.inj step)
  have single : piece.tail = [] := (congrArg Piece.tail same).symm
  rw [single] at ahead
  exact ⟨ahead, (congrArg pos later).symm, (congrArg context later).symm⟩

theorem leaveComment_of_step? {cursor next : Cursor} {piece : Piece}
    (step : cursor.step? = some (piece, next)) (inside : cursor.context.mode = .comment) :
    cursor.leaveComment = next.leaveComment := by
  rw [leaveComment]
  split
  · simp_all
  · rename_i found
    rw [step] at found
    obtain ⟨rfl, rfl⟩ := Prod.mk.inj (Option.some.inj found)
    rw [if_pos inside]

theorem leaveComment_of_rest_nil {cursor : Cursor} (nothing : cursor.rest = []) :
    cursor.leaveComment = cursor := by
  rw [leaveComment]
  split
  · rfl
  · simp_all [step?_eq_none_iff.mpr nothing]

theorem leaveComment_of_outside {cursor : Cursor} (outside : cursor.context.mode ≠ .comment) :
    cursor.leaveComment = cursor := by
  rw [leaveComment]
  split
  · rfl
  · rw [if_neg outside]

theorem step?_close {cursor : Cursor} {rest : Bytes} (inside : cursor.context.mode = .comment)
    (ahead : cursor.rest = asterisk :: slash :: rest) :
    cursor.step? = some (⟨asterisk, [slash]⟩,
      { rest := rest, pos := cursor.pos + 2, context := ⟨.normal, cursor.context.depth⟩ }) := by
  rw [step?_cons ahead]
  simp [inside, Mode.reach, Mode.next, Context.next, Context.nextDepth, closesComment]

/-- Only the mark that closes a comment leads out of it. -/
theorem step?_close_inv {cursor next : Cursor} {piece : Piece}
    (step : cursor.step? = some (piece, next)) (inside : cursor.context.mode = .comment)
    (outside : next.context.mode ≠ .comment) :
    cursor.rest = asterisk :: slash :: next.rest ∧ next.pos = cursor.pos + 2 ∧
      next.context = ⟨.normal, cursor.context.depth⟩ := by
  cases ahead : cursor.rest with
  | nil => simp [step?_eq_none_iff.mpr ahead] at step
  | cons first rest =>
    have closes : closesComment first rest = true := by
      rw [step?_cons ahead] at step
      obtain ⟨-, rfl⟩ := Prod.mk.inj (Option.some.inj step)
      simpa [Context.next, inside, Mode.next] using outside
    simp only [closesComment, Bool.and_eq_true, beq_iff_eq, List.head?_eq_some_iff] at closes
    obtain ⟨rfl, more, rfl⟩ := closes
    rw [step?_close inside ahead] at step
    obtain ⟨-, rfl⟩ := Prod.mk.inj (Option.some.inj step)
    exact ⟨rfl, rfl, rfl⟩

theorem depth_of_step? {cursor next : Cursor} {piece : Piece}
    (step : cursor.step? = some (piece, next)) (inside : cursor.context.mode = .comment) :
    next.context.depth = cursor.context.depth := by
  cases ahead : cursor.rest with
  | nil => simp [step?_eq_none_iff.mpr ahead] at step
  | cons first rest =>
    rw [step?_cons ahead] at step
    obtain ⟨-, rfl⟩ := Prod.mk.inj (Option.some.inj step)
    simp [Context.next, Context.nextDepth, inside]

/-- A comment that is left ends with its closing mark, and the parentheses are
as they were. -/
theorem leaveComment_closed {cursor : Cursor} (inside : cursor.context.mode = .comment)
    (closed : cursor.leaveComment.context.mode ≠ .comment) :
    ∃ read, cursor.Reads (read ++ [asterisk, slash]) cursor.leaveComment ∧
      cursor.leaveComment.context = ⟨.normal, cursor.context.depth⟩ := by
  fun_induction leaveComment cursor with
  | case1 cursor step => exact absurd inside closed
  | case2 cursor piece next step inside ih =>
    by_cases stays : next.context.mode = .comment
    · obtain ⟨read, reads, context⟩ := ih stays closed
      refine ⟨piece.bytes ++ read, ?_, ?_⟩
      · rw [List.append_assoc]
        exact (reads_of_step? step).trans reads
      · rw [context, depth_of_step? step inside]
    · rw [leaveComment_of_outside stays]
      obtain ⟨ahead, pos, context⟩ := step?_close_inv step inside stays
      exact ⟨[], ⟨ahead, pos⟩, context⟩
  | case3 cursor piece next step outside => exact absurd inside outside

theorem leaveComment_embed {cursor : Cursor} (closed : cursor.leaveComment.context.mode ≠ .comment)
    (before : Nat) (behind : Bytes) :
    (cursor.embed before behind).leaveComment = cursor.leaveComment.embed before behind := by
  fun_induction leaveComment cursor with
  | case1 cursor step => exact leaveComment_of_outside closed
  | case2 cursor piece next step inside ih =>
    rw [← ih closed]
    by_cases stays : next.context.mode = .comment
    · have unread : next.rest ≠ [] := by
        intro nothing
        rw [leaveComment_of_rest_nil nothing] at closed
        exact closed stays
      exact leaveComment_of_step? (step?_embed step unread before behind) inside
    · obtain ⟨ahead, pos, context⟩ := step?_close_inv step inside stays
      have same : (cursor.embed before behind).rest =
          asterisk :: slash :: (next.rest ++ behind) := by
        rw [embed, ahead, List.cons_append, List.cons_append]
      have first : (cursor.embed before behind).step? = _ := step?_close inside same
      rw [leaveComment_of_step? first inside]
      simp [embed, pos, context, Nat.add_assoc]
  | case3 cursor piece next step outside => exact leaveComment_of_outside outside

/-- A comment left in front of the text behind is left by the known part. -/
theorem leaveComment_of_embed {cursor : Cursor} {before : Nat} {behind : Bytes}
    (closed : (cursor.embed before behind).leaveComment.context.mode ≠ .comment)
    (enough : behind.length ≤ (cursor.embed before behind).leaveComment.rest.length) :
    cursor.leaveComment.context.mode ≠ .comment := by
  generalize whole : cursor.embed before behind = outer at closed enough
  fun_induction leaveComment outer generalizing cursor with
  | case1 outer step =>
    subst whole
    rw [context_embed] at closed
    rwa [leaveComment_of_outside closed]
  | case2 outer piece next step inside ih =>
    subst whole
    rw [context_embed] at inside
    by_cases stays : next.context.mode = .comment
    · obtain ⟨read, reads, -⟩ := leaveComment_closed stays closed
      have less : behind.length < next.rest.length := by
        have := reads.length
        simp only [List.length_append, List.length_cons] at this
        omega
      obtain ⟨inner, own, -, rfl⟩ := step?_of_embed step less
      rw [leaveComment_of_step? own inside]
      exact ih rfl closed enough
    · rw [leaveComment_of_outside stays] at enough
      obtain ⟨ahead, -, -⟩ := step?_close_inv step inside stays
      obtain ⟨more, known⟩ : [asterisk, slash] <+: cursor.rest := by
        refine List.prefix_of_prefix_length_le ⟨_, ahead.symm⟩ (List.prefix_append _ behind) ?_
        have := congrArg List.length ahead
        simp only [rest_embed, List.length_append, List.length_cons, List.length_nil] at this ⊢
        omega
      rw [leaveComment_of_step? (step?_close inside known.symm) inside, leaveComment_of_outside]
      all_goals simp
  | case3 outer piece next step outside =>
    subst whole
    rw [context_embed] at outside
    rwa [leaveComment_of_outside outside]

theorem isAtComment_iff {cursor : Cursor} : cursor.isAtComment = true ↔
    cursor.context.mode = .normal ∧ ∃ rest, cursor.rest = slash :: asterisk :: rest := by
  rw [isAtComment, Bool.and_eq_true, beq_iff_eq]
  refine and_congr_right fun _ => ?_
  cases cursor.rest with
  | nil => simp
  | cons first rest => simp [opensComment, List.head?_eq_some_iff]

theorem isAtComment_embed {cursor : Cursor} (opens : cursor.isAtComment = true) (before : Nat)
    (behind : Bytes) : (cursor.embed before behind).isAtComment = true := by
  obtain ⟨outside, rest, ahead⟩ := isAtComment_iff.mp opens
  exact isAtComment_iff.mpr ⟨outside, rest ++ behind, by simp [ahead]⟩

theorem step?_open {cursor : Cursor} {rest : Bytes} (outside : cursor.context.mode = .normal)
    (ahead : cursor.rest = slash :: asterisk :: rest) :
    cursor.step? = some (⟨slash, [asterisk]⟩,
      { rest := rest, pos := cursor.pos + 2, context := ⟨.comment, cursor.context.depth⟩ }) := by
  rw [step?_cons ahead]
  simp [outside, Mode.reach, Mode.next, Context.next, Context.nextDepth, opensComment, slash,
    openParen, closeParen]

theorem skipComment_open {cursor : Cursor} {rest : Bytes} (outside : cursor.context.mode = .normal)
    (ahead : cursor.rest = slash :: asterisk :: rest) :
    cursor.skipComment = leaveComment
      { rest := rest, pos := cursor.pos + 2, context := ⟨.comment, cursor.context.depth⟩ } := by
  rw [skipComment, step?_open outside ahead]

theorem skipComment_closed {cursor : Cursor} (opens : cursor.isAtComment = true)
    (closed : cursor.skipComment.context.mode ≠ .comment) :
    ∃ read, cursor.Reads (slash :: asterisk :: (read ++ [asterisk, slash])) cursor.skipComment ∧
      cursor.skipComment.context = cursor.context := by
  obtain ⟨outside, rest, ahead⟩ := isAtComment_iff.mp opens
  rw [skipComment_open outside ahead] at closed ⊢
  obtain ⟨read, reads, context⟩ := leaveComment_closed rfl closed
  refine ⟨read, ⟨?_, ?_⟩, ?_⟩
  · rw [ahead]
    exact congrArg (fun more => slash :: asterisk :: more) reads.rest
  · rw [reads.pos]
    simp only [List.length_append, List.length_cons]
    omega
  · rw [context, ← outside]

theorem skipComment_embed {cursor : Cursor} (opens : cursor.isAtComment = true)
    (closed : cursor.skipComment.context.mode ≠ .comment) (before : Nat) (behind : Bytes) :
    (cursor.embed before behind).skipComment = cursor.skipComment.embed before behind := by
  obtain ⟨outside, rest, ahead⟩ := isAtComment_iff.mp opens
  have same : (cursor.embed before behind).rest = slash :: asterisk :: (rest ++ behind) := by
    rw [embed, ahead, List.cons_append, List.cons_append]
  rw [skipComment_open outside ahead] at closed ⊢
  rw [← leaveComment_embed closed]
  exact skipComment_open outside same

theorem skipComment_of_embed {cursor : Cursor} {before : Nat} {behind : Bytes}
    (opens : cursor.isAtComment = true)
    (closed : (cursor.embed before behind).skipComment.context.mode ≠ .comment)
    (enough : behind.length ≤ (cursor.embed before behind).skipComment.rest.length) :
    cursor.skipComment.context.mode ≠ .comment := by
  obtain ⟨outside, rest, ahead⟩ := isAtComment_iff.mp opens
  have same : (cursor.embed before behind).rest = slash :: asterisk :: (rest ++ behind) := by
    rw [embed, ahead, List.cons_append, List.cons_append]
  have start : (cursor.embed before behind).skipComment = leaveComment (embed
      { rest := rest, pos := cursor.pos + 2, context := ⟨.comment, cursor.context.depth⟩ }
        before behind) :=
    skipComment_open outside same
  rw [start] at closed enough
  rw [skipComment_open outside ahead]
  exact leaveComment_of_embed closed enough

end Cursor
end CssSort
