import CssSort.Block.Parts
import CssSort.Proofs.Cursor.Hits
import CssSort.Proofs.Cursor.Passing

/-! The shapes of units. A unit that is followed by another one ends by itself: it
is a closed comment, or it ends at its semicolon or at a comment closed behind it.
Only the last unit of a text can lack its end, by a comment that is never closed
or by a semicolon that is never reached. -/
namespace CssSort
open Ascii

namespace Cursor

/-- Nothing is remembered of what was read. -/
def fresh (pos : Nat) (rest : Bytes) : Cursor :=
  { rest, pos }

theorem embed_ofText (text : Bytes) (before : Nat) (behind : Bytes) :
    (ofText text).embed before behind = fresh before (text ++ behind) := rfl

theorem fresh_of_context {cursor : Cursor} (context : cursor.context = {}) :
    cursor = fresh cursor.pos cursor.rest := by
  obtain ⟨rest, pos, _⟩ := cursor
  obtain rfl := context
  rfl

theorem skipWhile_fresh {p : UInt8 → Bool} {inside rest : Bytes}
    (all : ∀ byte ∈ inside, p byte = true) (boundary : ∀ byte ∈ rest.head?, p byte = false)
    (pos : Nat) : (fresh pos (inside ++ rest)).skipWhile p = fresh (pos + inside.length) rest := by
  have stop : rest.takeWhile p = [] := by
    cases rest with
    | nil => rfl
    | cons first rest => exact List.takeWhile_cons_of_neg (by simp [boundary first rfl])
  simp [skipWhile, advance, fresh, List.takeWhile_append_of_pos all, stop]

theorem skipWhile_eq (p : UInt8 → Bool) (pos : Nat) (text : Bytes) :
    (fresh pos text).skipWhile p =
      fresh (pos + (text.takeWhile p).length) (text.dropWhile p) := by
  have all : ∀ byte ∈ text.takeWhile p, p byte = true := List.all_eq_true.mp List.all_takeWhile
  have boundary : ∀ byte ∈ (text.dropWhile p).head?, p byte = false := by
    intro byte head
    have := List.head?_dropWhile_not p text
    rw [Option.mem_def.mp head] at this
    simpa using this
  have cut := skipWhile_fresh all boundary pos
  rwa [List.takeWhile_append_dropWhile] at cut

theorem rest_skipPast_none {cursor stop : Cursor} {byte : UInt8}
    (search : cursor.skipPast byte = (none, stop)) : stop.rest = [] := by
  fun_induction skipPast cursor byte with
  | case1 cursor step =>
    obtain rfl : cursor = stop := by simpa using search
    exact step?_eq_none_iff.mp step
  | case2 => simp at search
  | case3 cursor piece next step other ih => exact ih search

theorem rest_leaveComment {cursor : Cursor}
    (inside : cursor.leaveComment.context.mode = .comment) : cursor.leaveComment.rest = [] := by
  fun_induction leaveComment cursor with
  | case1 cursor step => exact step?_eq_none_iff.mp step
  | case2 cursor piece next step _ ih => exact ih inside
  | case3 cursor piece next step outside => exact absurd inside outside

end Cursor

/-- One comment that is closed by its last bytes. -/
structure IsClosedComment (text : Bytes) : Prop where
  opens : (Cursor.ofText text).isAtComment = true
  stop : (Cursor.ofText text).skipComment = Cursor.fresh text.length []

/-- One comment that is never closed. -/
structure IsOpenComment (text : Bytes) : Prop where
  opens : (Cursor.ofText text).isAtComment = true
  inside : (Cursor.ofText text).skipComment.context.mode = .comment

/-- The text of a declaration starts neither with a blank nor with a comment. -/
structure IsStart (text : Bytes) : Prop where
  noBlank : ∀ byte ∈ text.head?, isBlank byte = false
  noComment : (Cursor.ofText text).isAtComment = false

/-- A declaration up to its semicolon, the first one at top level. -/
structure IsStatement (text : Bytes) : Prop extends IsStart text where
  stop : (Cursor.ofText text).skipPast semicolon =
    (some (text.length - 1), Cursor.fresh text.length [])

/-- A comment stands at the start, behind spaces and tabs at most. -/
def opensInline (text : Bytes) : Bool :=
  [slash, asterisk].isPrefixOf (text.dropWhile isInlineBlank)

def AllBlank (text : Bytes) : Prop :=
  ∀ byte ∈ text, isBlank byte = true

def AllInline (text : Bytes) : Prop :=
  ∀ byte ∈ text, isInlineBlank byte = true

theorem AllInline.allBlank {text : Bytes} (spaces : AllInline text) : AllBlank text := by
  intro byte member
  simp [isBlank, spaces byte member]

/-- A unit that ends by itself. -/
inductive Sealed : Bytes → Prop where
  | comment {blanks comment : Bytes} :
      AllBlank blanks → IsClosedComment comment → Sealed (blanks ++ comment)
  | bare {blanks statement : Bytes} :
      AllBlank blanks → IsStatement statement → Sealed (blanks ++ statement)
  | noted {blanks statement inline comment : Bytes} :
      AllBlank blanks → IsStatement statement → AllInline inline → IsClosedComment comment →
      Sealed (blanks ++ (statement ++ (inline ++ comment)))

/-- A unit that only the end of the text ends. -/
inductive Unsealed : Bytes → Prop where
  | comment {blanks comment : Bytes} :
      AllBlank blanks → IsOpenComment comment → Unsealed (blanks ++ comment)
  | noted {blanks statement inline comment : Bytes} :
      AllBlank blanks → IsStatement statement → AllInline inline → IsOpenComment comment →
      Unsealed (blanks ++ (statement ++ (inline ++ comment)))
  | endless {blanks declaration : Bytes} :
      AllBlank blanks → IsStart declaration → findTopLevel? declaration semicolon = none →
      Unsealed (blanks ++ declaration)

namespace IsClosedComment

variable {comment : Bytes} (closed : IsClosedComment comment)
include closed

theorem isAtComment_append (pos : Nat) (behind : Bytes) :
    (Cursor.fresh pos (comment ++ behind)).isAtComment = true :=
  Cursor.isAtComment_embed closed.opens pos behind

theorem skipComment_append (pos : Nat) (behind : Bytes) :
    (Cursor.fresh pos (comment ++ behind)).skipComment =
      Cursor.fresh (pos + comment.length) behind := by
  have outside : (Cursor.ofText comment).skipComment.context.mode ≠ .comment := by
    rw [closed.stop]
    exact Mode.noConfusion
  rw [← Cursor.embed_ofText, Cursor.skipComment_embed closed.opens outside, closed.stop]
  rfl

theorem exists_marks : ∃ body, comment = slash :: asterisk :: (body ++ [asterisk, slash]) := by
  have outside : (Cursor.ofText comment).skipComment.context.mode ≠ .comment := by
    rw [closed.stop]
    exact Mode.noConfusion
  obtain ⟨body, reads, -⟩ := Cursor.skipComment_closed closed.opens outside
  have whole := reads.rest
  rw [closed.stop] at whole
  exact ⟨body, whole.trans (List.append_nil _)⟩

theorem ne_nil : comment ≠ [] := by
  obtain ⟨body, rfl⟩ := closed.exists_marks
  exact List.cons_ne_nil _ _

theorem passes (pos : Nat) (behind : Bytes) :
    (Cursor.fresh pos (comment ++ behind)).Passes (Cursor.fresh (pos + comment.length) behind) := by
  rw [← closed.skipComment_append]
  exact Cursor.passes_skipComment (closed.isAtComment_append pos behind)

end IsClosedComment

theorem closedComment_of_skipComment {pos : Nat} {text : Bytes}
    (opens : (Cursor.fresh pos text).isAtComment = true)
    (closed : (Cursor.fresh pos text).skipComment.context.mode ≠ .comment) :
    ∃ comment rest, IsClosedComment comment ∧ text = comment ++ rest ∧
      (Cursor.fresh pos text).skipComment = Cursor.fresh (pos + comment.length) rest := by
  obtain ⟨read, reads, context⟩ := Cursor.skipComment_closed opens closed
  obtain ⟨comment, shape⟩ : ∃ comment, slash :: asterisk :: (read ++ [asterisk, slash]) = comment :=
    ⟨_, rfl⟩
  rw [shape] at reads
  generalize later : (Cursor.fresh pos text).skipComment = stop at reads context closed
  have whole : text = comment ++ stop.rest := reads.rest
  have outer : (Cursor.ofText comment).embed pos stop.rest = Cursor.fresh pos text := by
    rw [Cursor.embed_ofText, ← whole]
  have known : (Cursor.ofText comment).isAtComment = true :=
    Cursor.isAtComment_iff.mpr ⟨rfl, _, shape.symm⟩
  have closed' : ((Cursor.ofText comment).embed pos stop.rest).skipComment.context.mode ≠
      .comment := by rwa [outer, later]
  have left := Cursor.skipComment_of_embed known closed' (Nat.le_of_eq (by rw [outer, later]))
  obtain ⟨-, -, own⟩ := Cursor.skipComment_closed known left
  have same := Cursor.skipComment_embed known left pos stop.rest
  rw [outer, later] at same
  have finished : (Cursor.ofText comment).skipComment.rest = [] := by
    have := congrArg Cursor.rest same
    simpa using this
  have place : (Cursor.ofText comment).skipComment.pos = comment.length := by
    obtain ⟨all, reads, -⟩ := Cursor.exists_reads_skipComment (Cursor.ofText comment)
    have := reads.rest
    rw [finished, List.append_nil] at this
    rw [reads.pos, ← this]
    exact Nat.zero_add _
  refine ⟨comment, stop.rest, ⟨known, ?_⟩, whole, ?_⟩
  · rw [Cursor.fresh_of_context own, finished, place]
  · rw [Cursor.fresh_of_context context, reads.pos]
    rfl

namespace IsStatement

variable {statement : Bytes} (valid : IsStatement statement)
include valid

theorem skipPast_append (pos : Nat) (behind : Bytes) :
    (Cursor.fresh pos (statement ++ behind)).skipPast semicolon =
      (some (pos + (statement.length - 1)), Cursor.fresh (pos + statement.length) behind) := by
  rw [← Cursor.embed_ofText, Cursor.skipPast_embed isPlain_semicolon valid.stop]
  rfl

theorem exists_concat : ∃ read, statement = read ++ [semicolon] := by
  obtain ⟨read, reads, -, -⟩ := Cursor.skipPast_hit isPlain_semicolon valid.stop
  exact ⟨read, reads.rest.trans (List.append_nil _)⟩

theorem ne_nil : statement ≠ [] := by
  obtain ⟨read, rfl⟩ := valid.exists_concat
  exact List.append_ne_nil_of_right_ne_nil _ (List.cons_ne_nil _ _)

theorem isStart_append (behind : Bytes) : IsStart (statement ++ behind) where
  noBlank := by
    obtain ⟨first, more, rfl⟩ := List.exists_cons_of_ne_nil valid.ne_nil
    exact valid.noBlank
  noComment := by
    rw [Bool.eq_false_iff]
    intro opens
    obtain ⟨-, rest, ahead⟩ := Cursor.isAtComment_iff.mp opens
    obtain ⟨read, shape⟩ := valid.exists_concat
    have long : [slash, asterisk] <+: statement := by
      refine List.prefix_of_prefix_length_le ⟨_, ahead.symm⟩ (List.prefix_append _ behind) ?_
      rcases read with _ | ⟨first, read⟩
      · rw [shape] at ahead
        simp [Cursor.ofText, slash, semicolon] at ahead
      · simp [shape]
    obtain ⟨more, known⟩ := long
    have : (Cursor.ofText statement).isAtComment = true :=
      Cursor.isAtComment_iff.mpr ⟨rfl, more, known.symm⟩
    exact Bool.false_ne_true (valid.noComment.symm.trans this)

end IsStatement

theorem statement_of_skipPast {pos place : Nat} {text : Bytes} {stop : Cursor}
    (start : IsStart text)
    (hit : (Cursor.fresh pos text).skipPast semicolon = (some place, stop)) :
    ∃ statement rest, IsStatement statement ∧ text = statement ++ rest ∧
      stop = Cursor.fresh (pos + statement.length) rest := by
  obtain ⟨read, reads, context, -⟩ := Cursor.skipPast_hit isPlain_semicolon hit
  obtain ⟨statement, shape⟩ : ∃ statement, read ++ [semicolon] = statement := ⟨_, rfl⟩
  rw [shape] at reads
  have whole : text = statement ++ stop.rest := reads.rest
  have outer : (Cursor.ofText statement).embed pos stop.rest = Cursor.fresh pos text := by
    rw [Cursor.embed_ofText, ← whole]
  rw [← outer] at hit
  obtain ⟨own, stop', search⟩ := Cursor.skipPast_of_embed hit (Nat.le_refl _)
  have same := (Cursor.skipPast_embed isPlain_semicolon search pos stop.rest).symm.trans hit
  obtain ⟨read', reads', context', place'⟩ := Cursor.skipPast_hit isPlain_semicolon search
  have finished : stop'.rest = [] := by
    have := congrArg (fun found => Cursor.rest (Prod.snd found)) same
    simpa using this
  have ended : statement = read' ++ [semicolon] := by
    have := reads'.rest
    rwa [finished, List.append_nil] at this
  have search' : (Cursor.ofText statement).skipPast semicolon =
      (some (statement.length - 1), Cursor.fresh statement.length []) := by
    rw [search, Cursor.fresh_of_context context', finished, reads'.pos, place', ← ended]
    simp [ended, Cursor.ofText]
  refine ⟨statement, stop.rest, ⟨⟨?_, ?_⟩, search'⟩, whole, ?_⟩
  · intro byte head
    apply start.noBlank byte
    rw [whole, List.head?_append, Option.mem_def.mp head, Option.some_or, Option.mem_def]
  · rw [Bool.eq_false_iff]
    intro opens
    have := Cursor.isAtComment_embed opens pos stop.rest
    rw [outer] at this
    exact Bool.false_ne_true (start.noComment.symm.trans this)
  · rw [Cursor.fresh_of_context context, reads.pos]
    rfl

theorem opensInline_iff {text : Bytes} : opensInline text = true ↔
    ∃ inline rest, AllInline inline ∧ text = inline ++ slash :: asterisk :: rest := by
  rw [opensInline, List.isPrefixOf_iff_prefix]
  constructor
  · rintro ⟨rest, behind⟩
    refine ⟨text.takeWhile isInlineBlank, rest, ?_, ?_⟩
    · exact List.all_eq_true.mp List.all_takeWhile
    · exact (List.takeWhile_append_dropWhile.symm).trans (by rw [← behind]; rfl)
  · rintro ⟨inline, rest, all, rfl⟩
    rw [List.dropWhile_append_of_pos all]
    exact ⟨rest, rfl⟩

namespace Cursor

theorem isAtComment_skipInlineBlanks (pos : Nat) (text : Bytes) :
    (fresh pos text).skipInlineBlanks.isAtComment = opensInline text := by
  rw [Bool.eq_iff_iff, isAtComment_iff, opensInline, List.isPrefixOf_iff_prefix,
    skipInlineBlanks, skipWhile_eq]
  constructor
  · rintro ⟨-, more, ahead⟩
    exact ⟨more, ahead.symm⟩
  · rintro ⟨more, ahead⟩
    exact ⟨rfl, more, ahead.symm⟩

theorem fresh_eq_embed (pos : Nat) (text : Bytes) : fresh pos text = (ofText text).embed pos [] := by
  rw [embed_ofText, List.append_nil]

theorem skipUnit_comment {blanks text : Bytes} (all : AllBlank blanks)
    (opens : (ofText text).isAtComment = true) (pos : Nat) :
    (fresh pos (blanks ++ text)).skipUnit = (fresh (pos + blanks.length) text).skipComment := by
  obtain ⟨-, rest, ahead⟩ := isAtComment_iff.mp opens
  have boundary : ∀ byte ∈ text.head?, isBlank byte = false := by
    rw [show text = slash :: asterisk :: rest from ahead]
    rintro byte ⟨⟩
    decide
  have start : (fresh pos (blanks ++ text)).skipBlanks = fresh (pos + blanks.length) text :=
    skipWhile_fresh all boundary pos
  simp only [skipUnit, start]
  exact if_pos opens

theorem skipUnit_start {blanks text : Bytes} (all : AllBlank blanks) (start : IsStart text)
    (pos : Nat) :
    (fresh pos (blanks ++ text)).skipUnit =
      match (fresh (pos + blanks.length) text).skipPast semicolon with
      | (none, stop) => stop
      | (some _, stop) =>
        if stop.skipInlineBlanks.isAtComment then stop.skipInlineBlanks.skipComment else stop := by
  have first : (fresh pos (blanks ++ text)).skipBlanks = fresh (pos + blanks.length) text :=
    skipWhile_fresh all start.noBlank pos
  simp only [skipUnit, first]
  exact if_neg (Bool.eq_false_iff.mp start.noComment)

theorem skipUnit_statement {blanks statement : Bytes} (all : AllBlank blanks)
    (valid : IsStatement statement) (pos : Nat) (behind : Bytes) :
    (fresh pos (blanks ++ (statement ++ behind))).skipUnit =
      if opensInline behind then
        (fresh (pos + (blanks ++ statement).length) behind).skipInlineBlanks.skipComment
      else fresh (pos + (blanks ++ statement).length) behind := by
  rw [skipUnit_start all (valid.isStart_append behind), valid.skipPast_append]
  simp only [isAtComment_skipInlineBlanks, List.length_append, Nat.add_assoc]

end Cursor

/-- A comment is closed somewhere, or it takes all that is left. -/
theorem comment_shape {pos : Nat} {text : Bytes}
    (opens : (Cursor.fresh pos text).isAtComment = true) :
    (∃ comment rest, IsClosedComment comment ∧ text = comment ++ rest ∧
      (Cursor.fresh pos text).skipComment = Cursor.fresh (pos + comment.length) rest) ∨
    IsOpenComment text ∧ (Cursor.fresh pos text).skipComment.rest = [] := by
  by_cases inside : (Cursor.fresh pos text).skipComment.context.mode = .comment
  · refine .inr ⟨⟨opens, ?_⟩, ?_⟩
    · rwa [Cursor.fresh_eq_embed, Cursor.skipComment_shift] at inside
    · obtain ⟨outside, rest, ahead⟩ := Cursor.isAtComment_iff.mp opens
      rw [Cursor.skipComment_open outside ahead] at inside ⊢
      exact Cursor.rest_leaveComment inside
  · exact .inl (closedComment_of_skipComment opens inside)

theorem exists_blanks (text : Bytes) : ∃ blanks body, AllBlank blanks ∧
    (∀ byte ∈ body.head?, isBlank byte = false) ∧ text = blanks ++ body := by
  refine ⟨text.takeWhile isBlank, text.dropWhile isBlank, ?_, ?_, ?_⟩
  · exact List.all_eq_true.mp List.all_takeWhile
  · intro byte head
    have := List.head?_dropWhile_not isBlank text
    rw [Option.mem_def.mp head] at this
    simpa using this
  · exact List.takeWhile_append_dropWhile.symm

/-- What is cut off first: a unit that ends by itself, or all that is left. -/
theorem skipUnit_shape (text : Bytes) :
    ∃ unit rest, text = unit ++ rest ∧ (Cursor.ofText text).skipUnit.rest = rest ∧
      (Sealed unit ∨ rest = [] ∧ Unsealed unit) := by
  obtain ⟨blanks, body, all, boundary, rfl⟩ := exists_blanks text
  by_cases opens : (Cursor.fresh (0 + blanks.length) body).isAtComment = true
  · have reading : (Cursor.ofText (blanks ++ body)).skipUnit = _ :=
      Cursor.skipUnit_comment all opens 0
    rcases comment_shape opens with ⟨comment, rest, closed, rfl, stop⟩ | ⟨unclosed, finished⟩
    · refine ⟨blanks ++ comment, rest, (List.append_assoc ..).symm, ?_, .inl (.comment all closed)⟩
      rw [reading, stop]
      rfl
    · refine ⟨blanks ++ body, [], (List.append_nil _).symm, ?_, .inr ⟨rfl, .comment all unclosed⟩⟩
      rw [reading, finished]
  · have start : IsStart body := ⟨boundary, Bool.eq_false_iff.mpr opens⟩
    obtain ⟨place, stop, search⟩ :
        ∃ place stop, (Cursor.fresh (0 + blanks.length) body).skipPast semicolon = (place, stop) :=
      ⟨_, _, rfl⟩
    cases place with
    | none =>
      have reading : (Cursor.ofText (blanks ++ body)).skipUnit = _ :=
        Cursor.skipUnit_start all start 0
      have nowhere : findTopLevel? body semicolon = none := by
        rw [Cursor.fresh_eq_embed, Cursor.skipPast_shift] at search
        simpa [findTopLevel?] using congrArg Prod.fst search
      refine ⟨blanks ++ body, [], (List.append_nil _).symm, ?_,
        .inr ⟨rfl, .endless all start nowhere⟩⟩
      rw [reading, search]
      exact Cursor.rest_skipPast_none search
    | some place =>
      obtain ⟨statement, rest, valid, rfl, -⟩ := statement_of_skipPast start search
      have reading : (Cursor.ofText (blanks ++ (statement ++ rest))).skipUnit = _ :=
        Cursor.skipUnit_statement all valid 0 rest
      by_cases noted : opensInline rest = true
      · obtain ⟨inline, more, spaces, rfl⟩ := opensInline_iff.mp noted
        have reached : (Cursor.fresh (0 + (blanks ++ statement).length)
            (inline ++ slash :: asterisk :: more)).skipInlineBlanks = _ :=
          Cursor.skipWhile_fresh spaces (by rintro byte ⟨⟩; decide) _
        rw [if_pos noted, reached] at reading
        have opens : (Cursor.fresh (0 + (blanks ++ statement).length + inline.length)
            (slash :: asterisk :: more)).isAtComment = true :=
          Cursor.isAtComment_iff.mpr ⟨rfl, more, rfl⟩
        rcases comment_shape opens with ⟨comment, rest, closed, whole, stop⟩ | ⟨unclosed, finished⟩
        · refine ⟨blanks ++ (statement ++ (inline ++ comment)), rest, by simp [whole], ?_,
            .inl (.noted all valid spaces closed)⟩
          rw [reading, stop]
          rfl
        · refine ⟨_, [], (List.append_nil _).symm, ?_, .inr ⟨rfl, .noted all valid spaces unclosed⟩⟩
          rw [reading, finished]
      · refine ⟨blanks ++ statement, rest, by simp, ?_, .inl (.bare all valid)⟩
        rw [reading, if_neg noted]
        rfl

end CssSort
