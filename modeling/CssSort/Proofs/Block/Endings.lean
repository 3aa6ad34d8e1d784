import CssSort.Proofs.Block.Closed
import CssSort.Proofs.Cursor.Operations

/-! How one cursor that goes on and on reads the units of a text. It is fresh in front of each
unit, so the units are those read one by one. A unit is a comment, ends at a semicolon, or
misses it, and what the cursor meets tells what the unit looks like. -/
namespace CssSort
open Ascii

/-- How reading a unit comes to its end: by a comment, at the semicolon that stands at a
place, or by the end of the text where a semicolon is missing. -/
inductive UnitEnding where
  | comment
  | semicolon (place : Nat)
  | missing
  deriving DecidableEq, Repr

namespace Cursor

def ending (cursor : Cursor) : UnitEnding :=
  if cursor.skipBlanks.isAtComment then .comment
  else match (cursor.skipBlanks.skipPast semicolon).1 with
    | some place => .semicolon place
    | none => .missing

/-- The text up to where the unit ends. -/
def unit (cursor : Cursor) : Bytes :=
  cursor.rest.take (cursor.skipUnit.pos - cursor.pos)

/-- The cursor in front of each unit, as it goes on from one to the next. -/
def unitStarts (cursor : Cursor) : List Cursor :=
  if cursor.rest = [] then [] else cursor :: cursor.skipUnit.unitStarts
termination_by cursor.rest.length
decreasing_by exact rest_length_skipUnit_lt (by assumption)

theorem unit_of_reads {cursor : Cursor} {read : Bytes} (reads : cursor.Reads read cursor.skipUnit) :
    cursor.unit = read := by
  rw [unit, reads.pos, Nat.add_sub_cancel_left, reads.rest, List.take_left]

theorem reads_unit (cursor : Cursor) : cursor.Reads cursor.unit cursor.skipUnit := by
  obtain ⟨read, reads, -⟩ := exists_reads_skipUnit cursor
  rwa [unit_of_reads reads]

theorem skipComment_fresh {cursor : Cursor} (fresh : cursor.context = {})
    (opens : cursor.isAtComment = true) :
    cursor.skipComment.rest = [] ∨ cursor.skipComment.context = {} := by
  obtain ⟨depth, outside | finished⟩ := skipComment_ends opens
  · refine .inr (Context.isTopLevel_iff.mp ?_)
    simp [Context.isTopLevel, outside, depth, fresh]
  · exact .inl (List.isEmpty_iff.mp finished)

/-- Nothing is remembered behind a unit unless it is the last one. -/
theorem skipUnit_fresh {cursor : Cursor} (fresh : cursor.context = {}) :
    cursor.skipUnit.rest = [] ∨ cursor.skipUnit.context = {} := by
  have start : cursor.skipBlanks.context = {} := fresh
  dsimp only [skipUnit]
  split
  · exact skipComment_fresh start ‹_›
  · split
    · exact .inl (rest_skipPast_none ‹_›)
    · rename_i stop search
      obtain ⟨_, _, context, -⟩ := skipPast_hit isPlain_semicolon search
      split
      · exact skipComment_fresh (show stop.skipInlineBlanks.context = {} from context) ‹_›
      · exact .inr context

theorem skipWhile_shift (cursor : Cursor) (before : Nat) (p : UInt8 → Bool) :
    (cursor.embed before []).skipWhile p = (cursor.skipWhile p).embed before [] := by
  simp [skipWhile, advance, embed, Nat.add_assoc]

theorem isAtComment_shift (cursor : Cursor) (before : Nat) :
    (cursor.embed before []).isAtComment = cursor.isAtComment := by
  simp [isAtComment]

theorem skipUnit_shift (cursor : Cursor) (before : Nat) :
    (cursor.embed before []).skipUnit = cursor.skipUnit.embed before [] := by
  have blanks : (cursor.embed before []).skipBlanks = cursor.skipBlanks.embed before [] :=
    skipWhile_shift cursor before isBlank
  have inline : ∀ stop : Cursor,
      (stop.embed before []).skipInlineBlanks = stop.skipInlineBlanks.embed before [] :=
    fun stop => skipWhile_shift stop before isInlineBlank
  simp only [skipUnit, blanks, isAtComment_shift]
  by_cases opens : cursor.skipBlanks.isAtComment = true
  · rw [if_pos opens, if_pos opens, skipComment_shift]
  · rw [if_neg opens, if_neg opens, skipPast_shift]
    obtain ⟨place, stop⟩ := cursor.skipBlanks.skipPast semicolon
    cases place with
    | none => rfl
    | some place =>
      simp only [Option.map_some, inline, isAtComment_shift, skipComment_shift]
      exact (apply_ite (embed · before []) _ _ _).symm

theorem unitStarts_of_rest_nil {cursor : Cursor} (nothing : cursor.rest = []) :
    cursor.unitStarts = [] := by
  rw [unitStarts, if_pos nothing]

/-- Going on reads the same units as starting afresh behind each of them. -/
theorem map_unit_unitStarts {cursor : Cursor} (fresh : cursor.context = {}) :
    cursor.unitStarts.map unit = unitsOf cursor.rest := by
  fun_induction unitStarts cursor with
  | case1 cursor nothing => rw [nothing, unitsOf_nil, List.map_nil]
  | case2 cursor unread ih =>
    have same : cursor = (ofText cursor.rest).embed cursor.pos [] :=
      (fresh_of_context fresh).trans (fresh_eq_embed _ _)
    have stop : cursor.skipUnit = (ofText cursor.rest).skipUnit.embed cursor.pos [] := by
      rw [← skipUnit_shift, ← same]
    have rest : cursor.skipUnit.rest = (ofText cursor.rest).skipUnit.rest := by
      rw [stop, rest_embed, List.append_nil]
    have first : cursor.unit = cursor.rest.take (ofText cursor.rest).skipUnit.pos := by
      rw [unit, stop, embed, Nat.add_sub_cancel_left]
    rw [unitsOf, if_neg unread, List.map_cons, first, ← rest]
    congr 1
    rcases skipUnit_fresh fresh with finished | fresh'
    · rw [unitStarts_of_rest_nil finished, finished, unitsOf_nil, List.map_nil]
    · exact ih fresh'

/-- In front of each unit the cursor is fresh, stands behind the units before it and has read
them only. -/
theorem of_mem_unitStarts {cursor start : Cursor} {before after : List Cursor}
    (fresh : cursor.context = {}) (whole : cursor.unitStarts = before ++ start :: after) :
    start.context = {} ∧ cursor.Reads (before.map unit).flatten start ∧
      after = start.skipUnit.unitStarts ∧ start.rest ≠ [] := by
  fun_induction unitStarts cursor generalizing before with
  | case1 cursor nothing => simp at whole
  | case2 cursor unread ih =>
    rcases before with _ | ⟨first, before⟩
    · obtain ⟨rfl, rfl⟩ := List.cons.inj whole
      exact ⟨fresh, .refl cursor, rfl, unread⟩
    · obtain ⟨rfl, later⟩ := List.cons.inj whole
      rcases skipUnit_fresh fresh with finished | fresh'
      · rw [unitStarts_of_rest_nil finished] at later
        simp at later
      · obtain ⟨context, reads, rest⟩ := ih fresh' later
        exact ⟨context, (reads_unit cursor).trans reads, rest⟩

/-- What a unit looks like, for each way to come to its end. -/
inductive UnitShape (start : Cursor) : Prop where
  | closed {blanks comment : Bytes} : AllBlank blanks → IsClosedComment comment →
      start.unit = blanks ++ comment → start.ending = .comment →
      start.skipUnit.context.mode = .normal → UnitShape start
  | unclosed {blanks comment : Bytes} : AllBlank blanks → IsOpenComment comment →
      start.unit = blanks ++ comment → start.ending = .comment →
      start.skipUnit.context.mode = .comment → UnitShape start
  | ended {blanks statement note : Bytes} : AllBlank blanks → IsStatement statement →
      IsSilent note → start.unit = blanks ++ (statement ++ note) →
      start.ending = .semicolon (start.pos + (blanks.length + (statement.length - 1))) →
      UnitShape start
  | missing {blanks body : Bytes} : AllBlank blanks → IsStart body →
      findTopLevel? body semicolon = none → start.unit = blanks ++ body →
      start.ending = .missing → start.skipUnit.rest = [] → UnitShape start

section UnitEnding

variable {blanks : Bytes} (all : AllBlank blanks) (pos : Nat)
include all

theorem ending_comment {text : Bytes} (opens : (ofText text).isAtComment = true) :
    (fresh pos (blanks ++ text)).ending = .comment := by
  have head : ∀ byte ∈ text.head?, isBlank byte = false := by
    obtain ⟨-, rest, ahead⟩ := isAtComment_iff.mp opens
    rw [show text = slash :: asterisk :: rest from ahead]
    rintro byte ⟨⟩
    decide
  have start : (fresh pos (blanks ++ text)).skipBlanks = fresh (pos + blanks.length) text :=
    skipWhile_fresh all head pos
  rw [ending, start]
  exact if_pos opens

theorem ending_start {text : Bytes} (start : IsStart text) :
    (fresh pos (blanks ++ text)).ending =
      match findTopLevel? text semicolon with
      | some place => .semicolon (pos + (blanks.length + place))
      | none => .missing := by
  have first : (fresh pos (blanks ++ text)).skipBlanks = fresh (pos + blanks.length) text :=
    skipWhile_fresh all start.noBlank pos
  have outside : ¬ (fresh (pos + blanks.length) text).isAtComment = true :=
    Bool.eq_false_iff.mp start.noComment
  rw [ending, first, if_neg outside, fresh_eq_embed, skipPast_shift, findTopLevel?]
  cases ((ofText text).skipPast semicolon).1 with
  | none => rfl
  | some place => simp [Nat.add_assoc]

theorem ending_statement {statement : Bytes} (valid : IsStatement statement) (behind : Bytes) :
    (fresh pos (blanks ++ (statement ++ behind))).ending =
      .semicolon (pos + (blanks.length + (statement.length - 1))) := by
  have noBlanks : AllBlank [] := by simp [AllBlank]
  have found := findTopLevel?_statement noBlanks valid behind
  rw [ending_start all pos (valid.isStart_append behind), show findTopLevel? (statement ++ behind)
    semicolon = some (statement.length - 1) by simpa using found]

end UnitEnding

theorem unitShape {start : Cursor} (context : start.context = {}) : start.UnitShape := by
  obtain ⟨pos, text, rfl⟩ : ∃ pos text, start = fresh pos text :=
    ⟨_, _, fresh_of_context context⟩
  obtain ⟨unit, rest, rfl, left, shape⟩ := skipUnit_shape text
  have stop : (fresh pos (unit ++ rest)).skipUnit.rest = rest := by
    rw [fresh_eq_embed, skipUnit_shift, rest_embed, List.append_nil, left]
  have own : (fresh pos (unit ++ rest)).unit = unit := by
    have reads := (reads_unit (fresh pos (unit ++ rest))).rest
    rw [stop] at reads
    exact (List.append_cancel_right reads).symm
  rcases shape with ended | ⟨rfl, unended⟩
  · cases ended with
    | comment all closed =>
      refine .closed all closed own ?_ ?_
      · rw [List.append_assoc]
        exact ending_comment all pos (closed.isAtComment_append 0 rest)
      · rw [List.append_assoc, skipUnit_comment all (closed.isAtComment_append 0 rest),
          closed.skipComment_append]
        rfl
    | @bare blanks statement all valid =>
      refine .ended all valid ⟨_, .refl _, rfl⟩ (by rw [own, List.append_nil]) ?_
      rw [List.append_assoc]
      exact ending_statement all pos valid rest
    | noted all valid spaces closed =>
      refine .ended all valid (closed.silent spaces.allBlank) own ?_
      rw [List.append_assoc, List.append_assoc]
      exact ending_statement all pos valid _
  · rw [List.append_nil] at own stop ⊢
    cases unended with
    | comment all unclosed =>
      refine .unclosed all unclosed own (ending_comment all pos unclosed.opens) ?_
      rw [skipUnit_comment all unclosed.opens]
      exact (unclosed.skipComment _).2
    | noted all valid spaces unclosed =>
      refine .ended all valid (unclosed.silent spaces.allBlank) own ?_
      exact ending_statement all pos valid _
    | endless all start nowhere =>
      refine .missing all start nowhere own ?_ stop
      rw [ending_start all pos start, nowhere]

end Cursor

namespace Block

/-- The cursors in front of the units of a block, one cursor that goes on. -/
def starts (block : Bytes) : List Cursor :=
  (Cursor.ofText block.trimEnd).unitStarts

theorem map_unit_starts (block : Bytes) :
    (starts block).map Cursor.unit = (Parts.ofText block).units :=
  Cursor.map_unit_unitStarts rfl

theorem unitShape_of_mem {block : Bytes} {start : Cursor} (member : start ∈ starts block) :
    start.UnitShape := by
  obtain ⟨before, after, whole⟩ := List.append_of_mem member
  exact Cursor.unitShape (Cursor.of_mem_unitStarts rfl whole).1

theorem unit_mem {block : Bytes} {start : Cursor} (member : start ∈ starts block) :
    start.unit ∈ (Parts.ofText block).units := by
  rw [← map_unit_starts]
  exact List.mem_map_of_mem member

theorem solid_of_mem {block : Bytes} {start : Cursor} (member : start ∈ starts block) :
    start.unit.trimEnd = start.unit :=
  (isUnit_of_mem (Bytes.trimEnd_trimEnd block) (unit_mem member)).solid

end Block
end CssSort
