import CssSort.Proofs.Item.Note
import CssSort.Proofs.Item.Ties

/-! Which units may stand in front of others. All units but the last of a text end
by themselves. A closed unit is a comment, or a declaration that has its semicolon
and leaves no comment open behind it, so wherever sorting puts it in front of
another unit it ends by itself too. -/
namespace CssSort
open Ascii

/-- Units are cut off one by one, and only the last can lack its end. -/
theorem unitsOf_induction {motive : Bytes → Prop} (nil : motive [])
    (step : ∀ unit rest, unit ≠ [] → unitsOf (unit ++ rest) = unit :: unitsOf rest →
      (Sealed unit ∨ rest = [] ∧ Unsealed unit) → motive rest → motive (unit ++ rest))
    (text : Bytes) : motive text := by
  induction size : text.length using Nat.strongRecOn generalizing text with
  | ind size ih =>
    by_cases finished : text = []
    · rwa [finished]
    · obtain ⟨unit, rest, rfl, units, shape⟩ := unitsOf_shape finished
      have progress : unit ≠ [] := by
        rintro rfl
        have := congrArg List.length units
        simp at this
      refine step unit rest progress units shape (ih rest.length ?_ rest rfl)
      rw [← size, List.length_append]
      have := List.length_pos_iff.mpr progress
      omega

theorem unitsOf_concat {text : Bytes} {units : List Bytes} {last : Bytes}
    (whole : unitsOf text = units ++ [last]) :
    (∀ unit ∈ units, Sealed unit) ∧ unitsOf last = [last] := by
  induction text using unitsOf_induction generalizing units with
  | nil => simp [unitsOf_nil] at whole
  | step unit rest _ cut shape ih =>
    rw [cut] at whole
    rcases units with _ | ⟨first, units⟩
    · obtain ⟨rfl, nothing⟩ := List.cons.inj whole
      have finished : rest = [] := by rw [← flatten_unitsOf rest, nothing, List.flatten_nil]
      subst finished
      rw [List.append_nil] at cut
      exact ⟨by simp, by rw [cut, unitsOf_nil]⟩
    · obtain ⟨rfl, later⟩ := List.cons.inj whole
      obtain ⟨ended, single⟩ := ih later
      constructor
      · intro other member
        rcases List.mem_cons.mp member with rfl | member
        · refine shape.resolve_right ?_
          rintro ⟨rfl, -⟩
          simp [unitsOf_nil] at later
        · exact ended other member
      · exact single

/-- A unit ends by itself or is the last one. -/
theorem sealed_or_last {text unit : Bytes} (member : unit ∈ unitsOf text) : Sealed unit ∨
    ∃ units, unitsOf text = units ++ [unit] ∧ ∀ other ∈ units, Sealed other := by
  obtain nothing | ⟨units, last, whole⟩ := List.eq_nil_or_concat' (unitsOf text)
  · rw [nothing] at member
    contradiction
  · obtain ⟨ended, -⟩ := unitsOf_concat whole
    rw [whole, List.mem_append, List.mem_singleton] at member
    rcases member with inside | rfl
    · exact .inl (ended unit inside)
    · exact .inr ⟨units, whole, ended⟩

/-- A unit read alone is one unit. -/
theorem unitsOf_unit {text unit : Bytes} (member : unit ∈ unitsOf text) : unitsOf unit = [unit] := by
  rcases sealed_or_last member with ended | ⟨units, whole, -⟩
  · simpa [unitsOf_nil, attach] using unitsOf_append ended []
  · exact (unitsOf_concat whole).2

theorem IsClosedComment.solid {comment : Bytes} (closed : IsClosedComment comment) :
    comment.trimEnd = comment := by
  obtain ⟨body, rfl⟩ := closed.exists_marks
  have last : isBlank slash = false := by decide
  simpa using Bytes.trimEnd_concat (slash :: asterisk :: (body ++ [asterisk])) last

theorem Sealed.solid {unit : Bytes} (ended : Sealed unit) : unit.trimEnd = unit := by
  cases ended with
  | comment _ closed => exact Bytes.trimEnd_behind closed.ne_nil closed.solid _
  | bare _ valid => exact Bytes.trimEnd_behind valid.ne_nil valid.solid _
  | noted all valid spaces closed =>
    rename_i blanks statement inline comment
    rw [← List.append_assoc statement, ← List.append_assoc blanks]
    exact Bytes.trimEnd_behind closed.ne_nil closed.solid _

/-- A unit of a text that does not end with blanks. -/
structure IsUnit (unit : Bytes) : Prop where
  shape : Sealed unit ∨ Unsealed unit
  solid : unit.trimEnd = unit

theorem isUnit_of_mem {text unit : Bytes} (solid : text.trimEnd = text)
    (member : unit ∈ unitsOf text) : IsUnit unit := by
  induction text using unitsOf_induction with
  | nil => simp [unitsOf_nil] at member
  | step first rest _ cut shape ih =>
    by_cases finished : rest = []
    · subst finished
      rw [cut, unitsOf_nil, List.mem_singleton] at member
      subst member
      rw [List.append_nil] at solid
      exact ⟨shape.imp_right And.right, solid⟩
    · rw [cut, List.mem_cons] at member
      rcases member with rfl | member
      · have ended := shape.resolve_right fun last => finished last.1
        exact ⟨.inl ended, ended.solid⟩
      · exact ih (Bytes.trimEnd_of_append solid) member

theorem opensInline_start {blanks text : Bytes} (all : AllBlank blanks) (start : IsStart text) :
    opensInline (blanks ++ text) = false := by
  rw [Bool.eq_false_iff]
  intro opens
  obtain ⟨inline, rest, spaces, whole⟩ := opensInline_iff.mp opens
  have same := congrArg (List.dropWhile isBlank) whole
  have first : (slash :: asterisk :: rest).dropWhile isBlank = slash :: asterisk :: rest :=
    List.dropWhile_cons_of_neg (by decide)
  have own : text.dropWhile isBlank = text := by
    cases text with
    | nil => rfl
    | cons byte text => exact List.dropWhile_cons_of_neg (by simp [start.noBlank byte rfl])
  rw [List.dropWhile_append_of_pos all, List.dropWhile_append_of_pos spaces.allBlank, first, own] at same
  have opens' : (Cursor.ofText text).isAtComment = true :=
    Cursor.isAtComment_iff.mpr ⟨rfl, rest, same⟩
  exact Bool.false_ne_true (start.noComment.symm.trans opens')

theorem IsOpenComment.skipComment {comment : Bytes} (unclosed : IsOpenComment comment) (pos : Nat) :
    (Cursor.fresh pos comment).skipComment.rest = [] ∧
      (Cursor.fresh pos comment).skipComment.context.mode = .comment := by
  rw [Cursor.fresh_eq_embed, Cursor.skipComment_shift, Cursor.rest_embed, Cursor.context_embed,
    List.append_nil]
  refine ⟨?_, unclosed.inside⟩
  obtain ⟨outside, rest, ahead⟩ := Cursor.isAtComment_iff.mp unclosed.opens
  have inside := unclosed.inside
  rw [Cursor.skipComment_open outside ahead] at inside ⊢
  exact Cursor.rest_leaveComment inside

theorem IsClosedComment.silent {blanks comment : Bytes} (closed : IsClosedComment comment)
    (all : AllBlank blanks) : IsSilent (blanks ++ comment) := by
  have passes := closed.passes (0 + blanks.length) []
  rw [List.append_nil] at passes
  exact ⟨_, (Cursor.passes_blanks all 0 rfl).trans passes, rfl⟩

theorem IsOpenComment.silent {blanks comment : Bytes} (unclosed : IsOpenComment comment)
    (all : AllBlank blanks) : IsSilent (blanks ++ comment) := by
  have opens : (Cursor.fresh (0 + blanks.length) comment).isAtComment = true := unclosed.opens
  have passes := (Cursor.passes_blanks all 0 rfl).trans (Cursor.passes_skipComment opens)
  exact ⟨_, passes, (unclosed.skipComment _).1⟩

/-- A unit is a comment, or a declaration is read from it. -/
theorem unit_cases {unit : Bytes} (shape : Sealed unit ∨ Unsealed unit) : IsSilent unit ∨
    ∃ blanks text, AllBlank blanks ∧ IsStart text ∧ unit = blanks ++ text := by
  rcases shape with ended | unended
  · cases ended with
    | comment all closed => exact .inl (closed.silent all)
    | bare all valid => exact .inr ⟨_, _, all, valid.toIsStart, rfl⟩
    | noted all valid spaces closed => exact .inr ⟨_, _, all, valid.isStart_append _, rfl⟩
  · cases unended with
    | comment all unclosed => exact .inl (unclosed.silent all)
    | noted all valid spaces unclosed => exact .inr ⟨_, _, all, valid.isStart_append _, rfl⟩
    | endless all start nowhere => exact .inr ⟨_, _, all, start, rfl⟩

theorem IsUnit.isNote {unit : Bytes} (valid : IsUnit unit) (opens : opensInline unit = true) :
    IsNote unit := by
  refine ⟨opens, valid.solid, ?_⟩
  rcases unit_cases valid.shape with silent | ⟨blanks, text, all, start, rfl⟩
  · exact silent
  · rw [opensInline_start all start] at opens
    contradiction

theorem IsSilent.noSemicolon {text : Bytes} (silent : IsSilent text) :
    findTopLevel? text semicolon = none :=
  silent.skipPast 0 (by decide) (by decide)

theorem IsSilent.notBare {text : Bytes} (silent : IsSilent text) : endsBare text = false := by
  rw [endsBare, silent.noSemicolon]
  rfl

/-- A comment of its own, or a declaration that has its semicolon and ends outside
strings and comments. -/
def isClosed (unit : Bytes) : Bool :=
  Item.isRemark unit ||
    ((findTopLevel? unit semicolon).isSome &&
      (Cursor.ofText unit).finish.context.mode == .normal)

/-- A unit that lacks its end has no semicolon, or leaves a comment open. -/
theorem Unsealed.mode_finish {unit : Bytes} (unended : Unsealed unit)
    (found : (findTopLevel? unit semicolon).isSome = true) :
    (Cursor.ofText unit).finish.context.mode = .comment := by
  cases unended with
  | comment all unclosed =>
    rw [findTopLevel?_comment all unclosed.opens (unclosed.skipComment 0).1 (by decide)
      (by decide)] at found
    contradiction
  | noted all valid spaces unclosed =>
    rename_i blanks statement inline comment
    have start : (Cursor.ofText (blanks ++ (statement ++ (inline ++ comment)))).Passes
        (Cursor.fresh (0 + blanks.length) (statement ++ (inline ++ comment))) :=
      Cursor.passes_blanks all 0 rfl
    have passes : ∀ pos, (Cursor.fresh pos (inline ++ comment)).Passes
        (Cursor.fresh (pos + inline.length) comment).skipComment := by
      intro pos
      have opens : (Cursor.fresh (pos + inline.length) comment).isAtComment = true :=
        unclosed.opens
      exact (Cursor.passes_blanks spaces.allBlank pos rfl).trans (Cursor.passes_skipComment opens)
    rw [start.finish, ← Cursor.finish_skipPast _ semicolon, valid.skipPast_append,
      (passes _).finish, Cursor.finish_of_rest_nil (unclosed.skipComment _).1]
    exact (unclosed.skipComment _).2
  | endless all start nowhere =>
    rw [findTopLevel?_blanks all _ (by decide) (by decide), nowhere] at found
    contradiction

/-- A closed unit ends by itself unless it is a comment. -/
theorem sealed_of_isClosed {unit : Bytes} (shape : Sealed unit ∨ Unsealed unit)
    (closed : isClosed unit = true) (noRemark : Item.isRemark unit = false) : Sealed unit := by
  rw [isClosed, noRemark, Bool.false_or, Bool.and_eq_true, beq_iff_eq] at closed
  refine shape.resolve_right fun unended => ?_
  have inside := unended.mode_finish closed.1
  rw [closed.2] at inside
  contradiction

namespace Block

theorem isUnit_parts {block unit : Bytes} (member : unit ∈ (parts block).units) : IsUnit unit :=
  isUnit_of_mem (Bytes.trimEnd_trimEnd (terminate block)) member

theorem mem_sort_iff {direction : Direction} {parts : Parts} {unit : Bytes} :
    unit ∈ (parts.sort direction).units ↔ unit ∈ parts.units :=
  (Parts.perm_sort direction parts).mem_iff

/-- Wherever sorting puts a closed unit in front of another one, it ends by
itself. -/
theorem sealed_of_mem_front {direction : Direction} {block unit last : Bytes} {front : List Bytes}
    (sorted : ((parts block).sort direction).units = front ++ [last]) (member : unit ∈ front)
    (closed : isClosed unit = true) : Sealed unit := by
  have known : unit ∈ (parts block).units :=
    mem_sort_iff.mp (sorted ▸ List.mem_append_left _ member)
  rcases sealed_or_last known with ended | ⟨units, whole, ended⟩
  · exact ended
  by_cases remark : Item.isRemark unit = true
  · have cut : (parts block).units = units ++ [unit] := whole
    have staysLast := Parts.units_sort_concat cut fun other _ =>
      Item.notAfter_remark direction other remark
    obtain ⟨rfl, -⟩ := List.append_inj' (sorted.symm.trans staysLast) rfl
    exact ended unit (mem_sort_iff.mp member)
  · exact sealed_of_isClosed (isUnit_parts known).shape closed (Bool.eq_false_iff.mpr remark)

end Block
end CssSort
