import CssSort.Proofs.Block.Shape

/-! Units that end by themselves are found again when they are put in front of
another text. The one thing that can happen at a seam is that a declaration takes
along a comment that has come to stand behind it on its line. -/
namespace CssSort
open Ascii

theorem unitsOf_nil : unitsOf [] = [] := by
  rw [unitsOf, if_pos rfl]

theorem unitsOf_of_skipUnit {unit rest : Bytes} (filled : unit ≠ [])
    (stop : (Cursor.ofText (unit ++ rest)).skipUnit.rest = rest) :
    unitsOf (unit ++ rest) = unit :: unitsOf rest := by
  obtain ⟨read, reads, -⟩ := Cursor.exists_reads_skipUnit (Cursor.ofText (unit ++ rest))
  have whole : unit ++ rest = read ++ rest := by
    have := reads.rest
    rwa [stop] at this
  obtain rfl := List.append_cancel_right whole
  have place : (Cursor.ofText (unit ++ rest)).skipUnit.pos = unit.length :=
    reads.pos.trans (Nat.zero_add _)
  rw [unitsOf, if_neg (List.append_ne_nil_of_left_ne_nil filled _), stop, place, List.take_left]

theorem unitsOf_shape {text : Bytes} (filled : text ≠ []) :
    ∃ unit rest, text = unit ++ rest ∧ unitsOf text = unit :: unitsOf rest ∧
      (Sealed unit ∨ rest = [] ∧ Unsealed unit) := by
  obtain ⟨unit, rest, rfl, stop, shape⟩ := skipUnit_shape text
  refine ⟨unit, rest, rfl, unitsOf_of_skipUnit ?_ stop, shape⟩
  rintro rfl
  have shorter : (Cursor.ofText ([] ++ rest)).skipUnit.rest.length < rest.length :=
    Cursor.rest_length_skipUnit_lt filled
  rw [stop] at shorter
  exact Nat.lt_irrefl _ shorter

/-- The first semicolon at top level is the last byte. -/
def endsBare (unit : Bytes) : Bool :=
  (findTopLevel? unit semicolon).any (· + 1 == unit.length)

/-- Puts a unit in front. It takes the next one along if that is a comment on the
line of its semicolon. -/
def attach (unit : Bytes) : List Bytes → List Bytes
  | [] => [unit]
  | next :: later =>
    if endsBare unit && opensInline next then (unit ++ next) :: later else unit :: next :: later

theorem findTopLevel?_blanks {blanks : Bytes} (all : AllBlank blanks) (text : Bytes) {byte : UInt8}
    (noBlank : isBlank byte = false) (noSlash : byte ≠ slash) :
    findTopLevel? (blanks ++ text) byte = (findTopLevel? text byte).map (blanks.length + ·) := by
  have passes : (Cursor.ofText (blanks ++ text)).Passes (Cursor.fresh (0 + blanks.length) text) :=
    Cursor.passes_blanks all 0 rfl
  rw [findTopLevel?, passes.skipPast noBlank noSlash, Cursor.fresh_eq_embed, Cursor.skipPast_shift,
    Nat.zero_add]
  rfl

theorem findTopLevel?_statement {blanks statement : Bytes} (all : AllBlank blanks)
    (valid : IsStatement statement) (behind : Bytes) :
    findTopLevel? (blanks ++ (statement ++ behind)) semicolon =
      some (blanks.length + (statement.length - 1)) := by
  have search : findTopLevel? (statement ++ behind) semicolon = some (0 + (statement.length - 1)) :=
    congrArg Prod.fst (valid.skipPast_append 0 behind)
  rw [findTopLevel?_blanks all _ (by decide) (by decide), search, Option.map_some, Nat.zero_add]

/-- A comment at the start of a text hides all of it up to where it is closed. -/
theorem findTopLevel?_comment {blanks comment : Bytes} (all : AllBlank blanks)
    (opens : (Cursor.ofText comment).isAtComment = true)
    (finished : (Cursor.ofText comment).skipComment.rest = []) {byte : UInt8}
    (noBlank : isBlank byte = false) (noSlash : byte ≠ slash) :
    findTopLevel? (blanks ++ comment) byte = none := by
  have nowhere : findTopLevel? comment byte = none := by
    rw [findTopLevel?, (Cursor.passes_skipComment opens).skipPast noBlank noSlash,
      Cursor.skipPast_of_rest_nil finished]
  rw [findTopLevel?_blanks all _ noBlank noSlash, nowhere, Option.map_none]

theorem endsBare_comment {blanks comment : Bytes} (all : AllBlank blanks)
    (closed : IsClosedComment comment) : endsBare (blanks ++ comment) = false := by
  have finished : (Cursor.ofText comment).skipComment.rest = [] := by
    rw [closed.stop]
    rfl
  rw [endsBare, findTopLevel?_comment all closed.opens finished (by decide) (by decide)]
  rfl

theorem endsBare_statement {blanks statement : Bytes} (all : AllBlank blanks)
    (valid : IsStatement statement) (behind : Bytes) :
    endsBare (blanks ++ (statement ++ behind)) = behind.isEmpty := by
  have := List.length_pos_iff.mpr valid.ne_nil
  rw [endsBare, findTopLevel?_statement all valid, Option.any_some, Bool.eq_iff_iff, beq_iff_eq,
    List.isEmpty_iff_length_eq_zero, List.length_append, List.length_append]
  omega

theorem opensInline_of_append {text behind : Bytes} (opens : opensInline text = true) :
    opensInline (text ++ behind) = true := by
  obtain ⟨inline, rest, spaces, rfl⟩ := opensInline_iff.mp opens
  exact opensInline_iff.mpr ⟨inline, rest ++ behind, spaces, by simp⟩

/-- The first unit starts with a comment on the line if the text does. -/
theorem unitsOf_opensInline {text : Bytes} (opens : opensInline text = true) (pos : Nat) :
    ∃ unit rest, text = unit ++ rest ∧ unitsOf text = unit :: unitsOf rest ∧
      opensInline unit = true ∧
      (Cursor.fresh pos text).skipInlineBlanks.skipComment.rest = rest := by
  obtain ⟨inline, more, spaces, rfl⟩ := opensInline_iff.mp opens
  have start : (Cursor.fresh pos (inline ++ slash :: asterisk :: more)).skipInlineBlanks =
      Cursor.fresh (pos + inline.length) (slash :: asterisk :: more) :=
    Cursor.skipWhile_fresh spaces (by rintro byte ⟨⟩; decide) pos
  have reading : (Cursor.ofText (inline ++ slash :: asterisk :: more)).skipUnit = _ :=
    Cursor.skipUnit_comment spaces.allBlank (Cursor.isAtComment_iff.mpr ⟨rfl, more, rfl⟩) 0
  obtain ⟨read, inside⟩ : ∃ read, more =
      read ++ (Cursor.ofText (slash :: asterisk :: more)).skipComment.rest := by
    have entered : (Cursor.ofText (slash :: asterisk :: more)).skipComment = _ :=
      Cursor.skipComment_open rfl rfl
    rw [entered]
    obtain ⟨read, reads⟩ := Cursor.exists_reads_leaveComment ⟨more, 2, ⟨.comment, 0⟩⟩
    exact ⟨read, reads.rest⟩
  generalize later : (Cursor.ofText (slash :: asterisk :: more)).skipComment.rest = rest at inside
  subst inside
  have stop : ∀ place, (Cursor.fresh place (slash :: asterisk :: (read ++ rest))).skipComment.rest =
      rest := by
    intro place
    rw [Cursor.fresh_eq_embed, Cursor.skipComment_shift, Cursor.rest_embed, later, List.append_nil]
  have whole : inline ++ slash :: asterisk :: (read ++ rest) =
      (inline ++ slash :: asterisk :: read) ++ rest := by simp
  refine ⟨inline ++ slash :: asterisk :: read, rest, whole, ?_, ?_, ?_⟩
  · rw [whole]
    apply unitsOf_of_skipUnit (by simp)
    rw [← whole, reading, stop]
  · exact opensInline_iff.mpr ⟨inline, read, spaces, rfl⟩
  · rw [start, stop]

theorem attach_of_not_bare {unit : Bytes} (noBare : endsBare unit = false) (units : List Bytes) :
    attach unit units = unit :: units := by
  cases units with
  | nil => rfl
  | cons next later => simp [attach, noBare]

theorem unitsOf_comment_append {blanks comment : Bytes} (all : AllBlank blanks)
    (closed : IsClosedComment comment) (behind : Bytes) :
    unitsOf (blanks ++ comment ++ behind) = (blanks ++ comment) :: unitsOf behind := by
  have reading : (Cursor.ofText (blanks ++ (comment ++ behind))).skipUnit = _ :=
    Cursor.skipUnit_comment all (closed.isAtComment_append 0 behind) 0
  apply unitsOf_of_skipUnit (by obtain ⟨body, rfl⟩ := closed.exists_marks; simp)
  rw [List.append_assoc, reading, closed.skipComment_append]
  rfl

theorem unitsOf_noted_append {blanks statement inline comment : Bytes} (all : AllBlank blanks)
    (valid : IsStatement statement) (spaces : AllInline inline) (closed : IsClosedComment comment)
    (behind : Bytes) :
    unitsOf (blanks ++ (statement ++ (inline ++ comment)) ++ behind) =
      (blanks ++ (statement ++ (inline ++ comment))) :: unitsOf behind := by
  have reading : (Cursor.ofText (blanks ++ (statement ++ (inline ++ (comment ++ behind))))).skipUnit
      = _ := Cursor.skipUnit_statement all valid 0 (inline ++ (comment ++ behind))
  obtain ⟨body, marks⟩ := closed.exists_marks
  have opens : opensInline (inline ++ (comment ++ behind)) = true :=
    opensInline_iff.mpr ⟨inline, body ++ [asterisk, slash] ++ behind, spaces, by simp [marks]⟩
  have boundary : ∀ byte ∈ (comment ++ behind).head?, isInlineBlank byte = false := by
    rw [marks]
    rintro byte ⟨⟩
    decide
  have start : (Cursor.fresh (0 + (blanks ++ statement).length)
      (inline ++ (comment ++ behind))).skipInlineBlanks = _ :=
    Cursor.skipWhile_fresh spaces boundary _
  apply unitsOf_of_skipUnit (by simp [valid.ne_nil])
  simp only [List.append_assoc]
  rw [reading, if_pos opens, start, closed.skipComment_append]
  rfl

theorem unitsOf_bare_append {blanks statement : Bytes} (all : AllBlank blanks)
    (valid : IsStatement statement) (behind : Bytes) :
    unitsOf (blanks ++ statement ++ behind) = attach (blanks ++ statement) (unitsOf behind) := by
  have reading : (Cursor.ofText (blanks ++ (statement ++ behind))).skipUnit = _ :=
    Cursor.skipUnit_statement all valid 0 behind
  have bare : endsBare (blanks ++ statement) = true := by
    have := endsBare_statement all valid []
    rwa [List.append_nil] at this
  have filled : blanks ++ statement ≠ [] := List.append_ne_nil_of_right_ne_nil _ valid.ne_nil
  by_cases noted : opensInline behind = true
  · obtain ⟨next, rest, rfl, units, opens, stop⟩ :=
      unitsOf_opensInline noted (0 + (blanks ++ statement).length)
    rw [units, attach, bare, opens, Bool.and_true, if_pos rfl, ← List.append_assoc]
    apply unitsOf_of_skipUnit (List.append_ne_nil_of_left_ne_nil filled _)
    rw [List.append_assoc, List.append_assoc, reading, if_pos noted, stop]
  · have first : unitsOf (blanks ++ statement ++ behind) =
        (blanks ++ statement) :: unitsOf behind := by
      apply unitsOf_of_skipUnit filled
      rw [List.append_assoc, reading, if_neg noted]
      rfl
    rw [first]
    cases units : unitsOf behind with
    | nil => rfl
    | cons next later =>
      have whole : behind = next ++ later.flatten := by
        rw [← flatten_unitsOf behind, units, List.flatten_cons]
      have apart : opensInline next = false := by
        rw [Bool.eq_false_iff]
        intro opens
        apply noted
        rw [whole]
        exact opensInline_of_append opens
      simp [attach, apart]

/-- The seam between a unit that ends by itself and any text. -/
theorem unitsOf_append {unit : Bytes} (ended : Sealed unit) (behind : Bytes) :
    unitsOf (unit ++ behind) = attach unit (unitsOf behind) := by
  cases ended with
  | comment all closed =>
    rw [unitsOf_comment_append all closed, attach_of_not_bare (endsBare_comment all closed)]
  | bare all valid => exact unitsOf_bare_append all valid behind
  | noted all valid spaces closed =>
    rw [unitsOf_noted_append all valid spaces closed,
      attach_of_not_bare (by simp [endsBare_statement all valid, closed.ne_nil])]

/-- Units that end by themselves, read again in front of any text. -/
theorem unitsOf_flatten_append {units : List Bytes} (ended : ∀ unit ∈ units, Sealed unit)
    (behind : Bytes) :
    unitsOf (units.flatten ++ behind) = units.foldr attach (unitsOf behind) := by
  induction units with
  | nil => rfl
  | cons unit units ih =>
    have later := ih fun unit member => ended unit (List.mem_cons_of_mem _ member)
    rw [List.flatten_cons, List.append_assoc, unitsOf_append (ended unit List.mem_cons_self), later,
      List.foldr_cons]

end CssSort
