import CssSort.Proofs.Block.Closed
import CssSort.Proofs.Cursor.Comments

/-! What the parts of a text look like. The blanks at its end stand apart, all of
them. A unit is, behind its blanks, one comment, or a declaration with one semicolon
at top level that ends the unit or is followed by one comment on the same line. Only
the last unit can lack its end, and a declaration that ends with its semicolon has no
comment behind it on the line. -/
namespace CssSort
open Ascii

namespace Cursor

/-- The places of a byte from here on, outside strings, comments and parentheses. -/
def places (cursor : Cursor) (byte : UInt8) : List Nat :=
  match _ : cursor.step? with
  | none => []
  | some (piece, next) =>
    if cursor.context.isTopLevel && piece.first == byte then cursor.pos :: next.places byte
    else next.places byte
termination_by cursor.rest.length
decreasing_by all_goals exact rest_length_of_step? (by assumption)

theorem places_of_step? {cursor next : Cursor} {piece : Piece}
    (step : cursor.step? = some (piece, next)) (byte : UInt8) :
    cursor.places byte = if cursor.context.isTopLevel && piece.first == byte
      then cursor.pos :: next.places byte else next.places byte := by
  rw [places]
  split
  · simp_all
  · rename_i found
    rw [step] at found
    obtain ⟨rfl, rfl⟩ := Prod.mk.inj (Option.some.inj found)
    rfl

theorem places_of_rest_nil {cursor : Cursor} (nothing : cursor.rest = []) (byte : UInt8) :
    cursor.places byte = [] := by
  rw [places]
  split
  · rfl
  · simp_all [step?_eq_none_iff.mpr nothing]

theorem places_of_none {cursor : Cursor} {byte : UInt8}
    (nowhere : (cursor.skipPast byte).1 = none) : cursor.places byte = [] := by
  fun_induction skipPast cursor byte with
  | case1 cursor step => exact places_of_rest_nil (step?_eq_none_iff.mp step) byte
  | case2 => contradiction
  | case3 cursor piece next step other ih =>
    rw [places_of_step? step, if_neg other]
    exact ih nowhere

/-- The places are found one after the other. -/
theorem places_of_hit {cursor stop : Cursor} {byte : UInt8} {place : Nat}
    (hit : cursor.skipPast byte = (some place, stop)) :
    cursor.places byte = place :: stop.places byte := by
  fun_induction skipPast cursor byte with
  | case1 => simp at hit
  | case2 cursor piece next step found =>
    obtain ⟨rfl, rfl⟩ : cursor.pos = place ∧ next = stop := by simpa using hit
    rw [places_of_step? step, if_pos found]
  | case3 cursor piece next step other ih =>
    rw [places_of_step? step, if_neg other]
    exact ih hit

end Cursor

/-- All places of a byte in a text outside strings, comments and parentheses. -/
def topLevelPlaces (text : Bytes) (byte : UInt8) : List Nat :=
  (Cursor.ofText text).places byte

theorem head?_topLevelPlaces (text : Bytes) (byte : UInt8) :
    (topLevelPlaces text byte).head? = findTopLevel? text byte := by
  rw [topLevelPlaces, findTopLevel?]
  cases search : (Cursor.ofText text).skipPast byte with
  | mk place stop =>
    cases place with
    | none => rw [Cursor.places_of_none (by rw [search]), List.head?_nil]
    | some place => rw [Cursor.places_of_hit search, List.head?_cons]

/-- A declaration has one semicolon, whatever comment stands behind it. -/
theorem IsStatement.topLevelPlaces_append {statement note : Bytes} (valid : IsStatement statement)
    (silent : IsSilent note) :
    topLevelPlaces (statement ++ note) semicolon = [statement.length - 1] := by
  have hit : (Cursor.ofText (statement ++ note)).skipPast semicolon = _ :=
    valid.skipPast_append 0 note
  have behind := silent.skipPast (0 + statement.length) (show isBlank semicolon = false by decide)
    (by decide)
  rw [topLevelPlaces, Cursor.places_of_hit hit, Cursor.places_of_none behind, Nat.zero_add]

/-- No comment, with one semicolon at top level and `tail` behind it. -/
structure SpellsDeclaration (text tail : Bytes) : Prop where
  noComment : ¬ [slash, asterisk] <+: text
  single : ∃ front, text = front ++ semicolon :: tail ∧
    topLevelPlaces text semicolon = [front.length]

/-- How a unit that ends by itself is spelled, without the blanks in front. -/
inductive SpellsUnit (text : Bytes) : Prop where
  | comment : SpellsComment text → SpellsUnit text
  | bare : SpellsDeclaration text [] → SpellsUnit text
  | noted {inline comment : Bytes} : SpellsDeclaration text (inline ++ comment) →
      AllInline inline → SpellsComment comment → SpellsUnit text

/-- How a unit is spelled that only the end of the text ends. -/
inductive SpellsUnended (text : Bytes) : Prop where
  | comment : SpellsOpenComment text → SpellsUnended text
  | noted {inline comment : Bytes} : SpellsDeclaration text (inline ++ comment) →
      AllInline inline → SpellsOpenComment comment → SpellsUnended text
  | endless : ¬ [slash, asterisk] <+: text → topLevelPlaces text semicolon = [] →
      SpellsUnended text

theorem IsStart.opens_no_comment {text : Bytes} (start : IsStart text) :
    ¬ [slash, asterisk] <+: text := by
  rintro ⟨rest, ahead⟩
  have opens : (Cursor.ofText text).isAtComment = true :=
    Cursor.isAtComment_iff.mpr ⟨rfl, rest, ahead.symm⟩
  exact Bool.false_ne_true (start.noComment.symm.trans opens)

theorem IsStatement.spells {statement note : Bytes} (valid : IsStatement statement)
    (silent : IsSilent note) : SpellsDeclaration (statement ++ note) note := by
  refine ⟨(valid.isStart_append note).opens_no_comment, ?_⟩
  rw [valid.topLevelPlaces_append silent]
  obtain ⟨front, rfl⟩ := valid.exists_concat
  exact ⟨front, by simp, by simp⟩

/-- A comment is text if it stands at the end of text. -/
theorem isUtf8_comment {front comment : Bytes} (opens : (Cursor.ofText comment).isAtComment = true)
    (valid : (front ++ comment).isUtf8 = true) : comment.isUtf8 = true := by
  obtain ⟨-, rest, ahead⟩ := Cursor.isAtComment_iff.mp opens
  refine (Bytes.isUtf8_of_cut valid ?_).2
  rw [show comment = slash :: asterisk :: rest from ahead]
  rintro byte ⟨⟩
  decide

theorem head_comment {comment : Bytes} (opens : (Cursor.ofText comment).isAtComment = true) :
    ∀ byte ∈ comment.head?, isBlank byte = false := by
  obtain ⟨-, rest, ahead⟩ := Cursor.isAtComment_iff.mp opens
  rw [show comment = slash :: asterisk :: rest from ahead]
  rintro byte ⟨⟩
  decide

theorem Sealed.spells {unit : Bytes} (ended : Sealed unit) (valid : unit.isUtf8 = true) :
    SpellsUnit unit.trimStart := by
  cases ended with
  | comment all closed =>
    rw [Bytes.trimStart_append all (head_comment closed.opens)]
    exact .comment (closed.spells (isUtf8_comment closed.opens valid))
  | bare all statement =>
    rw [Bytes.trimStart_append all statement.noBlank]
    have spelled := statement.spells ⟨_, .refl _, rfl⟩
    rw [List.append_nil] at spelled
    exact .bare spelled
  | noted all statement spaces closed =>
    rw [Bytes.trimStart_append all (statement.isStart_append _).noBlank]
    rw [← List.append_assoc, ← List.append_assoc] at valid
    exact .noted (statement.spells (closed.silent spaces.allBlank)) spaces
      (closed.spells (isUtf8_comment closed.opens valid))

theorem Unsealed.spells {unit : Bytes} (unended : Unsealed unit) (valid : unit.isUtf8 = true) :
    SpellsUnended unit.trimStart := by
  cases unended with
  | comment all unclosed =>
    rw [Bytes.trimStart_append all (head_comment unclosed.opens)]
    exact .comment (unclosed.spells (isUtf8_comment unclosed.opens valid))
  | noted all statement spaces unclosed =>
    rw [Bytes.trimStart_append all (statement.isStart_append _).noBlank]
    rw [← List.append_assoc, ← List.append_assoc] at valid
    exact .noted (statement.spells (unclosed.silent spaces.allBlank)) spaces
      (unclosed.spells (isUtf8_comment unclosed.opens valid))
  | endless all start nowhere =>
    rw [Bytes.trimStart_append all start.noBlank]
    exact .endless start.opens_no_comment (Cursor.places_of_none nowhere)

/-- A unit is cut off from itself and all that is read behind it, and only the last
one can lack its end. -/
theorem unitsOf_from {text : Bytes} {before after : List Bytes} {unit : Bytes}
    (whole : unitsOf text = before ++ unit :: after) :
    unit ≠ [] ∧ unitsOf (unit ++ after.flatten) = unit :: unitsOf after.flatten ∧
      (Sealed unit ∨ after = [] ∧ Unsealed unit) := by
  induction text using unitsOf_induction generalizing before with
  | nil => simp [unitsOf_nil] at whole
  | step first rest filled cut shape ih =>
    rw [cut] at whole
    rcases before with _ | ⟨_, before⟩
    · obtain ⟨rfl, rfl⟩ := List.cons.inj whole
      rw [flatten_unitsOf]
      refine ⟨filled, cut, shape.imp_right ?_⟩
      rintro ⟨rfl, unended⟩
      exact ⟨unitsOf_nil, unended⟩
    · exact ih (List.cons.inj whole).2

theorem SpellsDeclaration.endsBare {unit : Bytes}
    (spelled : SpellsDeclaration unit.trimStart []) : endsBare unit = true := by
  obtain ⟨front, body, single⟩ := spelled.single
  have blanks : AllBlank (unit.takeWhile isBlank) := List.all_eq_true.mp List.all_takeWhile
  have whole : unit = unit.takeWhile isBlank ++ (front ++ [semicolon]) := by
    rw [← body]
    exact List.takeWhile_append_dropWhile.symm
  have found : findTopLevel? (front ++ [semicolon]) semicolon = some front.length := by
    rw [← body, ← head?_topLevelPlaces, single, List.head?_cons]
  rw [whole, CssSort.endsBare, findTopLevel?_blanks blanks _ (by decide) (by decide), found]
  simp [Nat.add_assoc]

/-- A comment on the line of a semicolon would have been taken along by the unit in front
of it, which ends without one. -/
theorem not_inline_behind {unit rest : Bytes} (ended : Sealed unit) (bare : endsBare unit = true)
    (cut : unitsOf (unit ++ rest) = unit :: unitsOf rest) : opensInline rest = false := by
  rw [Bool.eq_false_iff]
  intro opens
  obtain ⟨next, more, rfl, units, opens', -⟩ := unitsOf_opensInline opens 0
  rw [unitsOf_append ended, units, attach, bare, opens', Bool.and_true, if_pos rfl] at cut
  obtain rfl : next = [] := by simpa using (List.cons.inj cut).1
  contradiction

/-- Blanks behind a text do not make it start with a comment: no blank is part of the mark. -/
theorem opensInline_blanks {blanks : Bytes} (all : AllBlank blanks) (text : Bytes)
    (opens : opensInline (text ++ blanks) = true) : opensInline text = true := by
  obtain ⟨inline, rest, spaces, whole⟩ := opensInline_iff.mp opens
  have noSlash : slash ∉ blanks := fun member => absurd (all slash member) (by decide)
  have noAsterisk : asterisk ∉ blanks := fun member => absurd (all asterisk member) (by decide)
  rcases List.append_eq_append_iff.mp whole with ⟨more, -, behind⟩ | ⟨more, front, behind⟩
  · simp [behind] at noSlash
  · rcases more with _ | ⟨first, _ | ⟨second, more⟩⟩
    · have : slash :: asterisk :: rest = blanks := behind
      simp [← this] at noSlash
    · obtain ⟨-, behind⟩ := List.cons.inj behind
      have : asterisk :: rest = blanks := behind
      simp [← this] at noAsterisk
    · simp only [List.cons_append, List.cons.injEq] at behind
      obtain ⟨rfl, rfl, -⟩ := behind
      exact opensInline_iff.mpr ⟨inline, more, spaces, front⟩

namespace Block.Parts

variable {text : Bytes}

/-- No blank at the end of the text is left out. -/
theorem suffix_trailing {suffix : Bytes} (ends : suffix <:+ text) (all : AllBlank suffix) :
    suffix <:+ (ofText text).trailing := by
  obtain ⟨front, rfl⟩ := ends
  have back : ∀ byte ∈ suffix.reverse, isBlank byte = true :=
    fun byte member => all byte (List.mem_reverse.mp member)
  refine ⟨(front.reverse.takeWhile isBlank).reverse, ?_⟩
  rw [ofText, Bytes.blankEnd, List.reverse_append, List.takeWhile_append_of_pos back,
    List.reverse_append, List.reverse_reverse]

theorem exists_not_blank {unit : Bytes} (member : unit ∈ (ofText text).units) :
    ∃ byte ∈ unit, isBlank byte = false := by
  obtain ⟨before, after, whole⟩ := List.append_of_mem member
  obtain ⟨filled, -, -⟩ := unitsOf_from whole
  have solid := (isUnit_of_mem (Bytes.trimEnd_trimEnd text) member).solid
  exact ⟨_, List.getLast_mem filled,
    Bytes.trimEnd_eq_self_iff.mp solid _ (List.getLast_mem_getLast? filled)⟩

theorem spells_unit (valid : text.isUtf8 = true) {before after : List Bytes} {unit : Bytes}
    (whole : (ofText text).units = before ++ unit :: after) :
    SpellsUnit unit.trimStart ∨ after = [] ∧ SpellsUnended unit.trimStart := by
  have member : unit ∈ (ofText text).units := by simp [whole]
  have known : unit.isUtf8 = true :=
    isUtf8_of_mem_unitsOf (Bytes.isUtf8_trimEnd valid).1 unit member
  obtain ⟨-, -, shape⟩ := unitsOf_from whole
  rcases shape with ended | ⟨last, unended⟩
  · exact .inl (ended.spells known)
  · exact .inr ⟨last, unended.spells known⟩

theorem not_inline_behind_unit {before after : List Bytes} {unit : Bytes}
    (whole : (ofText text).units = before ++ unit :: after)
    (spelled : SpellsDeclaration unit.trimStart []) :
    opensInline (after.flatten ++ (ofText text).trailing) = false := by
  have blanks : AllBlank (ofText text).trailing := fun _ => Bytes.isBlank_of_mem_blankEnd
  rw [Bool.eq_false_iff]
  intro opens
  have opens := opensInline_blanks blanks _ opens
  obtain ⟨-, cut, shape⟩ := unitsOf_from whole
  rcases shape with ended | ⟨rfl, -⟩
  · rw [not_inline_behind ended spelled.endsBare cut] at opens
    contradiction
  · contradiction

/-- The parts of a text make it up again, and the last of them are all the blanks at
its end. Each unit holds something. All units but the last are a comment, or a
declaration with one semicolon at top level and nothing behind it but a comment on the
same line, and if there is none, none follows on the line. The last unit is such a
unit or lacks the end of its comment or its semicolon. -/
theorem shape_of_parts (text : Bytes) (valid : text.isUtf8 = true) :
    let parts := ofText text
    parts.units.flatten ++ parts.trailing = text ∧
    AllBlank parts.trailing ∧
    (∀ suffix, suffix <:+ text → AllBlank suffix → suffix <:+ parts.trailing) ∧
    (∀ unit ∈ parts.units, ∃ byte ∈ unit, isBlank byte = false) ∧
    ∀ (before : List Bytes) (unit : Bytes) (after : List Bytes),
      parts.units = before ++ unit :: after →
      (SpellsUnit unit.trimStart ∨ after = [] ∧ SpellsUnended unit.trimStart) ∧
      (SpellsDeclaration unit.trimStart [] → ∀ inline rest, AllInline inline →
        after.flatten ++ parts.trailing ≠ inline ++ slash :: asterisk :: rest) := by
  intro parts
  refine ⟨toText_ofText text, fun _ => Bytes.isBlank_of_mem_blankEnd, fun _ => suffix_trailing,
    fun _ => exists_not_blank, ?_⟩
  intro before unit after whole
  refine ⟨spells_unit valid whole, ?_⟩
  intro spelled inline rest spaces behind
  have opens := opensInline_iff.mpr ⟨inline, rest, spaces, behind⟩
  rw [not_inline_behind_unit whole spelled] at opens
  contradiction

/-- The second declaration ends with its semicolon, and the comment behind it stands on
a line of its own. -/
theorem shape_of_parts_lines :
    let text := Bytes.ofString "é:url(x;y); /*n*/ b:1;\n/*c*/\td\n"
    let parts := ofText text
    text.isUtf8 = true ∧
    parts.units = [Bytes.ofString "é:url(x;y); /*n*/", Bytes.ofString " b:1;",
      Bytes.ofString "\n/*c*/", Bytes.ofString "\td"] ∧
    SpellsUnit (Bytes.ofString "é:url(x;y); /*n*/").trimStart ∧
    SpellsDeclaration (Bytes.ofString " b:1;").trimStart [] ∧
    (∀ rest, Bytes.ofString "\n/*c*/\td\n" ≠ Bytes.ofString " " ++ slash :: asterisk :: rest) ∧
    (∃ byte ∈ Bytes.ofString "\td", isBlank byte = false) ∧
    Bytes.ofString "\n" <:+ parts.trailing := by
  have whole : (ofText (Bytes.ofString "é:url(x;y); /*n*/ b:1;\n/*c*/\td\n")).units =
      [Bytes.ofString "é:url(x;y); /*n*/", Bytes.ofString " b:1;", Bytes.ofString "\n/*c*/",
        Bytes.ofString "\td"] := by decide +kernel
  have bare : SpellsDeclaration (Bytes.ofString " b:1;").trimStart [] :=
    ⟨by decide +kernel, Bytes.ofString "b:1", by decide +kernel, by decide +kernel⟩
  intro text parts
  have valid : text.isUtf8 = true := Bytes.isUtf8_ofString _
  obtain ⟨-, -, trailing, visible, shape⟩ := shape_of_parts text valid
  obtain ⟨first, -⟩ := shape [] _ _ whole
  obtain ⟨-, behind⟩ := shape [_] _ _ whole
  have more : SpellsUnit (Bytes.ofString "é:url(x;y); /*n*/").trimStart :=
    first.resolve_right fun last => List.cons_ne_nil _ _ last.1
  refine ⟨valid, whole, more, bare, ?_, ?_, ?_⟩
  · exact fun rest => behind bare (Bytes.ofString " ") rest (by unfold AllInline; decide +kernel)
  · exact visible _ (by rw [whole]; simp)
  · exact trailing _ (by decide +kernel) (by unfold AllBlank; decide +kernel)

end Block.Parts
end CssSort
