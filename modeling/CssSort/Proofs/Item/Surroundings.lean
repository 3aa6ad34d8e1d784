import CssSort.Item.Order
import CssSort.Proofs.Cursor.Comments
import CssSort.Proofs.Item.Note

/-! Where a declaration stands in the order is told by its own text. Blanks in front of
it and a comment behind it on the line change none of its keys, whatever the comment
holds and whether or not it is closed. -/
namespace CssSort
open Ascii

/-- A mark that closes a comment stands at the end or nowhere. -/
def ClosesLast (body : Bytes) : Prop :=
  ∀ front back, body = front ++ asterisk :: slash :: back → back = []

theorem SpellsComment.closesLast {comment : Bytes} (spelled : SpellsComment comment) :
    ∃ body, comment = slash :: asterisk :: body ∧ ClosesLast body := by
  obtain ⟨inner, rfl, free⟩ := spelled
  refine ⟨inner ++ [asterisk, slash], rfl, fun front back whole => ?_⟩
  rcases List.eq_nil_or_concat back with rfl | ⟨more, last, rfl⟩
  · rfl
  · have shorter : inner ++ [asterisk] = front ++ asterisk :: slash :: more := by
      have same : (inner ++ [asterisk]) ++ [slash] =
          (front ++ asterisk :: slash :: more) ++ [last] := by simpa using whole
      exact (List.append_inj' same rfl).1
    exact absurd ⟨front, more, by simp [shorter]⟩ free

theorem SpellsOpenComment.closesLast {comment : Bytes} (spelled : SpellsOpenComment comment) :
    ∃ body, comment = slash :: asterisk :: body ∧ ClosesLast body := by
  obtain ⟨body, rfl, free⟩ := spelled
  refine ⟨body, rfl, fun front back whole => ?_⟩
  exact absurd ⟨front, back, by simp [whole]⟩ free

namespace ClosesLast

variable {body : Bytes} (last : ClosesLast body)
include last

theorem trimEnd : ClosesLast body.trimEnd := by
  intro front back whole
  have longer : body = front ++ asterisk :: slash :: (back ++ body.blankEnd) := by
    have cut := Bytes.trimEnd_append_blankEnd body
    rw [whole] at cut
    simpa using cut.symm
  exact (List.append_eq_nil_iff.mp (last _ _ longer)).1

/-- A cursor leaves the comment at a closing mark, so it reads all of it. -/
theorem silent {blanks : Bytes} (all : AllBlank blanks) :
    IsSilent (blanks ++ slash :: asterisk :: body) := by
  have opens : (Cursor.fresh (0 + blanks.length) (slash :: asterisk :: body)).isAtComment = true :=
    Cursor.isAtComment_iff.mpr ⟨rfl, body, rfl⟩
  have passes : (Cursor.ofText (blanks ++ slash :: asterisk :: body)).Passes
      (Cursor.fresh (0 + blanks.length) (slash :: asterisk :: body)) := Cursor.passes_blanks all 0 rfl
  refine ⟨_, passes.trans (Cursor.passes_skipComment opens), ?_⟩
  rcases comment_shape opens with ⟨comment, rest, closed, whole, stop⟩ | ⟨-, finished⟩
  · obtain ⟨inner, rfl⟩ := closed.exists_marks
    have mark : body = inner ++ asterisk :: slash :: rest := by simpa using whole
    rw [stop]
    exact last _ _ mark
  · exact finished

end ClosesLast

theorem Bytes.trim_blanks {blanks : Bytes} (all : AllBlank blanks) (text : Bytes) :
    Bytes.trim (blanks ++ text) = text.trim := by
  rw [trim, trim, trimStart, trimStart, List.dropWhile_append_of_pos all]

namespace Item

theorem classify_blanks {blanks : Bytes} (all : AllBlank blanks) (unit : Bytes) :
    classify (blanks ++ unit) = classify unit := by
  rw [classify, classify, Bytes.trim_blanks all]

/-- A declaration has the same keys with blanks in front of it and a comment behind it,
so it compares with any other item as it does alone. -/
theorem classify_surrounded {blanks unit inline comment : Bytes} (all : AllBlank blanks)
    (bare : endsBare unit = true) (spaces : AllInline inline)
    (spelled : SpellsComment comment ∨ SpellsOpenComment comment) :
    classify (blanks ++ (unit ++ (inline ++ comment))) = classify unit ∧
    ∀ direction other,
      compare direction (ofText (blanks ++ (unit ++ (inline ++ comment)))) other =
        compare direction (ofText unit) other ∧
      compare direction other (ofText (blanks ++ (unit ++ (inline ++ comment)))) =
        compare direction other (ofText unit) := by
  obtain ⟨body, rfl, last⟩ : ∃ body : Bytes,
      comment = slash :: asterisk :: body ∧ ClosesLast body :=
    spelled.elim SpellsComment.closesLast SpellsOpenComment.closesLast
  have solid : Bytes.trimEnd (inline ++ [slash, asterisk]) = inline ++ [slash, asterisk] :=
    Bytes.trimEnd_behind (by simp) (by decide) inline
  have note : Bytes.trimEnd (inline ++ slash :: asterisk :: body) =
      inline ++ slash :: asterisk :: body.trimEnd := by
    have cut := Bytes.trimEnd_append solid body
    simpa using cut
  have silent : IsSilent (Bytes.trimEnd (inline ++ slash :: asterisk :: body)) := by
    rw [note]
    exact last.trimEnd.silent spaces.allBlank
  have same := (classify_blanks all _).trans (classify_endsBare bare silent)
  refine ⟨same, fun direction other => ⟨?_, ?_⟩⟩
  · exact congrArg (Kind.compare direction · other.kind) same
  · exact congrArg (Kind.compare direction other.kind) same

/-- A comment that is closed and one that is not, with all that could mislead: a colon, a
semicolon, a quote and the ending of a hack. -/
theorem classify_surrounded_misleading :
    let unit := Bytes.ofString "/*x*/a b;"
    let closed := Bytes.ofString "/*:';\\9*/"
    let unclosed := Bytes.ofString "/*/c:d;  "
    endsBare unit = true ∧ SpellsComment closed ∧ SpellsOpenComment unclosed ∧
    classify (Bytes.ofString "\n " ++ (unit ++ (Bytes.ofString "\t" ++ closed))) = classify unit ∧
    classify ([] ++ (unit ++ ([] ++ unclosed))) = classify unit ∧
    compare .descending (ofText ([] ++ (unit ++ ([] ++ unclosed)))) (ofText (Bytes.ofString "b:c;")) =
      .gt := by
  intro unit closed unclosed
  have bare : endsBare unit = true := by decide +kernel
  have spelled : SpellsComment closed := ⟨Bytes.ofString ":';\\9", by decide +kernel, by decide +kernel⟩
  have spelled' : SpellsOpenComment unclosed :=
    ⟨Bytes.ofString "/c:d;  ", by decide +kernel, by decide +kernel⟩
  have blank : AllBlank (Bytes.ofString "\n ") := by
    unfold AllBlank
    decide +kernel
  have tab : AllInline (Bytes.ofString "\t") := by
    unfold AllInline
    decide +kernel
  have nothing : AllInline [] := by simp [AllInline]
  obtain ⟨same, -⟩ := classify_surrounded blank bare tab (.inl spelled)
  obtain ⟨same', order⟩ := classify_surrounded nothing.allBlank bare nothing (.inr spelled')
  refine ⟨bare, spelled, spelled', same, same', ?_⟩
  exact (order .descending _).1.trans (by decide +kernel)

end Item
end CssSort
