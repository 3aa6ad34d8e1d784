import CssSort.Item.Basic
import CssSort.Proofs.Block.Rereading
import CssSort.Proofs.Bytes

/-! A comment behind a declaration does not change what the declaration is. Name
and value stand in front of the semicolon, and every search that finds them has
ended before it reaches the comment. -/
namespace CssSort
open Ascii

namespace Cursor

/-- Of two bytes one is found first. -/
theorem skipPast_or {cursor stop : Cursor} {byte other : UInt8} {place : Nat}
    (hit : cursor.skipPast byte = (some place, stop)) (apart : byte ≠ other) :
    (∃ early middle, cursor.skipPast other = (some early, middle) ∧
      middle.skipPast byte = (some place, stop)) ∨
    cursor.skipPast other = stop.skipPast other := by
  fun_induction skipPast cursor byte with
  | case1 cursor step => simp at hit
  | case2 cursor piece next step found =>
    obtain ⟨-, first⟩ : cursor.context.isTopLevel = true ∧ piece.first = byte := by
      simpa using found
    obtain ⟨-, rfl⟩ : cursor.pos = place ∧ next = stop := by simpa using hit
    refine .inr ?_
    rw [skipPast_of_step? step, if_neg]
    simp [first, apart]
  | case3 cursor piece next step _ ih =>
    rw [skipPast_of_step? step]
    split
    · exact .inl ⟨_, next, rfl, hit⟩
    · exact ih hit

end Cursor

theorem findTopLevel?_hit {text : Bytes} {byte : UInt8} {place : Nat} (plain : IsPlain byte)
    (found : findTopLevel? text byte = some place) :
    ∃ read rest, text = read ++ byte :: rest ∧ read.length = place ∧
      (Cursor.ofText text).skipPast byte = (some place, Cursor.fresh (place + 1) rest) := by
  obtain ⟨stop, hit⟩ : ∃ stop, (Cursor.ofText text).skipPast byte = (some place, stop) :=
    ⟨_, Prod.ext found rfl⟩
  obtain ⟨read, reads, context, here⟩ := Cursor.skipPast_hit plain hit
  have size : read.length = place := by simp [here, Cursor.ofText]
  refine ⟨read, stop.rest, ?_, size, ?_⟩
  · have whole : text = (read ++ [byte]) ++ stop.rest := reads.rest
    simpa using whole
  · have pos : stop.pos = place + 1 := by simp [reads.pos, size, Cursor.ofText]
    rw [hit, Cursor.fresh_of_context context, pos]
    rfl

/-- Nothing but blanks and comments. -/
def IsSilent (text : Bytes) : Prop :=
  ∃ later, (Cursor.ofText text).Passes later ∧ later.rest = []

theorem IsSilent.skipPast {text : Bytes} (silent : IsSilent text) (pos : Nat) {byte : UInt8}
    (noBlank : isBlank byte = false) (noSlash : byte ≠ slash) :
    ((Cursor.fresh pos text).skipPast byte).1 = none := by
  obtain ⟨later, passes, finished⟩ := silent
  rw [Cursor.fresh_eq_embed, Cursor.skipPast_shift, passes.skipPast noBlank noSlash,
    Cursor.skipPast_of_rest_nil finished]
  rfl

/-- A comment on the line of a declaration. It need not be closed, but nothing
follows it. -/
structure IsNote (text : Bytes) : Prop where
  opens : opensInline text = true
  solid : text.trimEnd = text
  silent : IsSilent text

section EndsBare

variable {text note : Bytes} (bare : endsBare text = true)
include bare

/-- The semicolon at the end is found in front of any text. -/
theorem skipPast_endsBare (pos : Nat) (behind : Bytes) :
    (Cursor.fresh pos (text ++ behind)).skipPast semicolon =
      (some (pos + (text.length - 1)), Cursor.fresh (pos + text.length) behind) := by
  obtain ⟨place, found, last⟩ : ∃ place, findTopLevel? text semicolon = some place ∧
      place + 1 = text.length := by simpa [endsBare, Option.any_eq_true] using bare
  obtain ⟨read, rest, rfl, rfl, hit⟩ := findTopLevel?_hit isPlain_semicolon found
  obtain rfl : rest = [] := by simpa using last
  rw [← Cursor.embed_ofText, Cursor.skipPast_embed isPlain_semicolon hit]
  simp [Cursor.embed, Cursor.fresh]

theorem exists_concat_endsBare : ∃ read, text = read ++ [semicolon] := by
  obtain ⟨read, reads, -, -⟩ := Cursor.skipPast_hit isPlain_semicolon (skipPast_endsBare bare 0 [])
  exact ⟨read, by simpa [Cursor.fresh] using reads.rest⟩

theorem ne_nil_endsBare : text ≠ [] := by
  obtain ⟨read, rfl⟩ := exists_concat_endsBare bare
  simp

theorem trimEnd_endsBare : text.trimEnd = text := by
  obtain ⟨read, rfl⟩ := exists_concat_endsBare bare
  exact Bytes.trimEnd_concat read (by decide)

theorem findTopLevel?_note (silent : IsSilent note) :
    findTopLevel? (text ++ note) colon = findTopLevel? text colon := by
  cases found : findTopLevel? text colon with
  | some place => exact findTopLevel?_append found note
  | none =>
    have hit : (Cursor.ofText (text ++ note)).skipPast semicolon = _ :=
      skipPast_endsBare bare 0 note
    rcases Cursor.skipPast_or hit (show semicolon ≠ colon by decide) with
      ⟨early, middle, search, later⟩ | nowhere
    · have enough : note.length ≤ middle.rest.length := by
        obtain ⟨read, reads, -⟩ := Cursor.skipPast_hit isPlain_semicolon later
        have := reads.length
        simp only [Cursor.fresh] at this
        omega
      have outer : ((Cursor.ofText text).embed 0 note).skipPast colon = _ := search
      obtain ⟨place, stop, own⟩ := Cursor.skipPast_of_embed outer enough
      rw [findTopLevel?, own] at found
      contradiction
    · rw [findTopLevel?, nowhere, silent.skipPast _ (by decide) (by decide)]

/-- The value ends at the last byte. -/
theorem value_endsBare {place : Nat} (found : findTopLevel? text colon = some place) :
    ∃ name value, text = name ++ colon :: value ∧ name.length = place ∧
      ∃ stop, findTopLevel? value semicolon = some stop := by
  have hit := skipPast_endsBare bare 0 []
  rw [List.append_nil] at hit
  obtain ⟨name, value, whole, size, search⟩ := findTopLevel?_hit isPlain_colon found
  refine ⟨name, value, whole, size, ?_⟩
  rcases Cursor.skipPast_or hit (show semicolon ≠ colon by decide) with
    ⟨early, middle, search', later⟩ | nowhere
  · obtain ⟨-, rfl⟩ := Prod.mk.inj (search'.symm.trans search)
    rw [Cursor.fresh_eq_embed, Cursor.skipPast_shift] at later
    obtain ⟨stop, hit, -⟩ := Option.map_eq_some_iff.mp (congrArg Prod.fst later)
    exact ⟨stop, hit⟩
  · have first : (Cursor.fresh 0 text).skipPast colon = _ := search
    rw [first, Cursor.skipPast_of_rest_nil rfl] at nowhere
    simp at nowhere

end EndsBare

theorem endsBare_blanks {blanks : Bytes} (all : AllBlank blanks) (text : Bytes) :
    endsBare (blanks ++ text) = endsBare text := by
  rw [endsBare, endsBare, findTopLevel?_blanks all text (by decide) (by decide), List.length_append]
  cases findTopLevel? text semicolon with
  | none => rfl
  | some place =>
    rw [Option.map_some, Option.any_some, Option.any_some, Nat.add_assoc, Bool.eq_iff_iff]
    simp

theorem IsStatement.endsBare {statement : Bytes} (valid : IsStatement statement) {blanks : Bytes}
    (all : AllBlank blanks) : endsBare (blanks ++ statement) = true := by
  have bare := endsBare_statement all valid []
  rwa [List.append_nil] at bare

theorem IsStatement.solid {statement : Bytes} (valid : IsStatement statement) :
    statement.trimEnd = statement := by
  obtain ⟨read, rfl⟩ := valid.exists_concat
  exact Bytes.trimEnd_concat read (by decide)

theorem startsWithMarker_append {text : Bytes} (filled : text ≠ []) (behind : Bytes) :
    startsWithMarker (text ++ behind) = startsWithMarker text := by
  cases text with
  | nil => contradiction
  | cons first rest => rfl

theorem Assignment.ofRaw?_note {text note : Bytes} (bare : endsBare text = true)
    (silent : IsSilent note) : ofRaw? (text ++ note) = ofRaw? text := by
  rw [ofRaw?, ofRaw?, findTopLevel?_note bare silent, startsWithMarker_append (ne_nil_endsBare bare)]
  cases found : findTopLevel? text colon with
  | none => rfl
  | some place =>
    obtain ⟨name, value, rfl, rfl, stop, ended⟩ := value_endsBare bare found
    have inside : stop ≤ value.length := (findTopLevel?_lt ended).le
    have before : (name ++ colon :: (value ++ note)).take name.length = name := List.take_left
    have after : ∀ more, (name ++ colon :: more).drop (name.length + 1) = more := by
      intro more
      rw [List.drop_length_add_append]
      rfl
    simp only [Option.map_some, List.append_assoc, List.cons_append, before, after,
      List.take_left, findTopLevel?_append ended, ended, Option.getD_some,
      List.take_append_of_le_length inside]

theorem vendorPrefix_ne_nil_iff {first : UInt8} {rest : Bytes} :
    vendorPrefix (first :: rest) ≠ [] ↔
      first = dash ∧ rest.takeWhile isWord ≠ [] ∧ (rest.dropWhile isWord).head? = some dash := by
  rw [vendorPrefix]
  cases rest.dropWhile isWord with
  | nil => simp
  | cons next behind =>
    simp only [List.head?_cons, Option.some.injEq]
    split <;> simp_all

/-- A byte that a prefix cannot hold keeps what stands behind it out of the prefix. -/
theorem vendorPrefix_append (name : Bytes) {behind : Bytes}
    (stop : ∀ byte ∈ behind.head?, isWord byte = false ∧ byte ≠ dash) :
    vendorPrefix (name ++ behind) ≠ [] ↔ vendorPrefix name ≠ [] := by
  have noDash : behind.head? ≠ some dash := fun next => (stop dash next).2 rfl
  cases name with
  | nil =>
    cases behind with
    | nil => rfl
    | cons first rest =>
      have : first ≠ dash := (stop first rfl).2
      rw [List.nil_append, vendorPrefix_ne_nil_iff]
      simp [this, vendorPrefix]
  | cons first rest =>
    have wordless : behind.takeWhile isWord = [] := by
      cases behind with
      | nil => rfl
      | cons next more => exact List.takeWhile_cons_of_neg (by simp [(stop next rfl).1])
    have later : behind.dropWhile isWord = behind := by
      cases behind with
      | nil => rfl
      | cons next more => exact List.dropWhile_cons_of_neg (by simp [(stop next rfl).1])
    have word : (rest ++ behind).takeWhile isWord = rest.takeWhile isWord := by
      rw [List.takeWhile_append, wordless]
      split
      · rename_i all
        rw [List.append_nil, (List.takeWhile_prefix isWord).eq_of_length all]
      · rfl
    have next : ((rest ++ behind).dropWhile isWord).head? = some dash ↔
        (rest.dropWhile isWord).head? = some dash := by
      rw [List.dropWhile_append]
      split
      · rename_i nothing
        rw [later, List.isEmpty_iff.mp nothing]
        simp [noDash]
      · rename_i more
        rw [List.head?_append_of_ne_nil _ (by simpa using more)]
    rw [List.cons_append, vendorPrefix_ne_nil_iff, vendorPrefix_ne_nil_iff, word, next]

/-- The word of a vendor prefix cannot run past the semicolon. -/
theorem vendorPrefix_endsBare {text : Bytes} (bare : endsBare text = true) (behind : Bytes) :
    vendorPrefix (text ++ behind) ≠ [] ↔ vendorPrefix text ≠ [] := by
  obtain ⟨read, rfl⟩ := exists_concat_endsBare bare
  have stop : ∀ more : Bytes, ∀ byte ∈ (semicolon :: more).head?,
      isWord byte = false ∧ byte ≠ dash := by
    rintro more byte ⟨⟩
    decide
  rw [List.append_assoc, List.singleton_append, vendorPrefix_append read (stop behind),
    vendorPrefix_append read (stop [])]

theorem Declaration.ofRaw_note {text note : Bytes} (bare : endsBare text = true)
    (silent : IsSilent note) : ofRaw (text ++ note) = ofRaw text := by
  simp only [ofRaw, Assignment.ofRaw?_note bare silent, startsWithMarker_append (ne_nil_endsBare bare),
    vendorPrefix_endsBare bare note]

theorem isComment_of_noComment {text : Bytes}
    (noComment : (Cursor.ofText text).isAtComment = false) : isComment text = false := by
  cases text with
  | nil => rfl
  | cons first rest =>
    have : opensComment first rest = false := noComment
    simp [isComment, this]

/-- What stands behind the first closing mark includes all that stands behind any. -/
theorem behindComment?_append (front rest : Bytes) :
    ∃ more, behindComment? (front ++ asterisk :: slash :: rest) = some (more ++ rest) := by
  induction front with
  | nil => exact ⟨[], rfl⟩
  | cons first front ih =>
    rw [List.cons_append, behindComment?]
    split
    · cases front with
      | nil => exact ⟨[slash], rfl⟩
      | cons second front => exact ⟨front ++ [asterisk, slash], by simp⟩
    · exact ih

/-- A comment in front of a declaration is closed before its semicolon. -/
theorem isComment_endsBare {text : Bytes} (bare : endsBare text = true) (note : Bytes) :
    isComment (text ++ note) = false := by
  by_cases opens : (Cursor.fresh 0 text).isAtComment = true
  · have hit := skipPast_endsBare bare 0 []
    rw [List.append_nil, (Cursor.passes_skipComment opens).skipPast (by decide) (by decide)] at hit
    rcases comment_shape opens with ⟨comment, rest, closed, rfl, stop⟩ | ⟨-, finished⟩
    · obtain ⟨body, rfl⟩ := closed.exists_marks
      obtain ⟨more, found⟩ := behindComment?_append body (rest ++ note)
      have unended : rest ≠ [] := by
        rintro rfl
        rw [stop, Cursor.skipPast_of_rest_nil rfl] at hit
        simp at hit
      simp [isComment, found, unended]
    · rw [Cursor.skipPast_of_rest_nil finished] at hit
      simp at hit
  · obtain ⟨read, rfl⟩ := exists_concat_endsBare bare
    apply isComment_of_noComment
    rcases read with _ | ⟨first, _ | ⟨second, read⟩⟩
    · rfl
    · simp [Cursor.ofText, Cursor.isAtComment, opensComment, semicolon, asterisk]
    · exact Bool.eq_false_iff.mpr opens

theorem Bytes.trimStart_append {blanks text : Bytes} (all : AllBlank blanks)
    (noBlank : ∀ byte ∈ text.head?, isBlank byte = false) :
    Bytes.trimStart (blanks ++ text) = text := by
  rw [trimStart, List.dropWhile_append_of_pos all]
  cases text with
  | nil => rfl
  | cons first rest => exact List.dropWhile_cons_of_neg (by simp [noBlank first rfl])

theorem Bytes.trim_append {blanks text : Bytes} (all : AllBlank blanks)
    (noBlank : ∀ byte ∈ text.head?, isBlank byte = false) (solid : text.trimEnd = text) :
    Bytes.trim (blanks ++ text) = text := by
  rw [trim, trimStart_append all noBlank, solid]

namespace Item

theorem classify_start {blanks text : Bytes} (all : AllBlank blanks) (start : IsStart text)
    (solid : text.trimEnd = text) :
    classify (blanks ++ text) = .declaration (Declaration.ofRaw text) := by
  rw [classify, Bytes.trim_append all start.noBlank solid, isComment_of_noComment start.noComment]
  rfl

/-- The keys of a declaration do not depend on the comment behind it. -/
theorem classify_endsBare {unit note : Bytes} (bare : endsBare unit = true)
    (silent : IsSilent note.trimEnd) : classify (unit ++ note) = classify unit := by
  obtain ⟨blanks, text, all, noBlank, rfl⟩ := exists_blanks unit
  have inner : endsBare text = true := by rwa [endsBare_blanks all] at bare
  have start : ∀ byte ∈ (text ++ note).head?, isBlank byte = false := by
    obtain ⟨first, more, rfl⟩ := List.exists_cons_of_ne_nil (ne_nil_endsBare inner)
    exact noBlank
  have noted : Bytes.trim (blanks ++ (text ++ note)) = text ++ note.trimEnd := by
    rw [Bytes.trim, Bytes.trimStart_append all start, Bytes.trimEnd_append (trimEnd_endsBare inner)]
  have alone := isComment_endsBare inner []
  rw [List.append_nil] at alone
  rw [classify, classify, List.append_assoc, noted,
    Bytes.trim_append all noBlank (trimEnd_endsBare inner), isComment_endsBare inner, alone,
    Declaration.ofRaw_note inner silent]

theorem classify_note {blanks statement note : Bytes} (all : AllBlank blanks)
    (valid : IsStatement statement) (behind : IsNote note) :
    classify (blanks ++ (statement ++ note)) = classify (blanks ++ statement) := by
  rw [← List.append_assoc]
  apply classify_endsBare (valid.endsBare all)
  rw [behind.solid]
  exact behind.silent

end Item
end CssSort
