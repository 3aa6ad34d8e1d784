import CssSort.Proofs.Cursor.Comments
import CssSort.Proofs.Item.Note
import CssSort.Proofs.Stylesheet.Sites

/-! Every cut lies between two characters. A style sheet is cut at braces, a block at
blanks and where a cursor stopped, and a declaration at marks. All marks are ASCII and
a cursor reads whole characters, so each part of a text is text again, and so is what
sorting puts together from the parts. -/
namespace CssSort
open Ascii

/-- Where a comment is closed first. -/
def closeIndex? : Bytes → Option Nat
  | [] => none
  | first :: rest => if closesComment first rest then some 0 else (closeIndex? rest).map (· + 1)

/-- Every cut that reading a unit without blanks around it makes. The marks around a
comment are counted off only behind the guard on its length. -/
structure Declaration.CutsWhole (raw : Bytes) : Prop where
  comment : [slash, asterisk] <+: raw → raw.IsSlice 2 raw.length
  marks : isComment raw = true ↔ 4 ≤ raw.length ∧ [slash, asterisk] <+: raw ∧
    [asterisk, slash] <:+ raw ∧ closeIndex? (raw.drop 2) = some (raw.length - 4)
  name : ∀ middle, findTopLevel? raw colon = some middle →
    raw.IsSlice (if startsWithMarker raw then 1 else 0) middle
  behind : ∀ middle, findTopLevel? raw colon = some middle →
    raw.IsSlice (middle + 1) raw.length
  value : ∀ middle, findTopLevel? raw colon = some middle →
    Bytes.IsSlice (raw.drop (middle + 1)) 0
      ((findTopLevel? (raw.drop (middle + 1)) semicolon).getD (raw.drop (middle + 1)).length)
  vendor : raw.IsSlice (vendorPrefix raw).length raw.length
  property : ∀ assignment ∈ Assignment.ofRaw? raw,
    assignment.name.IsSlice (vendorPrefix assignment.name).length assignment.name.length

/-- Every cut that reading a unit makes. -/
structure Item.CutsWhole (unit : Bytes) : Prop where
  raw : ∃ start stop, unit.IsSlice start stop ∧ unit.slice start stop = unit.trim
  inner : Declaration.CutsWhole unit.trim

namespace Block

/-- Every cut that taking a block apart makes. -/
structure PartsWhole (block : Bytes) : Prop where
  trailing : block.CutInto [block.trimEnd, block.blankEnd]
  units : block.trimEnd.CutInto (Parts.ofText block).units
  items : ∀ unit ∈ (Parts.ofText block).units, Item.CutsWhole unit

/-- Every cut that sorting a block makes. -/
structure CutsWhole (block : Bytes) : Prop where
  front : ∀ stop, missingSemicolon? block = some stop → block.IsSlice 0 stop
  back : ∀ stop, missingSemicolon? block = some stop → block.IsSlice stop block.length
  parts : PartsWhole (terminate block)

end Block

theorem behindComment?_eq (text : Bytes) :
    behindComment? text = (closeIndex? text).map fun place => text.drop (place + 2) := by
  induction text with
  | nil => rfl
  | cons first rest ih =>
    simp only [behindComment?, closeIndex?]
    split
    · simp
    · rw [ih, Option.map_map]
      rfl

theorem close_of_closeIndex? {text : Bytes} {place : Nat} (found : closeIndex? text = some place) :
    [asterisk, slash] <+: text.drop place := by
  induction text generalizing place with
  | nil => cases found
  | cons first rest ih =>
    simp only [closeIndex?] at found
    split at found
    · rename_i closes
      obtain rfl := Option.some.inj found
      exact closesComment_iff.mp closes
    · obtain ⟨before, earlier, rfl⟩ := Option.map_eq_some_iff.mp found
      exact ih earlier

theorem isComment_iff_closeIndex? {raw : Bytes} : isComment raw = true ↔
    4 ≤ raw.length ∧ [slash, asterisk] <+: raw ∧ [asterisk, slash] <:+ raw ∧
      closeIndex? (raw.drop 2) = some (raw.length - 4) := by
  have shape : isComment raw = true ↔ [slash, asterisk] <+: raw ∧
      behindComment? (raw.drop 2) = some [] := by
    rcases raw with _ | ⟨first, _ | ⟨second, rest⟩⟩
    · simp [isComment]
    · simp [isComment, opensComment]
    · have marks : [slash, asterisk] <+: first :: second :: rest ↔
          opensComment first (second :: rest) = true := by
        simp only [opensComment, List.cons_prefix_cons, List.nil_prefix, Bool.and_eq_true,
          beq_iff_eq, List.head?_cons, Option.some.injEq, and_true]
        exact and_congr eq_comm eq_comm
      rw [isComment, Bool.and_eq_true, beq_iff_eq, marks]
      rfl
  rw [shape, behindComment?_eq, Option.map_eq_some_iff]
  constructor
  · rintro ⟨opens, place, found, nothing⟩
    obtain ⟨more, closes⟩ := close_of_closeIndex? found
    have last : more = [] := by
      rw [← List.drop_drop, ← closes] at nothing
      exact nothing
    subst last
    rw [List.append_nil, List.drop_drop] at closes
    have long := congrArg List.length closes
    simp only [List.length_drop, List.length_cons, List.length_nil] at long
    refine ⟨by omega, opens, ?_, ?_⟩
    · rw [closes]
      exact List.drop_suffix _ _
    · rw [found]
      congr 1
      omega
  · rintro ⟨long, opens, -, found⟩
    refine ⟨opens, _, found, ?_⟩
    apply List.drop_eq_nil_of_le
    rw [List.length_drop]
    omega

theorem isUtf8_behind_ascii {front back : Bytes} (ascii : ∀ byte ∈ front, isAscii byte = true)
    (valid : (front ++ back).isUtf8 = true) : back.isUtf8 = true := by
  induction front with
  | nil => exact valid
  | cons byte front ih =>
    obtain ⟨first, more⟩ := List.forall_mem_cons.mp ascii
    exact ih more (Bytes.isUtf8_tail first valid)

theorem isSlice_behind_ascii {front back : Bytes} (ascii : ∀ byte ∈ front, isAscii byte = true)
    (valid : (front ++ back).isUtf8 = true) :
    (front ++ back).IsSlice front.length (front ++ back).length := by
  have later := isUtf8_behind_ascii ascii valid
  exact Bytes.isSlice_back (Bytes.isUtf8_of_append valid later) later

/-- A vendor prefix is made of dashes and words. -/
theorem exists_vendorPrefix (raw : Bytes) :
    ∃ back, raw = vendorPrefix raw ++ back ∧ ∀ byte ∈ vendorPrefix raw, isAscii byte = true := by
  have unprefixed : ∃ back, raw = [] ++ back ∧ ∀ byte ∈ ([] : Bytes), isAscii byte = true :=
    ⟨raw, rfl, by simp⟩
  cases raw with
  | nil => exact unprefixed
  | cons first rest =>
    have cut : rest.takeWhile isWord ++ rest.dropWhile isWord = rest :=
      List.takeWhile_append_dropWhile
    have word : ∀ byte ∈ rest.takeWhile isWord, isAscii byte = true := by
      intro byte member
      exact isAscii_of_isWord (List.mem_takeWhile_imp member)
    simp only [vendorPrefix]
    split
    · exact unprefixed
    · rename_i next behind later
      split
      · rename_i marks
        obtain ⟨rfl, -, rfl⟩ := marks
        obtain ⟨part, more, same, tail, ascii⟩ : ∃ part more,
            (if osx.isPrefixOf behind then osx else []) = part ∧ behind = part ++ more ∧
              ∀ byte ∈ part, isAscii byte = true := by
          split
          · rename_i second
            obtain ⟨more, whole⟩ := List.isPrefixOf_iff_prefix.mp second
            exact ⟨osx, more, rfl, whole.symm, by decide +kernel⟩
          · exact ⟨[], behind, rfl, rfl, by simp⟩
        rw [later, tail] at cut
        rw [same]
        refine ⟨more, ?_, ?_⟩
        · simp only [List.cons_append, List.append_assoc, cut]
        · intro byte member
          simp only [List.cons_append, List.mem_cons, List.mem_append] at member
          rcases member with rfl | member | rfl | member
          · decide
          · exact word byte member
          · decide
          · exact ascii byte member
      · exact unprefixed

theorem isSlice_vendorPrefix {raw : Bytes} (valid : raw.isUtf8 = true) :
    raw.IsSlice (vendorPrefix raw).length raw.length := by
  obtain ⟨back, whole, ascii⟩ := exists_vendorPrefix raw
  generalize vendorPrefix raw = front at whole ascii
  subst whole
  exact isSlice_behind_ascii ascii valid

theorem isAscii_of_isHackMarker {byte : UInt8} (marker : isHackMarker byte = true) :
    isAscii byte = true := by
  simp only [isHackMarker, Bool.or_eq_true, beq_iff_eq] at marker
  rcases marker with rfl | rfl <;> decide

namespace Declaration

variable {raw : Bytes} (valid : raw.isUtf8 = true)
include valid

/-- Text stands on both sides of a mark that is found. -/
theorem cut_of_findTopLevel? {byte : UInt8} (plain : IsPlain byte) (ascii : isAscii byte = true)
    {place : Nat} (found : findTopLevel? raw byte = some place) :
    ∃ front back, raw = front ++ byte :: back ∧ front.length = place ∧
      Bytes.isUtf8 front = true ∧ Bytes.isUtf8 (byte :: back) = true ∧
      Bytes.isUtf8 back = true := by
  obtain ⟨front, back, rfl, size, -⟩ := findTopLevel?_hit plain found
  exact ⟨front, back, rfl, size, Bytes.isUtf8_around ascii valid⟩

theorem isSlice_name {middle : Nat} (found : findTopLevel? raw colon = some middle) :
    raw.IsSlice (if startsWithMarker raw then 1 else 0) middle := by
  obtain ⟨front, back, rfl, rfl, known, later, -⟩ :=
    cut_of_findTopLevel? valid isPlain_colon (by decide) found
  split
  · rename_i marker
    cases front with
    | nil => exact absurd marker (show ¬ isHackMarker colon = true by decide)
    | cons first front =>
      have ascii := isAscii_of_isHackMarker marker
      have single : Bytes.isUtf8 [first] = true :=
        Bytes.isUtf8_of_append known (Bytes.isUtf8_tail ascii known)
      exact Bytes.isSlice_append single (Bytes.isUtf8_tail ascii known) later
  · exact Bytes.isSlice_front known later

theorem isSlice_value {middle : Nat} (found : findTopLevel? raw colon = some middle) :
    raw.IsSlice (middle + 1) raw.length ∧ Bytes.IsSlice (raw.drop (middle + 1)) 0
      ((findTopLevel? (raw.drop (middle + 1)) semicolon).getD (raw.drop (middle + 1)).length) := by
  obtain ⟨front, back, rfl, rfl, known, -, later⟩ :=
    cut_of_findTopLevel? valid isPlain_colon (by decide) found
  have whole : front ++ colon :: back = (front ++ [colon]) ++ back := by simp
  have size : front.length + 1 = (front ++ [colon]).length := by simp
  rw [whole] at valid ⊢
  rw [size, List.drop_left]
  constructor
  · exact Bytes.isSlice_back (Bytes.isUtf8_of_append valid later) later
  · cases ending : findTopLevel? back semicolon with
    | none =>
      have all : Bytes.IsSlice (back ++ []) 0 back.length :=
        Bytes.isSlice_front later Bytes.isUtf8_nil
      rwa [List.append_nil] at all
    | some place =>
      obtain ⟨value, rest, rfl, rfl, known, later, -⟩ :=
        cut_of_findTopLevel? later isPlain_semicolon (by decide) ending
      exact Bytes.isSlice_front known later

theorem cutsWhole : CutsWhole raw where
  comment := by
    rintro ⟨rest, rfl⟩
    have ascii : ∀ byte ∈ [slash, asterisk], isAscii byte = true := by decide +kernel
    exact isSlice_behind_ascii ascii valid
  marks := isComment_iff_closeIndex?
  name := fun _ found => isSlice_name valid found
  behind := fun _ found => (isSlice_value valid found).1
  value := fun _ found => (isSlice_value valid found).2
  vendor := isSlice_vendorPrefix valid
  property := by
    intro assignment read
    obtain ⟨middle, found, rfl⟩ := Option.map_eq_some_iff.mp read
    apply isSlice_vendorPrefix
    apply Bytes.isUtf8_trim
    exact (isSlice_name valid found).isUtf8 valid

end Declaration

theorem Item.cutsWhole {unit : Bytes} (valid : unit.isUtf8 = true) : CutsWhole unit where
  raw := by
    have start : Bytes.isUtf8 (unit.dropWhile isBlank) = true :=
      Bytes.isUtf8_dropWhile (fun _ => isAscii_of_isBlank) valid
    have cut : unit.takeWhile isBlank ++ unit.dropWhile isBlank = unit :=
      List.takeWhile_append_dropWhile
    have blanks : Bytes.isUtf8 (unit.takeWhile isBlank) = true := by
      rw [← cut] at valid
      exact Bytes.isUtf8_of_append valid start
    obtain ⟨inner, behind⟩ := Bytes.isUtf8_trimEnd start
    have whole : unit.takeWhile isBlank ++ (unit.trim ++ Bytes.blankEnd (unit.dropWhile isBlank)) =
        unit := by
      rw [Bytes.trim, Bytes.trimStart, Bytes.trimEnd_append_blankEnd, cut]
    have slice : Bytes.IsSlice (unit.takeWhile isBlank ++
        (unit.trim ++ Bytes.blankEnd (unit.dropWhile isBlank))) _ _ :=
      Bytes.isSlice_append blanks inner behind
    have piece := Bytes.slice_append (unit.takeWhile isBlank) unit.trim
      (Bytes.blankEnd (unit.dropWhile isBlank))
    rw [whole] at slice piece
    exact ⟨_, _, slice, piece⟩
  inner := Declaration.cutsWhole (Bytes.isUtf8_trim valid)

namespace Block

variable {block : Bytes} (valid : block.isUtf8 = true)
include valid

/-- The semicolon is missing where a cursor stopped. -/
theorem cut_of_missingSemicolon? {stop : Nat} (missing : missingSemicolon? block = some stop) :
    ∃ front back, block = front ++ back ∧ front.length = stop ∧ Bytes.isUtf8 front = true ∧
      Bytes.isUtf8 back = true := by
  obtain ⟨last, search, -⟩ := missingSemicolon?_eq_some_iff.mp missing
  have whole : (Cursor.ofText block).IsWhole := valid
  rcases whole.lastSignificant none (stop, last) search with
    nothing | ⟨front, later, reads, known, place⟩
  · cases nothing
  · have cut : block = front ++ later.rest := reads.rest
    have size : later.pos = 0 + front.length := reads.pos
    rw [cut] at valid
    exact ⟨front, later.rest, cut, by omega, Bytes.isUtf8_of_append valid known, known⟩

theorem isUtf8_terminate : (terminate block).isUtf8 = true := by
  cases missing : missingSemicolon? block with
  | none => rwa [terminate_of_none missing]
  | some stop =>
    obtain ⟨front, back, rfl, rfl, first, second⟩ := cut_of_missingSemicolon? valid missing
    have mark : Bytes.isUtf8 [semicolon] = true := Bytes.isUtf8_ofString ";"
    rw [terminate, missing]
    simp only [List.take_left, List.drop_left]
    exact Bytes.isUtf8_append first (Bytes.isUtf8_append mark second)

theorem partsWhole : PartsWhole block := by
  obtain ⟨body, trailing⟩ := Bytes.isUtf8_trimEnd valid
  constructor
  · apply Bytes.cutInto_of_isUtf8
    · simpa using Bytes.trimEnd_append_blankEnd block
    · simp [body, trailing]
  · exact Bytes.cutInto_of_isUtf8 (flatten_unitsOf _) (isUtf8_of_mem_unitsOf body)
  · intro unit member
    exact Item.cutsWhole (isUtf8_of_mem_unitsOf body unit member)

theorem cutsWhole : CutsWhole block where
  front := by
    intro stop missing
    obtain ⟨front, back, rfl, rfl, first, second⟩ := cut_of_missingSemicolon? valid missing
    exact Bytes.isSlice_front first second
  back := by
    intro stop missing
    obtain ⟨front, back, rfl, rfl, first, second⟩ := cut_of_missingSemicolon? valid missing
    exact Bytes.isSlice_back first second
  parts := partsWhole (isUtf8_terminate valid)

theorem isUtf8_arrange (direction : Direction) : (arrange direction block).isUtf8 = true := by
  obtain ⟨body, trailing⟩ := Bytes.isUtf8_trimEnd (isUtf8_terminate valid)
  rw [arrange_eq]
  apply Bytes.isUtf8_append _ trailing
  apply Bytes.isUtf8_flatten
  intro unit member
  exact isUtf8_of_mem_unitsOf body unit (mem_sort_iff.mp member)

end Block

namespace Layout

/-- The text around the blocks and the blocks, from left to right. -/
def pieces (layout : Layout) : List Bytes :=
  layout.lead :: layout.blocks.flatMap fun block => [block.text, block.behind]

theorem flatten_pieces (layout : Layout) : layout.pieces.flatten = layout.toText := by
  obtain ⟨lead, blocks⟩ := layout
  simp only [pieces, toText, List.flatten_cons, List.append_cancel_left_eq]
  induction blocks with
  | nil => rfl
  | cons block blocks ih => simp [ih]

/-- Each block stands between two braces. -/
def Braced (lead : Bytes) : List InnerBlock → Prop
  | [] => True
  | block :: blocks => lead.getLast? = some openBrace ∧ block.behind.head? = some closeBrace ∧
      Braced block.behind blocks

theorem Braced.of_getLast? {lead lead' : Bytes} {blocks : List InnerBlock}
    (braced : Braced lead blocks)
    (same : lead.getLast? = some openBrace → lead'.getLast? = some openBrace) :
    Braced lead' blocks := by
  cases blocks with
  | nil => trivial
  | cons block blocks => exact ⟨same braced.1, braced.2⟩

theorem braced_ofText (text : Bytes) : Braced (ofText text).lead (ofText text).blocks := by
  induction text with
  | nil => trivial
  | cons byte text ih =>
    rw [ofText_cons]
    by_cases block : byte = openBrace ∧ closesFirst (ofText text).lead = true
    · obtain ⟨rfl, closes⟩ := block
      obtain ⟨inner, after, lead, free, closes⟩ := closesFirst_iff.mp closes
      rw [push_cut lead free closes]
      refine ⟨rfl, closes, ih.of_getLast? ?_⟩
      intro last
      obtain ⟨rest, rfl⟩ := List.head?_eq_some_iff.mp closes
      rwa [lead, List.getLast?_append_of_ne_nil _ (List.cons_ne_nil _ _)] at last
    · rw [push_of_other block]
      apply ih.of_getLast?
      intro last
      simp [List.getLast?_cons, last]

/-- Both braces around a block are ASCII, so each piece is text. -/
theorem Braced.isUtf8 {lead : Bytes} {blocks : List InnerBlock} (braced : Braced lead blocks)
    (valid : (Layout.toText ⟨lead, blocks⟩).isUtf8 = true) :
    ∀ piece ∈ Layout.pieces ⟨lead, blocks⟩, piece.isUtf8 = true := by
  induction blocks generalizing lead with
  | nil => simpa [pieces, toText] using valid
  | cons block blocks ih =>
    obtain ⟨opens, closes, later⟩ := braced
    obtain ⟨front, rfl⟩ := List.getLast?_eq_some_iff.mp opens
    obtain ⟨rest, shape⟩ := List.head?_eq_some_iff.mp closes
    obtain ⟨behind, same⟩ : ∃ behind, behind = Layout.toText ⟨block.behind, blocks⟩ := ⟨_, rfl⟩
    have whole : Layout.toText ⟨front ++ [openBrace], block :: blocks⟩ =
        front ++ openBrace :: (block.text ++ behind) := by
      simp [toText, same]
    rw [whole] at valid
    obtain ⟨known, brace, inside⟩ := Bytes.isUtf8_around (by decide) valid
    have starts : ∀ byte ∈ behind.head?, isInner byte = false := by
      rw [same, toText, shape]
      rintro _ ⟨⟩
      decide
    obtain ⟨inner, after⟩ := Bytes.isUtf8_of_cut inside starts
    have lead : Bytes.isUtf8 (front ++ [openBrace]) = true :=
      Bytes.isUtf8_append known (Bytes.isUtf8_ofString "\x7b")
    have rest := ih later (same ▸ after)
    simp only [pieces, List.forall_mem_cons] at rest
    simp only [pieces, List.flatMap_cons, List.cons_append, List.nil_append, List.forall_mem_cons]
    exact ⟨lead, inner, rest⟩

theorem isUtf8_pieces {text : Bytes} (valid : text.isUtf8 = true) :
    ∀ piece ∈ (ofText text).pieces, piece.isUtf8 = true := by
  rw [← toText_ofText text] at valid
  exact (braced_ofText text).isUtf8 valid

theorem isUtf8_mapBlocks {f : Bytes → Bytes}
    (keeps : ∀ block : Bytes, block.isUtf8 = true → (f block).isUtf8 = true) {layout : Layout}
    (valid : ∀ piece ∈ layout.pieces, piece.isUtf8 = true) :
    (layout.mapBlocks f).toText.isUtf8 = true := by
  rw [← flatten_pieces]
  apply Bytes.isUtf8_flatten
  simp only [pieces, mapBlocks, List.forall_mem_cons, List.flatMap_map, List.mem_flatMap] at valid ⊢
  refine ⟨valid.1, ?_⟩
  rintro piece ⟨block, member, here⟩
  have known := fun piece here => valid.2 piece ⟨block, member, here⟩
  simp only [List.forall_mem_cons] at known
  rcases List.mem_pair.mp here with rfl | rfl
  · exact keeps _ known.1
  · exact known.2.1

end Layout

namespace Stylesheet

/-- Sorting cuts a text between its characters only, whether it is taken as a style
sheet, as a block or as a unit. So the parts are text again, and so is the result. -/
theorem alphabetize_cuts_whole (direction : Direction) (text : Bytes)
    (valid : text.isUtf8 = true) :
    text.CutInto (Layout.ofText text).pieces ∧
    (∀ block ∈ (Layout.ofText text).blocks, Block.CutsWhole block.text) ∧
    Block.CutsWhole text ∧ Block.PartsWhole text ∧ Item.CutsWhole text ∧
    (alphabetize direction text).isUtf8 = true := by
  have pieces := Layout.isUtf8_pieces valid
  refine ⟨?_, ?_, Block.cutsWhole valid, Block.partsWhole valid, Item.cutsWhole valid, ?_⟩
  · apply Bytes.cutInto_of_isUtf8 _ pieces
    rw [Layout.flatten_pieces, Layout.toText_ofText]
  · intro block member
    apply Block.cutsWhole
    apply pieces
    simp only [Layout.pieces, List.mem_cons, List.mem_flatMap]
    exact .inr ⟨block, member, .inl rfl⟩
  · exact Layout.isUtf8_mapBlocks (fun _ known => Block.isUtf8_arrange known direction) pieces

/-- Wide characters behind a backslash, in a string, a comment and a name, and at the
end, and a semicolon that is given behind a lone backslash. -/
theorem alphabetize_cuts_whole_accents :
    let text := Bytes.ofString "ü\x7bö:\"\\ß;\";*é:/*€*/😀\\\x7d日"
    let sorted := Bytes.ofString "ü\x7b*é:/*€*/😀\\;ö:\"\\ß;\";\x7d日"
    text.isUtf8 = true ∧ text.CutInto (Layout.ofText text).pieces ∧ Block.CutsWhole text ∧
      Item.CutsWhole text ∧ alphabetize .ascending text = sorted ∧
      (alphabetize .ascending text).isUtf8 = true := by
  have output : alphabetize .ascending (Bytes.ofString "ü\x7bö:\"\\ß;\";*é:/*€*/😀\\\x7d日") =
      Bytes.ofString "ü\x7b*é:/*€*/😀\\;ö:\"\\ß;\";\x7d日" := by
    rw [alphabetize, Block.arrange_eq_insertionSort]
    decide +kernel
  intro text sorted
  have valid : text.isUtf8 = true := Bytes.isUtf8_ofString _
  obtain ⟨pieces, -, block, -, item, result⟩ := alphabetize_cuts_whole .ascending text valid
  exact ⟨valid, pieces, block, item, output, result⟩

end Stylesheet
end CssSort
