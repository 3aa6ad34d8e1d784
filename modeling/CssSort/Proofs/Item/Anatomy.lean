import CssSort.Proofs.Block.Split

/-! What a declaration is made of. Its text is cut at the first colon and at the first
semicolon behind the colon, and the parts put together again are the whole text. The
name starts with the longest vendor prefix there is, and whether the declaration counts
as prefixed is told by the name alone, although it is found out on the whole text. -/
namespace CssSort
open Ascii

namespace Bytes

theorem exists_trim (text : Bytes) : ∃ before behind, AllBlank before ∧ AllBlank behind ∧
    text = before ++ (text.trim ++ behind) := by
  refine ⟨text.takeWhile isBlank, text.trimStart.blankEnd, ?_, ?_, ?_⟩
  · exact List.all_eq_true.mp List.all_takeWhile
  · exact fun byte member => isBlank_of_mem_blankEnd member
  · rw [trim, trimEnd_append_blankEnd]
    exact List.takeWhile_append_dropWhile.symm

theorem head_trim (text : Bytes) : ∀ byte ∈ text.trim.head?, isBlank byte = false := by
  intro byte head
  have whole : text.trim ++ text.trimStart.blankEnd = text.trimStart :=
    trimEnd_append_blankEnd _
  have first : text.trimStart.head? = some byte := by
    rw [← whole, List.head?_append, Option.mem_def.mp head, Option.some_or]
  have start := List.head?_dropWhile_not isBlank text
  rw [show (text.dropWhile isBlank).head? = some byte from first] at start
  simpa using start

end Bytes

section VendorPrefix

/-- A word between two dashes, perhaps with `osx-` behind it. -/
def IsVendorPrefix (text : Bytes) : Prop :=
  ∃ word, word ≠ [] ∧ (∀ byte ∈ word, isWord byte = true) ∧
    (text = dash :: (word ++ [dash]) ∨ text = dash :: (word ++ dash :: osx))

/-- The longest vendor prefix in front of a name, or nothing if there is none. -/
structure IsLongestVendorPrefix (front name : Bytes) : Prop where
  starts : front <+: name
  valid : front = [] ∨ IsVendorPrefix front
  longest : ∀ other, other <+: name → IsVendorPrefix other → other.length ≤ front.length

theorem vendorPrefix_word {word : Bytes} (filled : word ≠ [])
    (all : ∀ byte ∈ word, isWord byte = true) (behind : Bytes) :
    vendorPrefix (dash :: (word ++ dash :: behind)) =
      dash :: (word ++ dash :: if osx.isPrefixOf behind then osx else []) := by
  have noWord : isWord dash = false := by decide
  simp [vendorPrefix, List.takeWhile_append_of_pos all, List.dropWhile_append_of_pos all, noWord,
    filled]

theorem vendorPrefix_cases (name : Bytes) : vendorPrefix name = [] ∨
    ∃ word behind, word ≠ [] ∧ (∀ byte ∈ word, isWord byte = true) ∧
      name = dash :: (word ++ dash :: behind) := by
  cases name with
  | nil => exact .inl rfl
  | cons first rest =>
    by_cases unprefixed : vendorPrefix (first :: rest) = []
    · exact .inl unprefixed
    · obtain ⟨rfl, filled, next⟩ := vendorPrefix_ne_nil_iff.mp unprefixed
      obtain ⟨behind, later⟩ := List.head?_eq_some_iff.mp next
      refine .inr ⟨rest.takeWhile isWord, behind, filled, ?_, ?_⟩
      · exact List.all_eq_true.mp List.all_takeWhile
      · rw [← later, List.takeWhile_append_dropWhile]

theorem length_le_vendorPrefix {front name : Bytes} (starts : front <+: name)
    (valid : IsVendorPrefix front) : front.length ≤ (vendorPrefix name).length := by
  obtain ⟨more, rfl⟩ := starts
  obtain ⟨word, filled, all, rfl | rfl⟩ := valid
  · have whole : dash :: (word ++ [dash]) ++ more = dash :: (word ++ dash :: more) := by simp
    rw [whole, vendorPrefix_word filled all]
    simp
  · have whole : dash :: (word ++ dash :: osx) ++ more = dash :: (word ++ dash :: (osx ++ more)) := by
      simp
    have both : osx.isPrefixOf (osx ++ more) = true :=
      List.isPrefixOf_iff_prefix.mpr (List.prefix_append osx more)
    rw [whole, vendorPrefix_word filled all, if_pos both]

theorem isLongestVendorPrefix (name : Bytes) : IsLongestVendorPrefix (vendorPrefix name) name where
  starts := by
    rcases vendorPrefix_cases name with unprefixed | ⟨word, behind, filled, all, rfl⟩
    · rw [unprefixed]
      exact List.nil_prefix
    · rw [vendorPrefix_word filled all, List.cons_prefix_cons, List.prefix_append_right_inj,
        List.cons_prefix_cons]
      refine ⟨rfl, rfl, ?_⟩
      split
      · exact List.isPrefixOf_iff_prefix.mp ‹_›
      · exact List.nil_prefix
  valid := by
    rcases vendorPrefix_cases name with unprefixed | ⟨word, behind, filled, all, rfl⟩
    · exact .inl unprefixed
    · rw [vendorPrefix_word filled all]
      refine .inr ⟨word, filled, all, ?_⟩
      split
      · exact .inr rfl
      · exact .inl rfl
  longest := fun _ => length_le_vendorPrefix

end VendorPrefix

section Search

variable {text : Bytes} {byte other : UInt8}

theorem findTopLevel?_plain {first : UInt8} (plain : IsPlain first) (apart : first ≠ byte)
    (text : Bytes) : findTopLevel? (first :: text) byte = (findTopLevel? text byte).map (1 + ·) := by
  have step : (Cursor.ofText (first :: text)).step? = some (⟨first, []⟩, Cursor.fresh 1 text) :=
    Cursor.step?_plain plain rfl rfl
  rw [findTopLevel?, Cursor.skipPast_of_step? step, if_neg (by simp [apart]), Cursor.fresh_eq_embed,
    Cursor.skipPast_shift]
  rfl

/-- In front of the first place of a byte there is none. -/
theorem findTopLevel?_front {front : Bytes} (behind : Bytes)
    (far : ∀ place ∈ findTopLevel? (front ++ behind) byte, front.length ≤ place) :
    findTopLevel? front byte = none := by
  cases found : findTopLevel? front byte with
  | none => rfl
  | some place =>
    have inside := findTopLevel?_lt found
    have outside := far place (findTopLevel?_append found behind)
    omega

namespace Cursor

theorem places_shift (cursor : Cursor) (before : Nat) (byte : UInt8) :
    (cursor.embed before []).places byte = (cursor.places byte).map (before + ·) := by
  fun_induction places cursor byte with
  | case1 cursor step => exact places_of_rest_nil (by simp [step?_eq_none_iff.mp step]) byte
  | case2 cursor piece next step found ih =>
    rw [places_of_step? (step?_shift_some step before), context_embed, if_pos found, ih]
    rfl
  | case3 cursor piece next step apart ih =>
    rw [places_of_step? (step?_shift_some step before), context_embed, if_neg apart, ih]

/-- The places of one byte in front of and behind a place of another byte. -/
theorem places_behind {cursor stop : Cursor} {place : Nat} (plain : IsPlain byte)
    (apart : byte ≠ other) (hit : cursor.skipPast byte = (some place, stop)) :
    ∃ early, cursor.places other = early ++ stop.places other ∧ ∀ earlier ∈ early, earlier < place := by
  fun_induction skipPast cursor byte with
  | case1 => simp at hit
  | case2 cursor piece next step found =>
    obtain ⟨-, first⟩ : cursor.context.isTopLevel = true ∧ piece.first = byte := by
      simpa using found
    obtain ⟨-, rfl⟩ : cursor.pos = place ∧ next = stop := by simpa using hit
    refine ⟨[], ?_, by simp⟩
    rw [places_of_step? step, if_neg (by simp [first, apart]), List.nil_append]
  | case3 cursor piece next step _ ih =>
    obtain ⟨early, later, before⟩ := ih hit
    obtain ⟨read, -, -, reached⟩ := skipPast_hit plain hit
    have further : cursor.pos < next.pos := by simp [(reads_of_step? step).pos, Piece.bytes]
    rw [places_of_step? step, later]
    split
    · refine ⟨cursor.pos :: early, rfl, ?_⟩
      intro earlier member
      rcases List.mem_cons.mp member with rfl | member
      · omega
      · exact before earlier member
    · exact ⟨early, rfl, before⟩

end Cursor

/-- The first place of a byte behind a place of another byte is found in the text that
stands behind, read afresh. -/
theorem find?_topLevelPlaces {front behind : Bytes} (plain : IsPlain byte) (apart : byte ≠ other)
    (found : findTopLevel? (front ++ byte :: behind) byte = some front.length) :
    (topLevelPlaces (front ++ byte :: behind) other).find? (front.length < ·) =
      (findTopLevel? behind other).map (front.length + 1 + ·) := by
  obtain ⟨read, rest, whole, size, hit⟩ := findTopLevel?_hit plain found
  obtain ⟨rfl, same⟩ := List.append_inj whole size.symm
  obtain ⟨-, rfl⟩ := List.cons.inj same
  obtain ⟨early, places, before⟩ := Cursor.places_behind plain apart hit
  have unfound : early.find? (front.length < ·) = none := by
    rw [List.find?_eq_none]
    intro earlier member
    have := before earlier member
    simp only [decide_eq_true_eq]
    omega
  have later : ∀ list : List Nat,
      (list.map (front.length + 1 + ·)).find? (front.length < ·) =
        list.head?.map (front.length + 1 + ·) := by
    intro list
    cases list with
    | nil => rfl
    | cons first list =>
      rw [List.map_cons, List.find?_cons_of_pos]
      · rfl
      · simp only [decide_eq_true_eq]
        omega
  rw [topLevelPlaces, places, List.find?_append, unfound, Option.none_or, Cursor.fresh_eq_embed,
    Cursor.places_shift, later]
  exact congrArg _ (head?_topLevelPlaces behind other)

end Search

/-- The hack marker that a text starts with, if there is one. -/
def markerOf : Bytes → Bytes
  | [] => []
  | first :: _ => if first = underscore ∨ first = asterisk then [first] else []

theorem startsWithMarker_iff {raw : Bytes} : startsWithMarker raw = true ↔ markerOf raw ≠ [] := by
  cases raw with
  | nil => simp [startsWithMarker, markerOf]
  | cons first rest =>
    by_cases marked : first = underscore ∨ first = asterisk
    · simp [startsWithMarker, markerOf, isHackMarker, marked]
    · simp [startsWithMarker, markerOf, isHackMarker, marked]

theorem length_markerOf (raw : Bytes) :
    (markerOf raw).length = if startsWithMarker raw then 1 else 0 := by
  cases raw with
  | nil => rfl
  | cons first rest =>
    by_cases marked : first = underscore ∨ first = asterisk
    · simp [startsWithMarker, markerOf, isHackMarker, marked]
    · simp [startsWithMarker, markerOf, isHackMarker, marked]

/-- A marker is read alone and does not change what is found behind it. -/
theorem exists_markerOf (raw : Bytes) : ∃ body, raw = markerOf raw ++ body ∧
    ∀ more, findTopLevel? (markerOf raw ++ more) colon =
      (findTopLevel? more colon).map ((markerOf raw).length + ·) := by
  cases raw with
  | nil => exact ⟨[], rfl, by simp [markerOf]⟩
  | cons first rest =>
    by_cases marked : first = underscore ∨ first = asterisk
    · have plain : IsPlain first ∧ first ≠ colon := by
        rcases marked with rfl | rfl
        · exact ⟨by constructor <;> decide, by decide⟩
        · exact ⟨by constructor <;> decide, by decide⟩
      refine ⟨rest, by simp [markerOf, marked], fun more => ?_⟩
      simpa [markerOf, marked] using findTopLevel?_plain plain.1 plain.2 more
    · exact ⟨first :: rest, by simp [markerOf, marked], by simp [markerOf, marked]⟩

theorem word_of_isBlank {byte : UInt8} (blank : isBlank byte = true) :
    isWord byte = false ∧ byte ≠ dash := by
  simp only [isBlank, isInlineBlank, Bool.or_eq_true, beq_iff_eq] at blank
  rcases blank with ((((rfl | rfl) | rfl) | rfl) | rfl) <;> decide

/-- The parts of a declaration from left to right, without its colon. -/
structure Anatomy where
  marker : Bytes
  beforeName : Bytes
  name : Bytes
  behindName : Bytes
  beforeValue : Bytes
  value : Bytes
  behindValue : Bytes
  rest : Bytes
  deriving DecidableEq, Repr

namespace Anatomy

def left (parts : Anatomy) : Bytes :=
  parts.marker ++ (parts.beforeName ++ (parts.name ++ parts.behindName))

def right (parts : Anatomy) : Bytes :=
  parts.beforeValue ++ (parts.value ++ parts.behindValue)

def toText (parts : Anatomy) : Bytes :=
  parts.left ++ colon :: (parts.right ++ parts.rest)

/-- The parts are those of `raw`, cut at its first colon and at the first semicolon
behind the colon. -/
structure Fits (parts : Anatomy) (raw : Bytes) : Prop where
  whole : parts.toText = raw
  marker : parts.marker = markerOf raw
  blanks : AllBlank parts.beforeName ∧ AllBlank parts.behindName ∧
    AllBlank parts.beforeValue ∧ AllBlank parts.behindValue
  middle : findTopLevel? raw colon = some parts.left.length
  rest : parts.rest = [] ∨ parts.rest.head? = some semicolon
  stop : (topLevelPlaces raw semicolon).find? (parts.left.length < ·) =
    if parts.rest = [] then none else some (parts.left.length + 1 + parts.right.length)
  name : findTopLevel? parts.name colon = none
  value : findTopLevel? parts.value semicolon = none

/-- What stands behind the colon, cut at the first semicolon. -/
theorem exists_value (behind : Bytes) : ∃ right rest, behind = right ++ rest ∧
    (rest = [] ∨ rest.head? = some semicolon) ∧
    findTopLevel? behind semicolon = (if rest = [] then none else some right.length) ∧
    behind.take ((findTopLevel? behind semicolon).getD behind.length) = right := by
  cases found : findTopLevel? behind semicolon with
  | none => exact ⟨behind, [], by simp, .inl rfl, by simp, by simp⟩
  | some stop =>
    obtain ⟨right, rest, rfl, rfl, -⟩ := findTopLevel?_hit isPlain_semicolon found
    exact ⟨right, semicolon :: rest, rfl, .inr rfl, by simp, by simp⟩

/-- A byte that is first found behind a text is not found in its trimmed part. -/
theorem findTopLevel?_core {before core after rest : Bytes} {byte : UInt8} (plain : IsPlain byte)
    (noBlank : isBlank byte = false) (all : AllBlank before)
    (far : ∀ place ∈ findTopLevel? (before ++ (core ++ after) ++ rest) byte,
      (before ++ (core ++ after)).length ≤ place) : findTopLevel? core byte = none := by
  apply findTopLevel?_front (after ++ rest)
  intro place found
  rw [List.append_assoc, findTopLevel?_blanks all _ noBlank plain.noSlash, List.append_assoc,
    Option.mem_def.mp found, Option.map_some] at far
  have := far _ rfl
  simp only [List.length_append] at this
  omega

theorem exists_fits {raw : Bytes} {middle : Nat} (found : findTopLevel? raw colon = some middle) :
    ∃ parts : Anatomy, parts.Fits raw ∧
      Assignment.ofRaw? raw = some ⟨parts.name, parts.value⟩ := by
  obtain ⟨body, marked, search⟩ := exists_markerOf raw
  have size := length_markerOf raw
  generalize known : markerOf raw = marker at marked search size
  subst marked
  rw [search] at found
  obtain ⟨place, own, -⟩ := Option.map_eq_some_iff.mp found
  obtain ⟨inner, behind, rfl, rfl, -⟩ := findTopLevel?_hit isPlain_colon own
  obtain ⟨right, rest, rfl, shape, ending, taken⟩ := exists_value behind
  obtain ⟨before, after, allBefore, allAfter, name⟩ := Bytes.exists_trim inner
  obtain ⟨ahead, past, allAhead, allPast, value⟩ := Bytes.exists_trim right
  let parts : Anatomy :=
    ⟨marker, before, inner.trim, after, ahead, right.trim, past, rest⟩
  have left : parts.left = marker ++ inner := congrArg (marker ++ ·) name.symm
  have whole : parts.toText = marker ++ (inner ++ colon :: (right ++ rest)) := by
    rw [toText, left, show parts.right = right from value.symm, List.append_assoc]
  have middle : findTopLevel? parts.toText colon = some parts.left.length := by
    rw [whole, search, own, left, List.length_append, Option.map_some]
  refine ⟨parts, ⟨whole, known.symm, ⟨allBefore, allAfter, allAhead, allPast⟩, ?_, shape, ?_, ?_, ?_⟩,
    ?_⟩
  · rw [← whole, middle]
  · rw [← whole, toText, find?_topLevelPlaces isPlain_colon (by decide) middle]
    rw [show parts.right = right from value.symm, ending]
    split <;> rfl
  · apply findTopLevel?_core isPlain_colon (by decide) allBefore
    rw [← name, own]
    rintro _ ⟨⟩
    exact Nat.le_refl _
  · apply findTopLevel?_core isPlain_semicolon (by decide) allAhead
    rw [← value, ending]
    intro place member
    split at member
    · cases member
    · obtain rfl := Option.some.inj member
      exact Nat.le_refl _
  · have stop : findTopLevel? (marker ++ (inner ++ colon :: (right ++ rest))) colon =
        some (marker ++ inner).length := by rw [← whole, middle, left]
    have front : (marker ++ (inner ++ colon :: (right ++ rest))).take (marker ++ inner).length =
        marker ++ inner := by
      rw [← List.append_assoc, List.take_left]
    have back : (marker ++ (inner ++ colon :: (right ++ rest))).drop ((marker ++ inner).length + 1) =
        right ++ rest := by
      rw [← List.append_assoc, List.drop_length_add_append]
      rfl
    simp only [Assignment.ofRaw?, stop, Option.map_some, front, back, ← size, List.drop_left, taken]
    rfl

/-- Without a marker the name stands at the very start, so its prefix is the one of the
whole text. With a marker there is none. -/
theorem Fits.vendorPrefix_iff {parts : Anatomy} {raw : Bytes} (fits : parts.Fits raw)
    (start : ∀ byte ∈ raw.head?, isBlank byte = false) :
    vendorPrefix raw ≠ [] ↔ parts.marker = [] ∧ vendorPrefix parts.name ≠ [] := by
  obtain ⟨allBefore, allBehind, -, -⟩ := fits.blanks
  by_cases unmarked : parts.marker = []
  · have first : parts.beforeName = [] := by
      cases blanks : parts.beforeName with
      | nil => rfl
      | cons byte more =>
        have solid := start byte (by rw [← fits.whole, toText, left, unmarked, blanks]; rfl)
        have blank := allBefore byte (by rw [blanks]; exact List.mem_cons_self)
        exact absurd solid (by simp [blank])
    have whole : parts.name ++ (parts.behindName ++ colon :: (parts.right ++ parts.rest)) = raw := by
      rw [← fits.whole, toText, left, unmarked, first]
      simp
    have stop : ∀ byte ∈ (parts.behindName ++ colon :: (parts.right ++ parts.rest)).head?,
        isWord byte = false ∧ byte ≠ dash := by
      cases blanks : parts.behindName with
      | nil =>
        rintro byte ⟨⟩
        decide
      | cons first more =>
        rintro byte ⟨⟩
        exact word_of_isBlank (allBehind first (by rw [blanks]; exact List.mem_cons_self))
    rw [← whole, vendorPrefix_append parts.name stop]
    simp [unmarked]
  · have marked : markerOf raw ≠ [] := by rwa [← fits.marker]
    constructor
    · intro prefixed
      cases raw with
      | nil => exact absurd rfl marked
      | cons first rest =>
        obtain ⟨rfl, -⟩ := vendorPrefix_ne_nil_iff.mp prefixed
        exact absurd (show markerOf (dash :: rest) = [] from rfl) marked
    · rintro ⟨nothing, -⟩
      exact absurd nothing unmarked

end Anatomy

theorem Declaration.hacked_ofRaw_iff (raw : Bytes) : (ofRaw raw).hacked = true ↔
    markerOf raw ≠ [] ∨ ∃ value, (ofRaw raw).value? = some value ∧
      (Bytes.ofString "\\9" <:+ value ∨ Bytes.ofString "\\0" <:+ value) := by
  simp only [ofRaw, value?, Bool.or_eq_true, startsWithMarker_iff]
  refine or_congr_right ?_
  cases Assignment.ofRaw? raw with
  | none => simp
  | some assignment => simp [hackEndings]

namespace Item

/-- A declaration without a colon has no name and no value. With one, its text is made of
the marker, the name, the colon, the value and what follows its semicolon, with blanks
between them. -/
theorem classify_rebuilds_unit {unit : Bytes} {declaration : Declaration}
    (own : classify unit = .declaration declaration) :
    (findTopLevel? unit.trim colon = none → declaration.property? = none ∧
      declaration.name? = none ∧ declaration.value? = none) ∧
    (findTopLevel? unit.trim colon ≠ none →
      ∃ (parts : Anatomy) (vendor property : Bytes), parts.Fits unit.trim ∧
        declaration.name? = some parts.name ∧ declaration.value? = some parts.value ∧
        declaration.property? = some property ∧ parts.name = vendor ++ property ∧
        IsLongestVendorPrefix vendor parts.name ∧
        (declaration.vendor = true ↔ parts.marker = [] ∧ vendor ≠ [])) ∧
    (declaration.hacked = true ↔ markerOf unit.trim ≠ [] ∨ ∃ value, declaration.value? = some value ∧
      (Bytes.ofString "\\9" <:+ value ∨ Bytes.ofString "\\0" <:+ value)) := by
  obtain rfl : Declaration.ofRaw unit.trim = declaration := by
    unfold classify at own
    split at own
    · cases own
    · exact Kind.declaration.inj own
  refine ⟨?_, ?_, ?_⟩
  · intro colonless
    simp [Declaration.ofRaw, Declaration.property?, Declaration.name?, Declaration.value?,
      Assignment.ofRaw?, colonless]
  · intro present
    obtain ⟨middle, found⟩ := Option.ne_none_iff_exists'.mp present
    obtain ⟨parts, fits, read⟩ := Anatomy.exists_fits found
    obtain ⟨property, whole⟩ := (isLongestVendorPrefix parts.name).starts
    have name : (Declaration.ofRaw unit.trim).name? = some parts.name := by
      simp [Declaration.ofRaw, Declaration.name?, read]
    have value : (Declaration.ofRaw unit.trim).value? = some parts.value := by
      simp [Declaration.ofRaw, Declaration.value?, read]
    refine ⟨parts, vendorPrefix parts.name, property, fits, name, value, ?_, whole.symm,
      isLongestVendorPrefix parts.name, ?_⟩
    · have behind := congrArg (List.drop (vendorPrefix parts.name).length) whole
      rw [List.drop_left] at behind
      rw [Declaration.property?, name, Option.map_some, behind]
    · simp only [Declaration.ofRaw, decide_eq_true_eq]
      exact fits.vendorPrefix_iff (Bytes.head_trim unit)
  · exact Declaration.hacked_ofRaw_iff unit.trim

/-- A hack with the longer kind of prefix, an escaped colon in its name and semicolons in
its value and behind it; and a text that is prefixed and has no colon. -/
theorem classify_rebuilds_unit_hack :
    let unit := Bytes.ofString "\n* -moz-osx-a\\:b :url(;:)\\9 ; /*;*/"
    let declaration := Declaration.ofRaw unit.trim
    let plain := Bytes.ofString "-moz-a;"
    classify unit = .declaration declaration ∧
    declaration.property? = some (Bytes.ofString "a\\:b") ∧
    declaration.value? = some (Bytes.ofString "url(;:)\\9") ∧
    (∃ parts : Anatomy, parts.Fits unit.trim ∧ declaration.name? = some parts.name) ∧
    declaration.hacked = true ∧ declaration.vendor = false ∧
    classify plain = .declaration (Declaration.ofRaw plain) ∧
    (Declaration.ofRaw plain).property? = none ∧ (Declaration.ofRaw plain).vendor = true := by
  intro unit declaration plain
  have own : classify unit = .declaration declaration := by decide +kernel
  have bare : classify plain = .declaration (Declaration.ofRaw plain) := by decide +kernel
  obtain ⟨-, present, hacked⟩ := classify_rebuilds_unit own
  obtain ⟨absent, -, -⟩ := classify_rebuilds_unit bare
  obtain ⟨parts, vendor, property, fits, name, -⟩ := present (by decide +kernel)
  exact ⟨own, by decide +kernel, by decide +kernel, ⟨parts, fits, name⟩,
    hacked.mpr (.inl (by decide +kernel)), by decide +kernel, bare,
    (absent (by decide +kernel)).1, by decide +kernel⟩

end Item

end CssSort
