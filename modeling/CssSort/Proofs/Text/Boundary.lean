import CssSort.Proofs.Bytes

/-! Places between the characters of a text. Each character of a UTF-8 text starts
with a byte that tells how wide it is, and the bytes inside of it are marked as such.
So the byte behind a place tells whether the place lies between two characters, and a
text cut there is UTF-8 on both sides. A slice is cut out between two such places. -/
namespace CssSort
open Ascii

namespace Ascii

def isAscii (byte : UInt8) : Bool :=
  byte < 0x80

/-- A byte from inside a character. -/
def isInner (byte : UInt8) : Bool :=
  0x80 ≤ byte && byte < 0xC0

theorem isAscii_iff {byte : UInt8} : isAscii byte = true ↔ byte.toNat < 128 := by
  simp only [isAscii, decide_eq_true_eq, UInt8.lt_iff_toNat_lt]
  exact Iff.rfl

theorem isInner_iff {byte : UInt8} :
    isInner byte = true ↔ 128 ≤ byte.toNat ∧ byte.toNat < 192 := by
  simp only [isInner, Bool.and_eq_true, decide_eq_true_eq, UInt8.le_iff_toNat_le,
    UInt8.lt_iff_toNat_lt]
  exact Iff.rfl

theorem charWidth_eq (byte : UInt8) : charWidth byte =
    if 240 ≤ byte.toNat then 4 else if 224 ≤ byte.toNat then 3
    else if 192 ≤ byte.toNat then 2 else 1 := by
  simp only [charWidth, UInt8.le_iff_toNat_le]
  rfl

theorem isInner_of_isAscii {byte : UInt8} (ascii : isAscii byte = true) : isInner byte = false := by
  simp only [Bool.eq_false_iff, ne_eq, isInner_iff, isAscii_iff] at ascii ⊢
  omega

theorem charWidth_of_isAscii {byte : UInt8} (ascii : isAscii byte = true) : charWidth byte = 1 := by
  simp only [charWidth_eq, isAscii_iff] at ascii ⊢
  grind

theorem isAscii_of_isBlank {byte : UInt8} (blank : isBlank byte = true) : isAscii byte = true := by
  simp only [isBlank, isInlineBlank, Bool.or_eq_true, beq_iff_eq] at blank
  rcases blank with ((((rfl | rfl) | rfl) | rfl) | rfl) <;> decide

theorem isAscii_of_isInlineBlank {byte : UInt8} (blank : isInlineBlank byte = true) :
    isAscii byte = true :=
  isAscii_of_isBlank (by simp [isBlank, blank])

theorem isAscii_of_isWord {byte : UInt8} (word : isWord byte = true) : isAscii byte = true := by
  simp only [isWord, isDigit, Bool.or_eq_true, Bool.and_eq_true, decide_eq_true_eq, beq_iff_eq]
    at word
  rcases word with ((⟨-, top⟩ | ⟨-, top⟩) | ⟨-, top⟩) | rfl
  · exact decide_eq_true (UInt8.lt_of_le_of_lt top (by decide))
  · exact decide_eq_true (UInt8.lt_of_le_of_lt top (by decide))
  · exact decide_eq_true (UInt8.lt_of_le_of_lt top (by decide))
  · decide

end Ascii

namespace Bytes

/-- A place between two characters or at the end of the text. -/
def isBoundary (text : Bytes) (place : Nat) : Bool :=
  place == text.length || text[place]?.any (!isInner ·)

/-- These bytes are one character: the first tells how many there are. -/
structure Spells (first : UInt8) (inner : Bytes) : Prop where
  width : charWidth first = inner.length + 1
  lead : isInner first = false
  inner : ∀ byte ∈ inner, isInner byte = true

theorem spells_ofNat {value : Nat} {inner : Bytes} (small : value < 256)
    (width : inner.length + 1 = if 240 ≤ value then 4 else if 224 ≤ value then 3
      else if 192 ≤ value then 2 else 1) (lead : ¬ (128 ≤ value ∧ value < 192))
    (marked : ∀ byte ∈ inner, isInner byte = true) : Spells (UInt8.ofNat value) inner := by
  have same : (UInt8.ofNat value).toNat = value := UInt8.toNat_ofNat_of_lt' small
  constructor
  · rw [charWidth_eq, same, width]
  · rwa [Bool.eq_false_iff, ne_eq, isInner_iff, same]
  · exact marked

theorem isInner_ofNat (value : Nat) : isInner (UInt8.ofNat (value % 0x40 + 0x80)) = true := by
  rw [isInner_iff, UInt8.toNat_ofNat_of_lt' (by simp [UInt8.size]; omega)]
  omega

/-- One case for each width. -/
theorem spells_utf8EncodeChar (char : Char) : ∃ first inner,
    String.utf8EncodeChar char = first :: inner ∧ Spells first inner := by
  have marked : ∀ byte ∈ ([] : Bytes), isInner byte = true := by simp
  simp only [String.utf8EncodeChar]
  split
  · refine ⟨_, _, rfl, spells_ofNat (by omega) ?_ (by omega) marked⟩
    simp only [List.length_nil]
    grind
  · split
    · refine ⟨_, _, rfl, spells_ofNat (by omega) ?_ (by omega) ?_⟩
      · simp only [List.length_cons, List.length_nil]
        grind
      · simp only [List.forall_mem_cons, isInner_ofNat, true_and]
        exact marked
    · split
      · refine ⟨_, _, rfl, spells_ofNat (by omega) ?_ (by omega) ?_⟩
        · simp only [List.length_cons, List.length_nil]
          grind
        · simp only [List.forall_mem_cons, isInner_ofNat, true_and]
          exact marked
      · refine ⟨_, _, rfl, spells_ofNat (by omega) ?_ (by omega) ?_⟩
        · simp only [List.length_cons, List.length_nil]
          grind
        · simp only [List.forall_mem_cons, isInner_ofNat, true_and]
          exact marked

theorem isUtf8_iff {text : Bytes} :
    text.isUtf8 = true ↔ ∃ chars : List Char, text = chars.flatMap String.utf8EncodeChar := by
  rw [isUtf8, ByteArray.validateUTF8_eq_true_iff]
  constructor
  · rintro ⟨chars, whole⟩
    refine ⟨chars, ?_⟩
    have bytes := congrArg (fun bytes => bytes.data.toList) whole
    simpa [List.utf8Encode] using bytes
  · rintro ⟨chars, rfl⟩
    refine ⟨chars, ?_⟩
    apply ByteArray.ext
    simp [List.utf8Encode]

theorem isUtf8_ofString (text : String) : (ofString text).isUtf8 = true := by
  rw [isUtf8, ByteArray.validateUTF8_eq_true_iff]
  exact text.isValidUTF8

theorem isUtf8_nil : isUtf8 [] = true :=
  isUtf8_iff.mpr ⟨[], rfl⟩

theorem isUtf8_append {front back : Bytes} (first : front.isUtf8 = true)
    (second : back.isUtf8 = true) : (front ++ back).isUtf8 = true := by
  obtain ⟨chars, rfl⟩ := isUtf8_iff.mp first
  obtain ⟨more, rfl⟩ := isUtf8_iff.mp second
  exact isUtf8_iff.mpr ⟨chars ++ more, List.flatMap_append.symm⟩

theorem isUtf8_flatten {pieces : List Bytes} (valid : ∀ piece ∈ pieces, piece.isUtf8 = true) :
    isUtf8 pieces.flatten = true := by
  induction pieces with
  | nil => exact isUtf8_nil
  | cons piece pieces ih =>
    obtain ⟨first, more⟩ := List.forall_mem_cons.mp valid
    exact isUtf8_append first (ih more)

/-- The first character of a text and what follows it. -/
theorem exists_character {first : UInt8} {rest : Bytes} (valid : isUtf8 (first :: rest) = true) :
    ∃ inner more, rest = inner ++ more ∧ Spells first inner ∧ more.isUtf8 = true := by
  obtain ⟨chars, whole⟩ := isUtf8_iff.mp valid
  cases chars with
  | nil => cases whole
  | cons char chars =>
    obtain ⟨lead, inner, bytes, spells⟩ := spells_utf8EncodeChar char
    simp only [List.flatMap_cons, bytes, List.cons_append, List.cons.injEq] at whole
    obtain ⟨rfl, rfl⟩ := whole
    exact ⟨inner, _, rfl, spells, isUtf8_iff.mpr ⟨chars, rfl⟩⟩

theorem isInner_head {text : Bytes} (valid : text.isUtf8 = true) :
    ∀ byte ∈ text.head?, isInner byte = false := by
  intro byte head
  obtain ⟨rest, rfl⟩ := List.head?_eq_some_iff.mp head
  obtain ⟨inner, more, rfl, spells, -⟩ := exists_character valid
  exact spells.lead

/-- A cut in front of a byte that starts a character leaves text on both sides. -/
theorem isUtf8_of_cut {front back : Bytes} (valid : (front ++ back).isUtf8 = true)
    (starts : ∀ byte ∈ back.head?, isInner byte = false) :
    front.isUtf8 = true ∧ back.isUtf8 = true := by
  obtain ⟨chars, whole⟩ := isUtf8_iff.mp valid
  induction chars generalizing front with
  | nil =>
    obtain ⟨rfl, rfl⟩ := List.append_eq_nil_iff.mp whole
    exact ⟨isUtf8_nil, isUtf8_nil⟩
  | cons char chars ih =>
    obtain ⟨lead, inner, bytes, spells⟩ := spells_utf8EncodeChar char
    have character : isUtf8 (lead :: inner) = true :=
      isUtf8_iff.mpr ⟨[char], by simp [bytes]⟩
    rw [List.flatMap_cons, bytes] at whole
    rcases List.append_eq_append_iff.mp whole with ⟨cut, known, rest⟩ | ⟨more, rfl, rest⟩
    · cases front with
      | nil => exact ⟨isUtf8_nil, valid⟩
      | cons first front =>
        cases cut with
        | nil =>
          rw [List.append_nil] at known
          rw [← known]
          exact ⟨character, isUtf8_iff.mpr ⟨chars, rest⟩⟩
        | cons byte cut =>
          have inside := spells.inner byte (by
            rw [(List.cons.inj known).2]
            simp)
          rw [rest] at starts
          exact absurd (starts byte rfl) (by simp [inside])
    · have later : isUtf8 (more ++ back) = true := isUtf8_iff.mpr ⟨chars, rest.symm⟩
      obtain ⟨known, known'⟩ := ih later rest.symm
      exact ⟨isUtf8_append character known, known'⟩

theorem isUtf8_of_append {front back : Bytes} (valid : (front ++ back).isUtf8 = true)
    (known : back.isUtf8 = true) : front.isUtf8 = true :=
  (isUtf8_of_cut valid (isInner_head known)).1

theorem isUtf8_tail {byte : UInt8} {rest : Bytes} (ascii : isAscii byte = true)
    (valid : isUtf8 (byte :: rest) = true) : rest.isUtf8 = true := by
  obtain ⟨inner, more, rfl, spells, known⟩ := exists_character valid
  have width := spells.width
  rw [charWidth_of_isAscii ascii] at width
  obtain rfl := List.length_eq_zero_iff.mp (Nat.succ.inj width).symm
  exact known

/-- A byte of ASCII is a character of its own wherever it stands. -/
theorem isUtf8_around {front back : Bytes} {byte : UInt8} (ascii : isAscii byte = true)
    (valid : (front ++ byte :: back).isUtf8 = true) :
    front.isUtf8 = true ∧ isUtf8 (byte :: back) = true ∧ back.isUtf8 = true := by
  obtain ⟨first, second⟩ := isUtf8_of_cut valid (by
    rintro _ ⟨⟩
    exact isInner_of_isAscii ascii)
  exact ⟨first, second, isUtf8_tail ascii second⟩

theorem isUtf8_dropWhile {p : UInt8 → Bool} (ascii : ∀ byte, p byte = true → isAscii byte = true)
    {text : Bytes} (valid : text.isUtf8 = true) : isUtf8 (text.dropWhile p) = true := by
  induction text with
  | nil => exact valid
  | cons byte text ih =>
    rw [List.dropWhile_cons]
    split
    · rename_i found
      exact ih (isUtf8_tail (ascii byte found) valid)
    · exact valid

theorem isUtf8_trimEnd {text : Bytes} (valid : text.isUtf8 = true) :
    text.trimEnd.isUtf8 = true ∧ text.blankEnd.isUtf8 = true := by
  rw [← trimEnd_append_blankEnd text] at valid
  apply isUtf8_of_cut valid
  intro byte head
  apply isInner_of_isAscii
  apply isAscii_of_isBlank
  exact isBlank_of_mem_blankEnd (List.mem_of_mem_head? head)

theorem isUtf8_trim {text : Bytes} (valid : text.isUtf8 = true) : text.trim.isUtf8 = true :=
  (isUtf8_trimEnd (isUtf8_dropWhile (fun _ => isAscii_of_isBlank) valid)).1

/-- The byte behind a place tells whether both sides of it are text. -/
theorem isBoundary_iff {text : Bytes} (valid : text.isUtf8 = true) {place : Nat} :
    text.isBoundary place = true ↔ place ≤ text.length ∧ isUtf8 (text.take place) = true ∧
      isUtf8 (text.drop place) = true := by
  simp only [isBoundary, Bool.or_eq_true, beq_iff_eq, Option.any_eq_true, Bool.not_eq_true']
  constructor
  · rintro (rfl | ⟨byte, found, starts⟩)
    · simp [valid, isUtf8_nil]
    · refine ⟨(List.getElem?_eq_some_iff.mp found).1.le, ?_⟩
      apply isUtf8_of_cut
      · rwa [List.take_append_drop]
      · intro first head
        rw [List.head?_drop, found] at head
        cases head
        exact starts
  · rintro ⟨inside, -, known⟩
    rcases Nat.lt_or_eq_of_le inside with less | same
    · have found := List.getElem?_eq_getElem less
      refine .inr ⟨_, found, isInner_head known _ ?_⟩
      rw [List.head?_drop, found]
      rfl
    · exact .inl same

theorem isBoundary_append {front back : Bytes} (first : front.isUtf8 = true)
    (second : back.isUtf8 = true) : (front ++ back).isBoundary front.length = true := by
  rw [isBoundary_iff (isUtf8_append first second)]
  simp [first, second]

/-- The text from one place to another can be cut out: the places are in order, lie
inside the text and between its characters. -/
structure IsSlice (text : Bytes) (start stop : Nat) : Prop where
  ordered : start ≤ stop
  inside : stop ≤ text.length
  starts : text.isBoundary start = true
  stops : text.isBoundary stop = true

/-- The text from one place to another. -/
def slice (text : Bytes) (start stop : Nat) : Bytes :=
  (text.take stop).drop start

theorem IsSlice.isUtf8 {text : Bytes} {start stop : Nat} (cut : text.IsSlice start stop)
    (valid : text.isUtf8 = true) : (text.slice start stop).isUtf8 = true := by
  obtain ⟨-, -, later⟩ := (isBoundary_iff valid).mp cut.starts
  obtain ⟨-, -, behind⟩ := (isBoundary_iff valid).mp cut.stops
  have rest : text.drop start = text.slice start stop ++ text.drop stop := by
    have ordered := cut.ordered
    have inside := cut.inside
    rw [slice, ← List.drop_append_of_le_length (by simp; omega), List.take_append_drop]
  rw [rest] at later
  exact isUtf8_of_append later behind

/-- Text stands in front of a piece, in it and behind it. -/
theorem isSlice_append {front piece back : Bytes} (first : front.isUtf8 = true)
    (second : piece.isUtf8 = true) (third : back.isUtf8 = true) :
    (front ++ (piece ++ back)).IsSlice front.length (front ++ piece).length where
  ordered := by simp
  inside := by simp
  starts := isBoundary_append first (isUtf8_append second third)
  stops := by
    rw [← List.append_assoc]
    exact isBoundary_append (isUtf8_append first second) third

theorem slice_append (front piece back : Bytes) :
    (front ++ (piece ++ back)).slice front.length (front ++ piece).length = piece := by
  rw [slice, ← List.append_assoc, List.take_left, List.drop_left]

theorem isSlice_front {front back : Bytes} (first : front.isUtf8 = true)
    (second : back.isUtf8 = true) : (front ++ back).IsSlice 0 front.length :=
  isSlice_append isUtf8_nil first second

theorem isSlice_back {front back : Bytes} (first : front.isUtf8 = true)
    (second : back.isUtf8 = true) :
    (front ++ back).IsSlice front.length (front ++ back).length := by
  have known := isSlice_append first second isUtf8_nil
  rwa [List.append_nil] at known

/-- Pieces that make up a text, each of them a slice of it and text itself. -/
structure CutInto (text : Bytes) (pieces : List Bytes) : Prop where
  joined : pieces.flatten = text
  slices : ∀ front piece back, pieces = front ++ piece :: back →
    text.IsSlice front.flatten.length (front.flatten ++ piece).length
  valid : ∀ piece ∈ pieces, piece.isUtf8 = true

theorem cutInto_of_isUtf8 {text : Bytes} {pieces : List Bytes} (joined : pieces.flatten = text)
    (valid : ∀ piece ∈ pieces, piece.isUtf8 = true) : text.CutInto pieces := by
  constructor
  · exact joined
  · rintro front piece back rfl
    obtain ⟨first, rest⟩ := List.forall_mem_append.mp valid
    obtain ⟨second, third⟩ := List.forall_mem_cons.mp rest
    rw [← joined, List.flatten_append, List.flatten_cons]
    exact isSlice_append (isUtf8_flatten first) second (isUtf8_flatten third)
  · exact valid

end Bytes
end CssSort
