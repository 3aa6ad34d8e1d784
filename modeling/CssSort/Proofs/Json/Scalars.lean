import CssSort.Proofs.Json.Text

/-! Values without parts. A number goes as far as it can, so it has to be followed by a byte
that cannot continue it. A word or a string ends by itself. -/
namespace CssSort.Json
open Ascii

section Numbers

variable {incomplete : Fault} {bytes rest : Bytes}

/-- What stands here cannot continue a number. -/
def EndsNumber (rest : Bytes) : Prop :=
  ∀ byte ∈ rest.head?, isDigit byte = false ∧ byte ≠ 0x2E ∧ byte ≠ 0x65 ∧ byte ≠ 0x45

theorem readDigits_eq_ok_iff {digits : Bytes} : readDigits incomplete bytes = .ok (digits, rest) ↔
    IsDigits digits ∧ bytes = digits ++ rest ∧ ∀ byte ∈ rest.head?, isDigit byte = false := by
  constructor
  · intro read
    unfold readDigits at read
    split at read
    · cases read
    · rename_i taken
      obtain ⟨rfl, rfl⟩ := Prod.mk.inj (Except.ok.inj read)
      refine ⟨⟨taken, List.all_eq_true.mp List.all_takeWhile⟩,
        List.takeWhile_append_dropWhile.symm, fun byte head => ?_⟩
      have stop := List.head?_dropWhile_not isDigit bytes
      rw [Option.mem_def.mp head] at stop
      simpa using stop
  · rintro ⟨valid, rfl, stop⟩
    have ended : rest.takeWhile isDigit = [] ∧ rest.dropWhile isDigit = rest := by
      cases rest with
      | nil => exact ⟨rfl, rfl⟩
      | cons first rest => simp [stop first rfl]
    have taken : (digits ++ rest).takeWhile isDigit = digits := by
      rw [List.takeWhile_append_of_pos valid.all, ended.1, List.append_nil]
    have left : (digits ++ rest).dropWhile isDigit = rest := by
      rw [List.dropWhile_append_of_pos valid.all, ended.2]
    unfold readDigits
    rw [taken, left]
    split
    · exact absurd rfl valid.ne_nil
    · rfl

theorem isWhole_iff {digits : Bytes} (valid : IsDigits digits) :
    IsWhole digits ↔ ¬ (digits.head? = some 0x30 ∧ digits.length ≠ 1) := by
  constructor
  · rintro ⟨-, noZero⟩ ⟨zero, long⟩
    rw [noZero zero] at long
    exact long rfl
  · intro noZero
    refine ⟨valid, fun zero => ?_⟩
    have short : digits.length = 1 := by
      by_contra long
      exact noZero ⟨zero, long⟩
    obtain ⟨digit, rfl⟩ := List.length_eq_one_iff.mp short
    rw [Option.some.inj zero]

theorem readWhole_eq_ok_iff {digits : Bytes} : readWhole incomplete bytes = .ok (digits, rest) ↔
    IsWhole digits ∧ bytes = digits ++ rest ∧ ∀ byte ∈ rest.head?, isDigit byte = false := by
  constructor
  · intro read
    unfold readWhole at read
    split at read
    · cases read
    · rename_i found
      obtain ⟨valid, whole⟩ := readDigits_eq_ok_iff.mp found
      split at read
      · cases read
      · rename_i noZero
        obtain ⟨rfl, rfl⟩ := Prod.mk.inj (Except.ok.inj read)
        exact ⟨(isWhole_iff valid).mpr noZero, whole⟩
  · rintro ⟨valid, whole⟩
    have found : readDigits incomplete bytes = .ok (digits, rest) :=
      readDigits_eq_ok_iff.mpr ⟨valid.toIsDigits, whole⟩
    simp only [readWhole, found]
    rw [if_neg ((isWhole_iff valid.toIsDigits).mp valid)]

theorem fraction_of_readFraction {digits : Bytes}
    (read : readFraction incomplete bytes = .ok (digits, rest)) :
    ∃ text, IsFraction text ∧ bytes = text ++ rest := by
  cases bytes with
  | nil =>
    obtain ⟨-, rfl⟩ := Prod.mk.inj (Except.ok.inj read)
    exact ⟨[], .absent, rfl⟩
  | cons first behind =>
    simp only [readFraction] at read
    split at read
    · rename_i point
      obtain ⟨valid, rfl, -⟩ := readDigits_eq_ok_iff.mp read
      exact ⟨first :: digits, by rw [point]; exact .present valid, rfl⟩
    · obtain ⟨-, rfl⟩ := Prod.mk.inj (Except.ok.inj read)
      exact ⟨[], .absent, rfl⟩

theorem readFraction_text {text : Bytes} (valid : IsFraction text)
    (stop : ∀ byte ∈ rest.head?, isDigit byte = false ∧ byte ≠ 0x2E) :
    ∃ digits, readFraction incomplete (text ++ rest) = .ok (digits, rest) := by
  cases valid with
  | absent =>
    cases rest with
    | nil => exact ⟨[], rfl⟩
    | cons first rest => exact ⟨[], if_neg (stop first rfl).2⟩
  | @present digits valid =>
    refine ⟨digits, ?_⟩
    rw [List.cons_append, readFraction, if_pos rfl]
    exact readDigits_eq_ok_iff.mpr ⟨valid, rfl, fun byte head => (stop byte head).1⟩

theorem sign_of_readSign (bytes : Bytes) : ∃ sign,
    (sign = [] ∨ sign = [0x2B] ∨ sign = [dash]) ∧ bytes = sign ++ (readSign bytes).2 := by
  unfold readSign
  split
  · exact ⟨[], .inl rfl, rfl⟩
  · split
    · rename_i minus
      exact ⟨[dash], .inr (.inr rfl), by rw [minus]; rfl⟩
    · split
      · rename_i plus
        exact ⟨[0x2B], .inr (.inl rfl), by rw [plus]; rfl⟩
      · exact ⟨[], .inl rfl, rfl⟩

/-- A digit is no sign, so no sign is taken from digits. -/
theorem readSign_text {sign digits : Bytes} (signed : sign = [] ∨ sign = [0x2B] ∨ sign = [dash])
    (valid : IsDigits digits) (rest : Bytes) :
    (readSign (sign ++ (digits ++ rest))).2 = digits ++ rest := by
  rcases signed with rfl | rfl | rfl
  · cases digits with
    | nil => exact absurd rfl valid.ne_nil
    | cons first more =>
      have digit := valid.all first List.mem_cons_self
      have noDash : first ≠ dash := by
        rintro rfl
        exact absurd digit (by decide)
      have noPlus : first ≠ 0x2B := by
        rintro rfl
        exact absurd digit (by decide)
      simp [readSign, noDash, noPlus]
  · rfl
  · rfl

theorem exponent_of_readExponent {exponent : Int}
    (read : readExponent incomplete bytes = .ok (exponent, rest)) :
    ∃ text, IsExponent text ∧ bytes = text ++ rest := by
  cases bytes with
  | nil =>
    obtain ⟨-, rfl⟩ := Prod.mk.inj (Except.ok.inj read)
    exact ⟨[], .absent, rfl⟩
  | cons letter behind =>
    simp only [readExponent] at read
    split at read
    · rename_i marked
      split at read
      · cases read
      · rename_i digits more found
        obtain ⟨-, rfl⟩ := Prod.mk.inj (Except.ok.inj read)
        obtain ⟨valid, whole, -⟩ := readDigits_eq_ok_iff.mp found
        obtain ⟨sign, signed, same⟩ := sign_of_readSign behind
        refine ⟨letter :: (sign ++ digits), .present marked signed valid, ?_⟩
        rw [same, whole]
        simp
    · obtain ⟨-, rfl⟩ := Prod.mk.inj (Except.ok.inj read)
      exact ⟨[], .absent, rfl⟩

theorem readExponent_text {text : Bytes} (valid : IsExponent text) (stop : EndsNumber rest) :
    ∃ exponent, readExponent incomplete (text ++ rest) = .ok (exponent, rest) := by
  cases valid with
  | absent =>
    cases rest with
    | nil => exact ⟨0, rfl⟩
    | cons first rest =>
      obtain ⟨-, -, noLower, noUpper⟩ := stop first rfl
      exact ⟨0, if_neg (by simp [noLower, noUpper])⟩
  | @present letter sign digits marked signed valid =>
    have found : readDigits incomplete (digits ++ rest) = .ok (digits, rest) :=
      readDigits_eq_ok_iff.mpr ⟨valid, rfl, fun byte head => (stop byte head).1⟩
    rw [List.cons_append, List.append_assoc, readExponent, if_pos marked,
      readSign_text signed valid, found]
    exact ⟨_, rfl⟩

/-- Behind the fraction stands neither a digit nor a second point. -/
theorem stop_exponent {exponent : Bytes} (valid : IsExponent exponent) (stop : EndsNumber rest) :
    ∀ byte ∈ (exponent ++ rest).head?, isDigit byte = false ∧ byte ≠ 0x2E := by
  intro byte head
  cases valid with
  | absent => exact ⟨(stop byte head).1, (stop byte head).2.1⟩
  | present marked =>
    obtain rfl := Option.some.inj head
    rcases marked with rfl | rfl <;> decide

theorem stop_fraction {fraction exponent : Bytes} (valid : IsFraction fraction)
    (valid' : IsExponent exponent) (stop : EndsNumber rest) :
    ∀ byte ∈ (fraction ++ (exponent ++ rest)).head?, isDigit byte = false := by
  intro byte head
  cases valid with
  | absent => exact (stop_exponent valid' stop byte head).1
  | present =>
    obtain rfl := Option.some.inj head
    decide

theorem parts_of_readNumeral {numeral : Numeral}
    (read : readNumeral incomplete bytes = .ok (numeral, rest)) :
    ∃ whole fraction exponent, IsWhole whole ∧ IsFraction fraction ∧ IsExponent exponent ∧
      bytes = whole ++ (fraction ++ (exponent ++ rest)) := by
  unfold readNumeral at read
  split at read
  · cases read
  · rename_i whole _ readWhole
    obtain ⟨first, rfl, -⟩ := readWhole_eq_ok_iff.mp readWhole
    split at read
    · cases read
    · rename_i readFraction
      obtain ⟨fraction, second, rfl⟩ := fraction_of_readFraction readFraction
      split at read
      · cases read
      · rename_i readExponent
        obtain ⟨exponent, third, rfl⟩ := exponent_of_readExponent readExponent
        obtain ⟨-, rfl⟩ := Prod.mk.inj (Except.ok.inj read)
        exact ⟨whole, fraction, exponent, first, second, third, rfl⟩

theorem readNumeral_parts {whole fraction exponent : Bytes} (first : IsWhole whole)
    (second : IsFraction fraction) (third : IsExponent exponent) (stop : EndsNumber rest) :
    ∃ numeral, readNumeral incomplete (whole ++ (fraction ++ (exponent ++ rest))) =
      .ok (numeral, rest) := by
  have readWhole : readWhole incomplete (whole ++ (fraction ++ (exponent ++ rest))) = .ok _ :=
    readWhole_eq_ok_iff.mpr ⟨first, rfl, stop_fraction second third stop⟩
  obtain ⟨digits, readFraction⟩ : ∃ digits,
      readFraction incomplete (fraction ++ (exponent ++ rest)) = .ok (digits, exponent ++ rest) :=
    readFraction_text second (stop_exponent third stop)
  obtain ⟨power, readExponent⟩ : ∃ power,
      readExponent incomplete (exponent ++ rest) = .ok (power, rest) := readExponent_text third stop
  exact ⟨⟨whole, digits, power⟩, by simp only [readNumeral, readWhole, readFraction, readExponent]⟩

theorem number_of_skipNumber {first : UInt8} (read : skipNumber first bytes = .ok rest) :
    ∃ text, IsNumber text ∧ first :: bytes = text ++ rest := by
  unfold skipNumber at read
  split at read
  · cases read
  · rename_i found
    obtain rfl := Except.ok.inj read
    obtain ⟨whole, fraction, exponent, valid, valid', valid'', parts⟩ := parts_of_readNumeral found
    split at parts
    · rename_i minus
      refine ⟨_, .parts (.inr rfl) valid valid' valid'', ?_⟩
      rw [minus, parts]
      simp
    · refine ⟨_, .parts (.inl rfl) valid valid' valid'', ?_⟩
      rw [parts]
      simp

/-- The first byte tells a number from any other value. -/
theorem skipNumber_text {text : Bytes} (valid : IsNumber text) (stop : EndsNumber rest) :
    ∃ first more, text = first :: more ∧ (first = dash ∨ isDigit first = true) ∧
      skipNumber first (more ++ rest) = .ok rest := by
  cases valid with
  | @parts sign whole fraction exponent signed first second third =>
    obtain ⟨numeral, read⟩ : ∃ numeral, readNumeral .malformed
        (whole ++ (fraction ++ (exponent ++ rest))) = .ok (numeral, rest) :=
      readNumeral_parts first second third stop
    rcases signed with rfl | rfl
    · cases whole with
      | nil => exact absurd rfl first.ne_nil
      | cons digit more =>
        have isDigit := first.all digit List.mem_cons_self
        have noDash : digit ≠ dash := by
          rintro rfl
          exact absurd isDigit (by decide)
        refine ⟨digit, more ++ (fraction ++ exponent), rfl, .inr isDigit, ?_⟩
        simp only [skipNumber, if_neg noDash]
        simp only [List.append_assoc, ← List.cons_append, read]
    · refine ⟨dash, whole ++ (fraction ++ exponent), rfl, .inl rfl, ?_⟩
      simp only [skipNumber, if_true, List.append_assoc, read]

end Numbers

section Scalars

variable {first : UInt8} {bytes rest : Bytes}

theorem scalar_of_skipWord {tail : Bytes} (member : first :: tail ∈ words)
    (read : skipWord tail bytes = .ok rest) :
    ∃ text, IsScalar text ∧ first :: bytes = text ++ rest := by
  obtain rfl := skipWord_eq_ok_iff.mp read
  exact ⟨first :: tail, .word member, rfl⟩

theorem scalar_of_skipScalar (read : skipScalar first bytes = .ok rest) :
    ∃ text, IsScalar text ∧ first :: bytes = text ++ rest := by
  unfold skipScalar at read
  split at read
  · rename_i null
    rw [null]
    exact scalar_of_skipWord (by decide) read
  · split at read
    · rename_i true
      rw [true]
      exact scalar_of_skipWord (by decide) read
    · split at read
      · rename_i false
        rw [false]
        exact scalar_of_skipWord (by decide) read
      · split at read
        · obtain ⟨text, valid, whole⟩ := number_of_skipNumber read
          exact ⟨text, .number valid, whole⟩
        · split at read
          · rename_i quote
            obtain ⟨body, valid, rfl⟩ := skipString_eq_ok_iff.mp read
            exact ⟨_, .string valid, by simp [quote]⟩
          · cases read

theorem skipScalar_word {word : Bytes} (member : word ∈ words) (rest : Bytes) :
    ∃ first more, word = first :: more ∧ skipScalar first (more ++ rest) = .ok rest := by
  simp only [words, List.mem_cons, List.not_mem_nil, or_false] at member
  rcases member with rfl | rfl | rfl
  all_goals exact ⟨_, _, rfl, skipWord_eq_ok_iff.mpr rfl⟩

theorem skipScalar_number (start : first = dash ∨ isDigit first = true) (bytes : Bytes) :
    skipScalar first bytes = skipNumber first bytes := by
  have other : first ≠ 0x6E ∧ first ≠ 0x74 ∧ first ≠ 0x66 := by
    refine ⟨?_, ?_, ?_⟩ <;> rintro rfl <;> revert start <;> decide
  simp only [skipScalar, other, if_false, if_pos start]

/-- Of all scalars only a number depends on what follows it. -/
theorem skipScalar_text {text : Bytes} (valid : IsScalar text) (stop : EndsNumber rest) :
    ∃ first more, text = first :: more ∧ skipScalar first (more ++ rest) = .ok rest := by
  cases valid with
  | word member => exact skipScalar_word member rest
  | number valid =>
    obtain ⟨first, more, rfl, start, read⟩ := skipNumber_text valid stop
    exact ⟨first, more, rfl, (skipScalar_number start _).trans read⟩
  | @string body valid =>
    refine ⟨doubleQuote, body ++ [doubleQuote], rfl, ?_⟩
    rw [List.append_assoc]
    exact skipString_body valid rest

end Scalars

end CssSort.Json
