import CssSort.Proofs.Json.Grammar
import Mathlib.Data.List.TakeWhile
import Mathlib.Tactic.IntervalCases

/-! White space, marks and strings. What a reader takes from the front of a text is told by
the grammar, and a string goes to its closing quote. One that is decoded is read once more,
with its surrogates in pairs. -/
namespace CssSort.Json
open Ascii

section Tokens

variable {bytes rest : Bytes}

theorem skipBlanks_gap {gap : Bytes} (all : IsGap gap) (rest : Bytes) :
    skipBlanks (gap ++ rest) = skipBlanks rest :=
  List.dropWhile_append_of_pos all

theorem skipBlanks_cons {first : UInt8} (noBlank : isBlank first = false) (rest : Bytes) :
    skipBlanks (first :: rest) = first :: rest :=
  List.dropWhile_cons_of_neg (by simp [noBlank])

theorem exists_gap (bytes : Bytes) : ∃ gap, IsGap gap ∧ bytes = gap ++ skipBlanks bytes :=
  ⟨bytes.takeWhile isBlank, List.all_eq_true.mp List.all_takeWhile,
    List.takeWhile_append_dropWhile.symm⟩

theorem skipBlanks_skipBlanks (bytes : Bytes) :
    skipBlanks (skipBlanks bytes) = skipBlanks bytes := by
  obtain ⟨gap, all, whole⟩ := exists_gap bytes
  have same := skipBlanks_gap all (skipBlanks bytes)
  rwa [← whole, eq_comm] at same

theorem skipBlanks_eq_nil_iff : skipBlanks bytes = [] ↔ IsGap bytes :=
  List.dropWhile_eq_nil_iff

theorem gap_of_skipBlanks {first : UInt8} (ahead : skipBlanks bytes = first :: rest) :
    ∃ gap, IsGap gap ∧ bytes = gap ++ first :: rest := by
  obtain ⟨gap, all, whole⟩ := exists_gap bytes
  rw [ahead] at whole
  exact ⟨gap, all, whole⟩

theorem skipWord_eq_ok_iff {word : Bytes} :
    skipWord word bytes = .ok rest ↔ bytes = word ++ rest := by
  fun_induction skipWord word bytes with
  | case1 bytes => simp
  | case2 => simp
  | case3 wanted word bytes ih => simpa using ih
  | case4 wanted word byte bytes other => simp [other]

theorem skipMark_eq_ok_iff {mark : UInt8} (noBlank : isBlank mark = false) :
    skipMark mark bytes = .ok rest ↔ ∃ gap, IsGap gap ∧ bytes = gap ++ mark :: rest := by
  rw [skipMark, skipWord_eq_ok_iff]
  constructor
  · exact gap_of_skipBlanks
  · rintro ⟨gap, all, rfl⟩
    rw [skipBlanks_gap all, skipBlanks_cons noBlank]
    rfl

end Tokens

section Escapes

theorem byte_eq_ofNat {byte : UInt8} {base : Nat} (low : base ≤ byte.toNat) :
    byte = UInt8.ofNat (base + (byte.toNat - base)) := by
  rw [Nat.add_sub_cancel' low, UInt8.ofNat_toNat]

theorem hexDigit_of_range {byte : UInt8} {number : Nat} (read : hexDigit? byte = some number) :
    HexDigit byte number := by
  unfold hexDigit? isDigit at read
  simp only [Bool.and_eq_true, decide_eq_true_eq, UInt8.le_iff_toNat_le] at read
  split at read
  · rename_i range
    have low : 0x30 ≤ byte.toNat := range.1
    have high : byte.toNat ≤ 0x39 := range.2
    have valid : HexDigit (UInt8.ofNat (0x30 + (byte.toNat - 0x30))) (byte.toNat - 0x30) :=
      .decimal (by omega)
    rw [← byte_eq_ofNat low] at valid
    rwa [← Option.some.inj read]
  · split at read
    · rename_i range
      have low : 0x61 ≤ byte.toNat := range.1
      have high : byte.toNat ≤ 0x66 := range.2
      have valid : HexDigit (UInt8.ofNat (0x61 + (byte.toNat - 0x61))) (10 + (byte.toNat - 0x61)) :=
        .lower (by omega)
      rw [← byte_eq_ofNat low, Nat.add_comm 10] at valid
      rwa [← Option.some.inj read]
    · split at read
      · rename_i range
        have low : 0x41 ≤ byte.toNat := range.1
        have high : byte.toNat ≤ 0x46 := range.2
        have valid : HexDigit (UInt8.ofNat (0x41 + (byte.toNat - 0x41)))
            (10 + (byte.toNat - 0x41)) := .upper (by omega)
        rw [← byte_eq_ofNat low, Nat.add_comm 10] at valid
        rwa [← Option.some.inj read]
      · contradiction

theorem hexDigit?_eq_some_iff {byte : UInt8} {number : Nat} :
    hexDigit? byte = some number ↔ HexDigit byte number := by
  refine ⟨hexDigit_of_range, ?_⟩
  rintro (bound | bound | bound)
  · interval_cases number <;> rfl
  · rename_i number
    interval_cases number <;> rfl
  · rename_i number
    interval_cases number <;> rfl

theorem readUnit_eq_ok_iff {bytes rest : Bytes} {unit : Nat} :
    readUnit bytes = .ok (unit, rest) ↔ ∃ digits, HexUnit digits unit ∧ bytes = digits ++ rest := by
  constructor
  · intro read
    unfold readUnit at read
    split at read
    · rename_i a b c d behind
      split at read
      · rename_i digits found
        simp only [List.mapM_cons, List.mapM_nil, Option.pure_def, Option.bind_eq_bind,
          Option.bind_eq_some_iff, Option.some.injEq, hexDigit?_eq_some_iff] at found
        obtain ⟨i, first, _, ⟨j, second, _, ⟨k, third, _, ⟨l, fourth, _, rfl, rfl⟩, rfl⟩, rfl⟩,
          rfl⟩ := found
        obtain ⟨rfl, rfl⟩ := Prod.mk.inj (Except.ok.inj read)
        refine ⟨[a, b, c, d], ?_, rfl⟩
        simpa using HexUnit.digits first second third fourth
      · cases read
    · cases read
  · rintro ⟨_, ⟨first, second, third, fourth⟩, rfl⟩
    rw [← hexDigit?_eq_some_iff] at first second third fourth
    simp [readUnit, List.mapM_cons, first, second, third, fourth]

theorem shortEscape?_eq_some_iff {letter byte : UInt8} :
    shortEscape? letter = some byte ↔ (letter, byte) ∈ shortEscapes := by
  constructor
  · intro read
    unfold shortEscape? at read
    split at read
    · rename_i self
      obtain rfl := Option.some.inj read
      rcases self with rfl | rfl | rfl <;> decide
    · repeat' split at read
      all_goals simp_all [shortEscapes]
  · intro member
    simp only [shortEscapes, List.mem_cons, Prod.mk.injEq, List.not_mem_nil, or_false] at member
    rcases member with ⟨rfl, rfl⟩ | ⟨rfl, rfl⟩ | ⟨rfl, rfl⟩ | ⟨rfl, rfl⟩ | ⟨rfl, rfl⟩ | ⟨rfl, rfl⟩ |
      ⟨rfl, rfl⟩ | ⟨rfl, rfl⟩ <;> rfl

theorem shortEscape?_unicodeLetter : shortEscape? unicodeLetter = none := rfl

theorem IsLiteral.not_lt {byte : UInt8} (valid : IsLiteral byte) : ¬ byte < space :=
  UInt8.not_lt.mpr valid.noControl

end Escapes

section Skipping

theorem skipString_quote (rest : Bytes) : skipString (doubleQuote :: rest) = .ok rest := by
  unfold skipString
  rfl

theorem skipString_literal {byte : UInt8} (valid : IsLiteral byte) (rest : Bytes) :
    skipString (byte :: rest) = skipString rest := by
  conv_lhs => unfold skipString
  simp only [valid.noQuote, valid.noEscape, valid.not_lt, if_false]

theorem skipString_short {letter byte : UInt8} (member : (letter, byte) ∈ shortEscapes)
    (rest : Bytes) : skipString (backslash :: letter :: rest) = skipString rest := by
  have known : (shortEscape? letter).isSome = true := by
    rw [shortEscape?_eq_some_iff.mpr member]
    rfl
  conv_lhs => unfold skipString
  simp only [known, if_true]
  rfl

theorem skipString_unicode {digits : Bytes} {unit : Nat} (valid : HexUnit digits unit)
    (rest : Bytes) :
    skipString (backslash :: unicodeLetter :: (digits ++ rest)) = skipString rest := by
  have known : readUnit (digits ++ rest) = .ok (unit, rest) :=
    readUnit_eq_ok_iff.mpr ⟨digits, valid, rfl⟩
  conv_lhs => unfold skipString
  rw [if_neg (by decide), if_pos rfl]
  simp only [shortEscape?_unicodeLetter, Option.isSome_none, Bool.false_eq_true, if_false, if_true]
  split
  · simp_all
  · rename_i found
    rw [known] at found
    obtain ⟨-, rfl⟩ := Prod.mk.inj (Except.ok.inj found)
    rfl

theorem skipString_body {body : Bytes} (valid : IsBody body) (rest : Bytes) :
    skipString (body ++ doubleQuote :: rest) = .ok rest := by
  induction valid with
  | nil => exact skipString_quote rest
  | literal byte _ ih => rw [List.cons_append, skipString_literal byte, ih]
  | short member _ ih => rw [List.cons_append, List.cons_append, skipString_short member, ih]
  | unicode digits _ ih =>
    rw [List.cons_append, List.cons_append, List.append_assoc, skipString_unicode digits, ih]

theorem body_of_skipString {bytes rest : Bytes} (read : skipString bytes = .ok rest) :
    ∃ body, IsBody body ∧ bytes = body ++ doubleQuote :: rest := by
  fun_induction skipString bytes with
  | case1 => cases read
  | case2 behind =>
    obtain rfl := Except.ok.inj read
    exact ⟨[], .nil, rfl⟩
  | case3 => cases read
  | case4 letter behind escape _ ih =>
    obtain ⟨body, valid, rfl⟩ := ih read
    obtain ⟨byte, known⟩ := Option.isSome_iff_exists.mp escape
    exact ⟨backslash :: letter :: body, .short (shortEscape?_eq_some_iff.mp known) valid, rfl⟩
  | case5 => cases read
  | case6 behind unit more found _ _ ih =>
    obtain ⟨body, valid, rfl⟩ := ih read
    obtain ⟨digits, spelled, rfl⟩ := readUnit_eq_ok_iff.mp found
    exact ⟨backslash :: unicodeLetter :: (digits ++ body), .unicode spelled valid, by simp⟩
  | case7 => cases read
  | case8 => cases read
  | case9 byte behind noQuote noEscape noControl ih =>
    obtain ⟨body, valid, rfl⟩ := ih read
    exact ⟨byte :: body, .literal ⟨noQuote, noEscape, UInt8.not_lt.mp noControl⟩ valid, rfl⟩

theorem skipString_eq_ok_iff {bytes rest : Bytes} : skipString bytes = .ok rest ↔
    ∃ body, IsBody body ∧ bytes = body ++ doubleQuote :: rest := by
  refine ⟨body_of_skipString, ?_⟩
  rintro ⟨body, valid, rfl⟩
  exact skipString_body valid rest

end Skipping

section Reading

theorem isLeading_iff {unit : Nat} : isLeading unit = true ↔
    ∃ high, high < 0x400 ∧ unit = 0xD800 + high := by
  simp only [isLeading, Bool.and_eq_true, decide_eq_true_eq]
  constructor
  · exact fun range => ⟨unit - 0xD800, by omega, by omega⟩
  · rintro ⟨high, small, rfl⟩
    omega

theorem isTrailing_iff {unit : Nat} : isTrailing unit = true ↔
    ∃ low, low < 0x400 ∧ unit = 0xDC00 + low := by
  simp only [isTrailing, Bool.and_eq_true, decide_eq_true_eq]
  constructor
  · exact fun range => ⟨unit - 0xDC00, by omega, by omega⟩
  · rintro ⟨low, small, rfl⟩
    omega

theorem pairedChar_eq (high low : Nat) : pairedChar (0xD800 + high) (0xDC00 + low) =
    Char.ofNat (0x10000 + high * 0x400 + low) := by
  have sum : (0xD800 + high - 0xD800) * 0x400 + (0xDC00 + low - 0xDC00) + 0x10000 =
      0x10000 + high * 0x400 + low := by omega
  rw [pairedChar, sum]

theorem escapes_of_readUnicode {bytes text rest : Bytes}
    (read : readUnicode bytes = .ok (text, rest)) :
    ∃ spelled, Escapes (unicodeLetter :: spelled) text ∧ bytes = spelled ++ rest := by
  unfold readUnicode at read
  split at read
  · cases read
  · rename_i unit behind first
    obtain ⟨digits, valid, rfl⟩ := readUnit_eq_ok_iff.mp first
    split at read
    · cases read
    · rename_i noTrailing
      split at read
      · rename_i leads
        obtain ⟨high, small, rfl⟩ := isLeading_iff.mp leads
        split at read
        · cases read
        · rename_i mark
          obtain rfl := skipWord_eq_ok_iff.mp mark
          split at read
          · cases read
          · rename_i second
            obtain ⟨more, valid', rfl⟩ := readUnit_eq_ok_iff.mp second
            split at read
            · rename_i trails
              obtain ⟨low, small', rfl⟩ := isTrailing_iff.mp trails
              obtain ⟨rfl, rfl⟩ := Prod.mk.inj (Except.ok.inj read)
              rw [pairedChar_eq]
              exact ⟨_, .pair small small' valid valid', by simp⟩
            · cases read
      · rename_i noLeading
        obtain ⟨rfl, rfl⟩ := Prod.mk.inj (Except.ok.inj read)
        refine ⟨digits, .single valid ?_, rfl⟩
        rw [isTrailing_iff] at noTrailing
        rw [isLeading_iff] at noLeading
        by_contra surrogate
        rcases Nat.lt_or_ge unit 0xDC00 with leads | trails
        · exact noLeading ⟨unit - 0xD800, by omega, by omega⟩
        · exact noTrailing ⟨unit - 0xDC00, by omega, by omega⟩

theorem readUnicode_single {digits : Bytes} {unit : Nat} (valid : HexUnit digits unit)
    (alone : unit < 0xD800 ∨ 0xE000 ≤ unit) (rest : Bytes) :
    readUnicode (digits ++ rest) = .ok (String.utf8EncodeChar (Char.ofNat unit), rest) := by
  have known : readUnit (digits ++ rest) = .ok (unit, rest) :=
    readUnit_eq_ok_iff.mpr ⟨digits, valid, rfl⟩
  have noTrailing : isTrailing unit = false := by
    rw [Bool.eq_false_iff, ne_eq, isTrailing_iff]
    omega
  have noLeading : isLeading unit = false := by
    rw [Bool.eq_false_iff, ne_eq, isLeading_iff]
    omega
  simp [readUnicode, known, noTrailing, noLeading]

theorem readUnicode_pair {leading trailing : Bytes} {high low : Nat} (small : high < 0x400)
    (small' : low < 0x400) (first : HexUnit leading (0xD800 + high))
    (second : HexUnit trailing (0xDC00 + low)) (rest : Bytes) :
    readUnicode (leading ++ backslash :: unicodeLetter :: (trailing ++ rest)) =
      .ok (String.utf8EncodeChar (Char.ofNat (0x10000 + high * 0x400 + low)), rest) := by
  have known : readUnit (leading ++ backslash :: unicodeLetter :: (trailing ++ rest)) = .ok _ :=
    readUnit_eq_ok_iff.mpr ⟨leading, first, rfl⟩
  have known' : readUnit (trailing ++ rest) = .ok (0xDC00 + low, rest) :=
    readUnit_eq_ok_iff.mpr ⟨trailing, second, rfl⟩
  have mark : skipWord [backslash, unicodeLetter]
      (backslash :: unicodeLetter :: (trailing ++ rest)) = .ok (trailing ++ rest) :=
    skipWord_eq_ok_iff.mpr rfl
  have noTrailing : isTrailing (0xD800 + high) = false := by
    rw [Bool.eq_false_iff, ne_eq, isTrailing_iff]
    omega
  have leads : isLeading (0xD800 + high) = true := isLeading_iff.mpr ⟨high, small, rfl⟩
  have trails : isTrailing (0xDC00 + low) = true := isTrailing_iff.mpr ⟨low, small', rfl⟩
  simp only [readUnicode, known, known', mark, noTrailing, leads, trails, pairedChar_eq,
    Bool.false_eq_true, if_false, if_true]

theorem readEscape_eq_ok_iff {bytes text rest : Bytes} : readEscape bytes = .ok (text, rest) ↔
    ∃ spelled, Escapes spelled text ∧ bytes = spelled ++ rest := by
  constructor
  · intro read
    cases bytes with
    | nil => cases read
    | cons letter behind =>
      simp only [readEscape] at read
      split at read
      · rename_i byte known
        obtain ⟨rfl, rfl⟩ := Prod.mk.inj (Except.ok.inj read)
        exact ⟨[letter], .short (shortEscape?_eq_some_iff.mp known), rfl⟩
      · split at read
        · rename_i unicode
          subst unicode
          obtain ⟨spelled, valid, rfl⟩ := escapes_of_readUnicode read
          exact ⟨unicodeLetter :: spelled, valid, rfl⟩
        · cases read
  · rintro ⟨spelled, valid, rfl⟩
    cases valid with
    | short member => simp [readEscape, shortEscape?_eq_some_iff.mpr member]
    | single valid alone =>
      simp only [List.cons_append, readEscape, shortEscape?_unicodeLetter, if_true]
      exact readUnicode_single valid alone rest
    | pair small small' first second =>
      simp only [List.cons_append, List.append_assoc, readEscape, shortEscape?_unicodeLetter,
        if_true]
      exact readUnicode_pair small small' first second rest

theorem readStringFrom_quote (decoded rest : Bytes) :
    readStringFrom decoded (doubleQuote :: rest) = .ok (decoded.reverse, rest) := by
  unfold readStringFrom
  rfl

theorem readStringFrom_literal {byte : UInt8} (valid : IsLiteral byte) (decoded rest : Bytes) :
    readStringFrom decoded (byte :: rest) = readStringFrom (byte :: decoded) rest := by
  conv_lhs => unfold readStringFrom
  simp only [valid.noQuote, valid.noEscape, valid.not_lt, if_false]

theorem readStringFrom_escape {spelled read : Bytes} (valid : Escapes spelled read)
    (decoded rest : Bytes) : readStringFrom decoded (backslash :: (spelled ++ rest)) =
      readStringFrom (read.reverse ++ decoded) rest := by
  have known : readEscape (spelled ++ rest) = .ok (read, rest) :=
    readEscape_eq_ok_iff.mpr ⟨spelled, valid, rfl⟩
  conv_lhs => unfold readStringFrom
  rw [if_neg (by decide), if_pos rfl]
  split
  · simp_all
  · rename_i found
    rw [known] at found
    obtain ⟨rfl, rfl⟩ := Prod.mk.inj (Except.ok.inj found)
    rfl

theorem readStringFrom_body {body text : Bytes} (valid : Decodes body text) (decoded rest : Bytes) :
    readStringFrom decoded (body ++ doubleQuote :: rest) = .ok (decoded.reverse ++ text, rest) := by
  induction valid generalizing decoded with
  | nil => rw [List.nil_append, readStringFrom_quote, List.append_nil]
  | literal byte _ ih =>
    rw [List.cons_append, readStringFrom_literal byte, ih]
    simp
  | escape spelled _ ih =>
    rw [List.cons_append, List.append_assoc, readStringFrom_escape spelled, ih]
    simp

theorem decodes_of_readStringFrom {decoded bytes text rest : Bytes}
    (read : readStringFrom decoded bytes = .ok (text, rest)) :
    ∃ body tail, Decodes body tail ∧ text = decoded.reverse ++ tail ∧
      bytes = body ++ doubleQuote :: rest := by
  fun_induction readStringFrom decoded bytes with
  | case1 => cases read
  | case2 decoded behind =>
    obtain ⟨rfl, rfl⟩ := Prod.mk.inj (Except.ok.inj read)
    exact ⟨[], [], .nil, by simp, rfl⟩
  | case3 => cases read
  | case4 decoded behind escaped more escape _ ih =>
    obtain ⟨body, tail, valid, rfl, rfl⟩ := ih read
    obtain ⟨spelled, valid', rfl⟩ := readEscape_eq_ok_iff.mp escape
    exact ⟨backslash :: (spelled ++ body), escaped ++ tail, .escape valid' valid, by simp, by simp⟩
  | case5 => cases read
  | case6 decoded byte behind noQuote noEscape noControl ih =>
    obtain ⟨body, tail, valid, rfl, rfl⟩ := ih read
    have literal : IsLiteral byte := ⟨noQuote, noEscape, UInt8.not_lt.mp noControl⟩
    exact ⟨byte :: body, byte :: tail, .literal literal valid, by simp, rfl⟩

theorem readString_eq_ok_iff {bytes text rest : Bytes} : readString bytes = .ok (text, rest) ↔
    ∃ body, Decodes body text ∧ bytes = body ++ doubleQuote :: rest := by
  constructor
  · intro read
    obtain ⟨body, tail, valid, rfl, whole⟩ := decodes_of_readStringFrom read
    exact ⟨body, valid, whole⟩
  · rintro ⟨body, valid, rfl⟩
    exact readStringFrom_body valid [] rest

end Reading

end CssSort.Json
