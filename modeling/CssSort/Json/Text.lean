import CssSort.Json.Token

/-! JSON strings, from behind the opening quote. Reading one decodes its escapes,
so a surrogate has to come with its partner. Skipping one only looks at its
shape. -/
namespace CssSort.Json
open Ascii

/-- The byte that a one-letter escape stands for. -/
def shortEscape? (letter : UInt8) : Option UInt8 :=
  if letter = doubleQuote ∨ letter = backslash ∨ letter = slash then some letter
  else if letter = 0x62 then some 0x08
  else if letter = 0x66 then some formFeed
  else if letter = 0x6E then some lineFeed
  else if letter = 0x72 then some carriageReturn
  else if letter = 0x74 then some tab
  else none

/-- The letter that announces four hexadecimal digits. -/
abbrev unicodeLetter : UInt8 := 0x75

def hexDigit? (byte : UInt8) : Option Nat :=
  if isDigit byte then some (byte.toNat - 0x30)
  else if 0x61 ≤ byte ∧ byte ≤ 0x66 then some (byte.toNat - 0x61 + 10)
  else if 0x41 ≤ byte ∧ byte ≤ 0x46 then some (byte.toNat - 0x41 + 10)
  else none

/-- Takes four hexadecimal digits. Four bytes are taken before they are looked
at, so a text that stops among them is at its end. -/
def readUnit : Bytes → Except Fault (Nat × Bytes)
  | a :: b :: c :: d :: rest =>
    match [a, b, c, d].mapM hexDigit? with
    | some digits => .ok (digits.foldl (fun unit digit => unit * 16 + digit) 0, rest)
    | none => .error .malformed
  | _ => .error .endOfInput

theorem length_readUnit {bytes rest : Bytes} {unit : Nat}
    (read : readUnit bytes = .ok (unit, rest)) : rest.length ≤ bytes.length := by
  unfold readUnit at read
  split at read
  · split at read
    · cases read
      simp only [List.length_cons]
      omega
    · cases read
  · cases read

def isLeading (unit : Nat) : Bool :=
  0xD800 ≤ unit && unit ≤ 0xDBFF

def isTrailing (unit : Nat) : Bool :=
  0xDC00 ≤ unit && unit ≤ 0xDFFF

/-- The character that a pair of surrogates stands for. -/
def pairedChar (leading trailing : Nat) : Char :=
  Char.ofNat ((leading - 0xD800) * 0x400 + (trailing - 0xDC00) + 0x10000)

/-- Takes the digits of a Unicode escape, and the second escape of a pair. -/
def readUnicode (bytes : Bytes) : Except Fault (Bytes × Bytes) :=
  match readUnit bytes with
  | .error fault => .error fault
  | .ok (unit, rest) =>
    if isTrailing unit then .error .malformed
    else if isLeading unit then
      match skipWord [backslash, unicodeLetter] rest with
      | .error fault => .error fault
      | .ok rest =>
        match readUnit rest with
        | .error fault => .error fault
        | .ok (second, rest) =>
          if isTrailing second then .ok (String.utf8EncodeChar (pairedChar unit second), rest)
          else .error .malformed
    else .ok (String.utf8EncodeChar (Char.ofNat unit), rest)

/-- Takes an escape behind its backslash and gives the bytes it stands for. -/
def readEscape : Bytes → Except Fault (Bytes × Bytes)
  | [] => .error .endOfInput
  | letter :: rest =>
    match shortEscape? letter with
    | some byte => .ok ([byte], rest)
    | none => if letter = unicodeLetter then readUnicode rest else .error .malformed

theorem length_readUnicode {bytes decoded rest : Bytes}
    (read : readUnicode bytes = .ok (decoded, rest)) : rest.length ≤ bytes.length := by
  unfold readUnicode at read
  split at read
  · cases read
  · rename_i unit first readFirst
    have firstLength := length_readUnit readFirst
    split at read
    · cases read
    · split at read
      · split at read
        · cases read
        · rename_i mark
          have markLength := length_skipWord mark
          split at read
          · cases read
          · rename_i second behind readSecond
            have secondLength := length_readUnit readSecond
            split at read
            · obtain ⟨-, rfl⟩ := Prod.mk.inj (Except.ok.inj read)
              omega
            · cases read
      · obtain ⟨-, rfl⟩ := Prod.mk.inj (Except.ok.inj read)
        exact firstLength

theorem length_readEscape {bytes decoded rest : Bytes}
    (read : readEscape bytes = .ok (decoded, rest)) : rest.length ≤ bytes.length := by
  unfold readEscape at read
  split at read
  · cases read
  · split at read
    · cases read
      exact Nat.le_succ _
    · split at read
      · exact Nat.le_succ_of_le (length_readUnicode read)
      · cases read

/-- Reads a string. The bytes decoded so far are kept in reverse. -/
def readStringFrom (decoded bytes : Bytes) : Except Fault (Bytes × Bytes) :=
  match bytes with
  | [] => .error .endOfInput
  | byte :: rest =>
    if byte = doubleQuote then .ok (decoded.reverse, rest)
    else if byte = backslash then
      match _ : readEscape rest with
      | .error fault => .error fault
      | .ok (escaped, rest) => readStringFrom (escaped.reverse ++ decoded) rest
    else if byte < space then .error .malformed
    else readStringFrom (byte :: decoded) rest
termination_by bytes.length
decreasing_by
  · exact Nat.lt_succ_of_le (length_readEscape (by assumption))
  · exact Nat.lt_succ_self _

def readString (bytes : Bytes) : Except Fault (Bytes × Bytes) :=
  readStringFrom [] bytes

theorem length_readStringFrom {decoded bytes text rest : Bytes}
    (read : readStringFrom decoded bytes = .ok (text, rest)) : rest.length ≤ bytes.length := by
  fun_induction readStringFrom decoded bytes with
  | case1 => cases read
  | case2 decoded => cases read; exact Nat.le_succ _
  | case3 => cases read
  | case4 decoded behind escaped more escape _ ih =>
    have escapeLength := length_readEscape escape
    exact Nat.le_succ_of_le (Nat.le_trans (ih read) escapeLength)
  | case5 => cases read
  | case6 decoded byte behind _ _ _ ih => exact Nat.le_succ_of_le (ih read)

theorem length_readString {bytes text rest : Bytes}
    (read : readString bytes = .ok (text, rest)) : rest.length ≤ bytes.length :=
  length_readStringFrom read

/-- Passes over a string without decoding it, so a surrogate may stand alone. -/
def skipString (bytes : Bytes) : Except Fault Bytes :=
  match bytes with
  | [] => .error .endOfInput
  | byte :: rest =>
    if byte = doubleQuote then .ok rest
    else if byte = backslash then
      match rest with
      | [] => .error .endOfInput
      | letter :: rest =>
        if (shortEscape? letter).isSome then skipString rest
        else if letter = unicodeLetter then
          match _ : readUnit rest with
          | .error fault => .error fault
          | .ok (_, rest) => skipString rest
        else .error .malformed
    else if byte < space then .error .malformed
    else skipString rest
termination_by bytes.length
decreasing_by
  · simp only [List.length_cons]
    omega
  · have unitLength := length_readUnit (by assumption)
    simp only [List.length_cons]
    omega
  · exact Nat.lt_succ_self _

theorem length_skipString {bytes rest : Bytes} (read : skipString bytes = .ok rest) :
    rest.length ≤ bytes.length := by
  fun_induction skipString bytes with
  | case1 => cases read
  | case2 => cases read; exact Nat.le_succ _
  | case3 => cases read
  | case4 _ letter behind _ ih =>
    exact Nat.le_succ_of_le (Nat.le_succ_of_le (ih read))
  | case5 => cases read
  | case6 behind unit more digits _ _ ih =>
    have unitLength := length_readUnit digits
    exact Nat.le_succ_of_le (Nat.le_succ_of_le (Nat.le_trans (ih read) unitLength))
  | case7 => cases read
  | case8 => cases read
  | case9 byte behind _ _ _ ih => exact Nat.le_succ_of_le (ih read)

end CssSort.Json
