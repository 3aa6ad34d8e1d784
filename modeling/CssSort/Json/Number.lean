import CssSort.Json.Token

/-! JSON numbers. Passing over one only asks for its shape. Where a number
stands in for another value its size counts too: it has to fit a binary64
value, as far as its first digits and its exponent tell. -/
namespace CssSort.Json
open Ascii

structure Numeral where
  whole : Bytes
  fraction : Bytes
  exponent : Int
  deriving DecidableEq, Repr

/-- Takes digits, at least one. A text that ends in front of the first one has
the fault `incomplete`. -/
def readDigits (incomplete : Fault) (bytes : Bytes) : Except Fault (Bytes × Bytes) :=
  match bytes.takeWhile isDigit with
  | [] => .error (if bytes.isEmpty then incomplete else .malformed)
  | digits => .ok (digits, bytes.dropWhile isDigit)

/-- Zero takes no further digit behind it. -/
def readWhole (incomplete : Fault) (bytes : Bytes) : Except Fault (Bytes × Bytes) :=
  match readDigits incomplete bytes with
  | .error fault => .error fault
  | .ok (digits, rest) =>
    if digits.head? = some 0x30 ∧ digits.length ≠ 1 then .error .malformed else .ok (digits, rest)

def readFraction (incomplete : Fault) : Bytes → Except Fault (Bytes × Bytes)
  | [] => .ok ([], [])
  | first :: rest => if first = 0x2E then readDigits incomplete rest else .ok ([], first :: rest)

def digitsOf (digits : Bytes) : List Nat :=
  digits.map fun digit => digit.toNat - 0x30

def naturalOf (digits : Bytes) : Nat :=
  (digitsOf digits).foldl (fun number digit => number * 10 + digit) 0

/-- Takes an optional sign and tells whether it is a minus. -/
def readSign : Bytes → Bool × Bytes
  | [] => (false, [])
  | first :: rest =>
    if first = dash then (true, rest)
    else if first = 0x2B then (false, rest)
    else (false, first :: rest)

def readExponent (incomplete : Fault) : Bytes → Except Fault (Int × Bytes)
  | [] => .ok (0, [])
  | first :: rest =>
    if first = 0x65 ∨ first = 0x45 then
      match readDigits incomplete (readSign rest).2 with
      | .error fault => .error fault
      | .ok (digits, behind) =>
        .ok (if (readSign rest).1 then -naturalOf digits else naturalOf digits, behind)
    else .ok (0, first :: rest)

/-- Takes a number behind its minus sign. -/
def readNumeral (incomplete : Fault) (bytes : Bytes) : Except Fault (Numeral × Bytes) :=
  match readWhole incomplete bytes with
  | .error fault => .error fault
  | .ok (whole, rest) =>
    match readFraction incomplete rest with
    | .error fault => .error fault
    | .ok (fraction, rest) =>
      match readExponent incomplete rest with
      | .error fault => .error fault
      | .ok (exponent, rest) => .ok (⟨whole, fraction, exponent⟩, rest)

/-- Passes over a number that starts with `first`. -/
def skipNumber (first : UInt8) (rest : Bytes) : Except Fault Bytes :=
  match readNumeral .malformed (if first = dash then rest else first :: rest) with
  | .error fault => .error fault
  | .ok (_, rest) => .ok rest

/-- A whole number and the power of ten it is to be multiplied with. -/
structure Decimal where
  significand : Nat
  exponent : Int
  deriving DecidableEq, Repr

namespace Decimal

def push (decimal : Decimal) (digit : Nat) : Nat :=
  decimal.significand * 10 + digit

/-- The significand fits 64 bits with one digit more. -/
def hasRoom (decimal : Decimal) (digit : Nat) : Bool :=
  decimal.push digit < 1 <<< 64

/-- Once a digit has found no room in 64 bits, it and all further digits in front
of the point only count as a power of ten. -/
def pushWhole (decimal : Decimal) (digit : Nat) : Decimal :=
  if decimal.exponent == 0 && decimal.hasRoom digit then ⟨decimal.push digit, 0⟩
  else ⟨decimal.significand, decimal.exponent + 1⟩

/-- Digits behind the point are dropped from the first that finds no room. -/
def pushFraction (decimal : Decimal) : List Nat → Decimal
  | [] => decimal
  | digit :: digits =>
    if decimal.hasRoom digit then
      pushFraction ⟨decimal.push digit, decimal.exponent - 1⟩ digits
    else decimal

end Decimal

namespace Numeral

def decimal (numeral : Numeral) : Decimal :=
  let read := ((digitsOf numeral.whole).foldl Decimal.pushWhole ⟨0, 0⟩).pushFraction
    (digitsOf numeral.fraction)
  ⟨read.significand, read.exponent + numeral.exponent⟩

end Numeral

/-- The nearest number of at most 53 binary digits, the even one of two. -/
def roundToBinary53 (number : Nat) : Nat :=
  let shift := number.log2 + 1 - 53
  let high := number >>> shift
  let low := number - high <<< shift
  let half := 1 <<< (shift - 1)
  if shift = 0 then number
  else if half < low ∨ (low = half ∧ high % 2 = 1) then (high + 1) <<< shift
  else high <<< shift

/-- Halfway between the largest binary64 value and the next power of two. -/
def binary64Overflow : Nat :=
  (1 <<< 54 - 1) <<< 970

namespace Decimal

/-- The product of the binary64 values nearest to the significand and to the
power of ten stays finite. -/
def isInRange (decimal : Decimal) : Bool :=
  decimal.significand == 0 || decimal.exponent < 0 ||
    (decimal.exponent ≤ 308 &&
      roundToBinary53 decimal.significand * roundToBinary53 (Nat.pow 10 decimal.exponent.toNat) <
        binary64Overflow)

end Decimal

theorem length_readDigits {incomplete : Fault} {bytes digits rest : Bytes}
    (read : readDigits incomplete bytes = .ok (digits, rest)) : rest.length < bytes.length := by
  have whole := congrArg List.length (List.takeWhile_append_dropWhile (p := isDigit) (l := bytes))
  unfold readDigits at read
  split at read
  · cases read
  · rename_i taken
    cases read
    have progress := List.length_pos_iff.mpr taken
    rw [List.length_append] at whole
    omega

theorem length_readWhole {incomplete : Fault} {bytes digits rest : Bytes}
    (read : readWhole incomplete bytes = .ok (digits, rest)) : rest.length < bytes.length := by
  unfold readWhole at read
  split at read
  · cases read
  · rename_i readAll
    have allLength := length_readDigits readAll
    split at read
    · cases read
    · cases read
      exact allLength

theorem length_readFraction {incomplete : Fault} {bytes digits rest : Bytes}
    (read : readFraction incomplete bytes = .ok (digits, rest)) : rest.length ≤ bytes.length := by
  unfold readFraction at read
  split at read
  · cases read
    exact Nat.le_refl _
  · split at read
    · exact Nat.le_succ_of_le (Nat.le_of_lt (length_readDigits read))
    · cases read
      exact Nat.le_refl _

theorem length_readSign (bytes : Bytes) : (readSign bytes).2.length ≤ bytes.length := by
  unfold readSign
  split
  · exact Nat.le_refl _
  · split
    · exact Nat.le_succ _
    · split
      · exact Nat.le_succ _
      · exact Nat.le_refl _

theorem length_readExponent {incomplete : Fault} {bytes rest : Bytes} {exponent : Int}
    (read : readExponent incomplete bytes = .ok (exponent, rest)) :
    rest.length ≤ bytes.length := by
  unfold readExponent at read
  split at read
  · cases read
    exact Nat.le_refl _
  · rename_i first behind
    split at read
    · split at read
      · cases read
      · rename_i readAll
        have allLength := length_readDigits readAll
        have signLength := length_readSign behind
        cases read
        exact Nat.le_succ_of_le (Nat.le_trans (Nat.le_of_lt allLength) signLength)
    · cases read
      exact Nat.le_refl _

theorem length_readNumeral {incomplete : Fault} {bytes rest : Bytes} {numeral : Numeral}
    (read : readNumeral incomplete bytes = .ok (numeral, rest)) : rest.length < bytes.length := by
  unfold readNumeral at read
  split at read
  · cases read
  · rename_i readWhole
    have wholeLength := length_readWhole readWhole
    split at read
    · cases read
    · rename_i readFraction
      have fractionLength := length_readFraction readFraction
      split at read
      · cases read
      · rename_i readExponent
        have exponentLength := length_readExponent readExponent
        cases read
        omega

theorem length_skipNumber {first : UInt8} {bytes rest : Bytes}
    (read : skipNumber first bytes = .ok rest) : rest.length ≤ bytes.length := by
  unfold skipNumber at read
  split at read
  · cases read
  · rename_i readAll
    have allLength := length_readNumeral readAll
    cases read
    split at allLength
    · exact Nat.le_of_lt allLength
    · exact Nat.le_of_lt_succ allLength

end CssSort.Json
