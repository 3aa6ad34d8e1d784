import CssSort.Json.Value

/-! A value of a wanted kind, and what is said of any other value in its place:
a scalar is read to its end before it is refused, so what is wrong inside comes
first, while a container is refused at its bracket. -/
namespace CssSort.Json
open Ascii

/-- Reads a number that starts with `first` and asks for its size as well. -/
def readNumber (first : UInt8) (rest : Bytes) : Except Fault Decimal :=
  match readNumeral .endOfInput (if first = dash then rest else first :: rest) with
  | .error fault => .error fault
  | .ok (numeral, _) =>
    if numeral.decimal.isInRange then .ok numeral.decimal else .error .malformed

/-- What is wrong with a value that starts with `first` and is not of the wanted
kind. -/
def refusal (first : UInt8) (rest : Bytes) : Fault :=
  if (Container.ofByte? first).isSome then .mismatched
  else if first = dash ∨ isDigit first then
    match readNumber first rest with
    | .error fault => fault
    | .ok _ => .mismatched
  else if first = doubleQuote then
    match readString rest with
    | .error fault => fault
    | .ok _ => .mismatched
  else
    match skipScalar first rest with
    | .error fault => fault
    | .ok _ => .mismatched

def readBool (bytes : Bytes) : Except Fault (Bool × Bytes) :=
  match skipBlanks bytes with
  | [] => .error .endOfInput
  | first :: rest =>
    if first = 0x74 then (skipWord (Bytes.ofString "rue") rest).map (true, ·)
    else if first = 0x66 then (skipWord (Bytes.ofString "alse") rest).map (false, ·)
    else .error (refusal first rest)

theorem length_readBool {bytes rest : Bytes} {value : Bool}
    (read : readBool bytes = .ok (value, rest)) : rest.length ≤ bytes.length := by
  unfold readBool at read
  split at read
  · cases read
  · rename_i first behind ahead
    have blanks := length_lt_of_skipBlanks ahead
    split at read
    · obtain ⟨tail, word, same⟩ := exists_of_map_eq_ok read
      cases same
      have wordLength := length_skipWord word
      omega
    · split at read
      · obtain ⟨tail, word, same⟩ := exists_of_map_eq_ok read
        cases same
        have wordLength := length_skipWord word
        omega
      · cases read

end CssSort.Json
