import CssSort.Json.Number
import CssSort.Json.Text

/-! Values of any shape that nobody looks at. They are passed over with a list of
the containers that are still open in place of recursion, so they may nest as
deep as they like. -/
namespace CssSort.Json
open Ascii

inductive Container where
  | array
  | object
  deriving DecidableEq, Repr

namespace Container

def ofByte? (byte : UInt8) : Option Container :=
  if byte = openBracket then some array
  else if byte = openBrace then some object
  else none

def close : Container → UInt8
  | array => closeBracket
  | object => closeBrace

end Container

/-- Passes over a value without parts that starts with `first`. -/
def skipScalar (first : UInt8) (rest : Bytes) : Except Fault Bytes :=
  if first = 0x6E then skipWord (Bytes.ofString "ull") rest
  else if first = 0x74 then skipWord (Bytes.ofString "rue") rest
  else if first = 0x66 then skipWord (Bytes.ofString "alse") rest
  else if first = dash ∨ isDigit first then skipNumber first rest
  else if first = doubleQuote then skipString rest
  else .error .malformed

theorem length_skipScalar {first : UInt8} {bytes rest : Bytes}
    (read : skipScalar first bytes = .ok rest) : rest.length ≤ bytes.length := by
  unfold skipScalar at read
  split at read
  · exact length_skipWord read
  · split at read
    · exact length_skipWord read
    · split at read
      · exact length_skipWord read
      · split at read
        · exact length_skipNumber read
        · split at read
          · exact length_skipString read
          · cases read

/-- Passes over what stands in front of a value in a container: nothing in an
array, a key and a colon in an object. -/
def skipKey (container : Container) (bytes : Bytes) : Except Fault Bytes :=
  match container with
  | .array => .ok bytes
  | .object =>
    match skipMark doubleQuote bytes with
    | .error fault => .error fault
    | .ok rest =>
      match skipString rest with
      | .error fault => .error fault
      | .ok rest => skipMark colon rest

theorem length_skipKey {container : Container} {bytes rest : Bytes}
    (read : skipKey container bytes = .ok rest) : rest.length ≤ bytes.length := by
  unfold skipKey at read
  split at read
  · cases read
    exact Nat.le_refl _
  · split at read
    · cases read
    · rename_i quote
      have quoteLength := length_skipMark quote
      split at read
      · cases read
      · rename_i key
        have keyLength := length_skipString key
        have colonLength := length_skipMark read
        omega

/-- What comes next: a value, or what may stand behind one. -/
inductive Phase where
  | value
  | behind
  deriving DecidableEq, Repr

/-- Passes over a value and all that closes the containers in `enclosing`,
innermost first. -/
def skipWithin (phase : Phase) (enclosing : List Container) (bytes : Bytes) :
    Except Fault Bytes :=
  match phase, enclosing with
  | .value, _ =>
    match _ : skipBlanks bytes with
    | [] => .error .endOfInput
    | first :: rest =>
      match Container.ofByte? first with
      | none =>
        match _ : skipScalar first rest with
        | .error fault => .error fault
        | .ok rest => skipWithin .behind enclosing rest
      | some container =>
        match _ : skipBlanks rest with
        | [] => .error .endOfInput
        | next :: behind =>
          if next = container.close then skipWithin .behind enclosing behind
          else
            match _ : skipKey container (next :: behind) with
            | .error fault => .error fault
            | .ok rest => skipWithin .value (container :: enclosing) rest
  | .behind, [] => .ok bytes
  | .behind, container :: outer =>
    match _ : skipBlanks bytes with
    | [] => .error .endOfInput
    | next :: rest =>
      if next = container.close then skipWithin .behind outer rest
      else if next = comma then
        match _ : skipKey container rest with
        | .error fault => .error fault
        | .ok rest => skipWithin .value (container :: outer) rest
      else .error .malformed
termination_by bytes.length
decreasing_by
  · have blanks := length_lt_of_skipBlanks ‹skipBlanks bytes = _›
    exact Nat.lt_of_le_of_lt (length_skipScalar (by assumption)) blanks
  · have outside := length_lt_of_skipBlanks ‹skipBlanks bytes = _›
    have inside := length_lt_of_skipBlanks ‹skipBlanks _ = next :: behind›
    omega
  · have outside := length_lt_of_skipBlanks ‹skipBlanks bytes = _›
    have inside := length_lt_of_skipBlanks ‹skipBlanks _ = next :: behind›
    have keyLength := length_skipKey (by assumption)
    rw [List.length_cons] at keyLength
    omega
  · exact length_lt_of_skipBlanks (by assumption)
  · have blanks := length_lt_of_skipBlanks ‹skipBlanks bytes = _›
    exact Nat.lt_of_le_of_lt (length_skipKey (by assumption)) blanks

theorem length_skipWithin {phase : Phase} {enclosing : List Container} {bytes rest : Bytes}
    (read : skipWithin phase enclosing bytes = .ok rest) : rest.length ≤ bytes.length := by
  fun_induction skipWithin phase enclosing bytes with
  | case1 => cases read
  | case2 => cases read
  | case3 enclosing bytes first behind ahead _ scalar scan ih =>
    have blanks := length_lt_of_skipBlanks ahead
    have scalarLength := length_skipScalar scan
    exact Nat.le_trans (ih read) (by omega)
  | case4 => cases read
  | case5 enclosing bytes first behind ahead container _ closed closing ih =>
    have outside := length_lt_of_skipBlanks ahead
    have inside := length_lt_of_skipBlanks closing
    exact Nat.le_trans (ih read) (by omega)
  | case6 => cases read
  | case7 enclosing bytes first behind ahead container _ next element inner _ value key ih =>
    have outside := length_lt_of_skipBlanks ahead
    have inside := length_lt_of_skipBlanks inner
    have keyLength := length_skipKey key
    rw [List.length_cons] at keyLength
    exact Nat.le_trans (ih read) (by omega)
  | case8 => cases read; exact Nat.le_refl _
  | case9 => cases read
  | case10 bytes container outer behind ahead ih =>
    exact Nat.le_trans (ih read) (Nat.le_of_lt (length_lt_of_skipBlanks ahead))
  | case11 => cases read
  | case12 bytes container outer behind value key ahead _ ih =>
    have blanks := length_lt_of_skipBlanks ahead
    have keyLength := length_skipKey key
    exact Nat.le_trans (ih read) (by omega)
  | case13 => cases read

def skipValue (bytes : Bytes) : Except Fault Bytes :=
  skipWithin .value [] bytes

theorem length_skipValue {bytes rest : Bytes} (read : skipValue bytes = .ok rest) :
    rest.length ≤ bytes.length :=
  length_skipWithin read

end CssSort.Json
