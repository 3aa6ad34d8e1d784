import CssSort.Json.Boolean
import CssSort.Settings.Basic

/-! Settings written as JSON: an object whose member `ascending` is a truth
value, or an array with that value alone. What is left out takes its default, and
other members may be there but do not count. -/
namespace CssSort.Settings
open Ascii Json

def ascendingKey : Bytes :=
  Bytes.ofString "ascending"

/-- Reads a member of the object. `found` is the value read so far; a second one
is refused as soon as its key is known. -/
def readMember (found : Option Bool) (bytes : Bytes) : Except Fault (Option Bool × Bytes) :=
  match skipMark doubleQuote bytes with
  | .error fault => .error fault
  | .ok rest =>
    match readString rest with
    | .error fault => .error fault
    | .ok (key, rest) =>
      if key = ascendingKey ∧ found.isSome then .error .mismatched
      else
        match skipMark colon rest with
        | .error fault => .error fault
        | .ok rest =>
          if key = ascendingKey then (readBool rest).map fun (value, rest) => (some value, rest)
          else (skipValue rest).map (found, ·)

theorem length_readMember {found value : Option Bool} {bytes rest : Bytes}
    (read : readMember found bytes = .ok (value, rest)) : rest.length ≤ bytes.length := by
  unfold readMember at read
  split at read
  · cases read
  · rename_i quote
    have quoteLength := length_skipMark quote
    split at read
    · cases read
    · rename_i text
      have textLength := length_readString text
      split at read
      · cases read
      · split at read
        · cases read
        · rename_i mark
          have markLength := length_skipMark mark
          split at read
          · obtain ⟨⟨truth, tail⟩, bool, same⟩ := exists_of_map_eq_ok read
            cases same
            have boolLength := length_readBool bool
            omega
          · obtain ⟨tail, skipped, same⟩ := exists_of_map_eq_ok read
            cases same
            have valueLength := length_skipValue skipped
            omega

/-- Reads members up to the closing brace, at least one. -/
def readMembers (found : Option Bool) (bytes : Bytes) : Except Fault (Option Bool × Bytes) :=
  match _ : readMember found bytes with
  | .error fault => .error fault
  | .ok (found, behind) =>
    match _ : skipBlanks behind with
    | [] => .error .endOfInput
    | next :: rest =>
      if next = closeBrace then .ok (found, rest)
      else if next = comma then readMembers found rest
      else .error .malformed
termination_by bytes.length
decreasing_by
  have memberLength := length_readMember ‹readMember _ bytes = _›
  exact Nat.lt_of_lt_of_le (length_lt_of_skipBlanks (by assumption)) memberLength

def readObject (bytes : Bytes) : Except Fault (Option Bool × Bytes) :=
  match skipBlanks bytes with
  | [] => .error .endOfInput
  | next :: rest =>
    if next = closeBrace then .ok (none, rest) else readMembers none (next :: rest)

/-- A second element is one too many, whatever it is. -/
def readArray (bytes : Bytes) : Except Fault (Option Bool × Bytes) :=
  match skipBlanks bytes with
  | [] => .error .endOfInput
  | next :: rest =>
    if next = closeBracket then .ok (none, rest)
    else
      match readBool (next :: rest) with
      | .error fault => .error fault
      | .ok (value, rest) => (skipMark closeBracket rest).map (some value, ·)

/-- Reads the value and leaves what stands behind it. -/
def readJson (bytes : Bytes) : Except Fault (Option Bool × Bytes) :=
  match skipBlanks bytes with
  | [] => .error .endOfInput
  | first :: rest =>
    match Container.ofByte? first with
    | some .array => readArray rest
    | some .object => readObject rest
    | none => .error (refusal first rest)

def ofJson (bytes : Bytes) : Except Fault Settings :=
  match readJson bytes with
  | .error fault => .error fault
  | .ok (ascending, rest) =>
    match skipBlanks rest with
    | [] => .ok { direction := Direction.ofAscending (ascending.getD true) }
    | _ :: _ => .error .malformed

end CssSort.Settings
