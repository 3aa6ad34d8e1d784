import CssSort.Bytes

/-! The words of JSON text. A reader takes bytes from the front and gives back
the rest, or says what is wrong with the first byte that does not fit. -/
namespace CssSort.Json
open Ascii

inductive Fault where
  /-- The text stopped too early. -/
  | endOfInput
  | malformed
  /-- JSON, but not the value that was asked for. -/
  | mismatched
  deriving DecidableEq, Repr

theorem exists_of_map_eq_ok {α β : Type} {f : α → β} {result : Except Fault α} {b : β}
    (mapped : result.map f = .ok b) : ∃ a, result = .ok a ∧ f a = b := by
  cases result with
  | error fault => cases mapped
  | ok a => exact ⟨a, rfl, Except.ok.inj mapped⟩

abbrev comma : UInt8 := 0x2C
abbrev openBracket : UInt8 := 0x5B
abbrev closeBracket : UInt8 := 0x5D

/-- White space of JSON, which has no form feed. -/
def isBlank (byte : UInt8) : Bool :=
  byte == space || byte == tab || byte == lineFeed || byte == carriageReturn

def skipBlanks (bytes : Bytes) : Bytes :=
  bytes.dropWhile isBlank

theorem length_skipBlanks (bytes : Bytes) : (skipBlanks bytes).length ≤ bytes.length :=
  (List.dropWhile_sublist _).length_le

theorem length_lt_of_skipBlanks {bytes rest : Bytes} {first : UInt8}
    (ahead : skipBlanks bytes = first :: rest) : rest.length < bytes.length := by
  have blanks := length_skipBlanks bytes
  rw [ahead, List.length_cons] at blanks
  exact blanks

/-- Takes exactly `word`. -/
def skipWord : (word bytes : Bytes) → Except Fault Bytes
  | [], bytes => .ok bytes
  | _ :: _, [] => .error .endOfInput
  | wanted :: word, byte :: bytes =>
    if byte = wanted then skipWord word bytes else .error .malformed

theorem length_skipWord {word bytes rest : Bytes} (read : skipWord word bytes = .ok rest) :
    rest.length ≤ bytes.length := by
  fun_induction skipWord word bytes with
  | case1 => cases read; exact Nat.le_refl _
  | case2 => cases read
  | case3 wanted word bytes ih => exact Nat.le_succ_of_le (ih read)
  | case4 => cases read

/-- Takes one byte, with blanks in front of it. -/
def skipMark (mark : UInt8) (bytes : Bytes) : Except Fault Bytes :=
  skipWord [mark] (skipBlanks bytes)

theorem length_skipMark {mark : UInt8} {bytes rest : Bytes}
    (read : skipMark mark bytes = .ok rest) : rest.length ≤ bytes.length :=
  Nat.le_trans (length_skipWord read) (length_skipBlanks bytes)

end CssSort.Json
