import CssSort.Json.Value

/-! The grammar of JSON, apart from any reader. Text is a list of bytes, and what stands
between the tokens of a value belongs to the value around them. A string is given twice:
as one that only has the right shape, and as one that is decoded. -/
namespace CssSort.Json
open Ascii

/-- White space between two tokens, which may be missing. -/
def IsGap (text : Bytes) : Prop :=
  ∀ byte ∈ text, isBlank byte = true

theorem isGap_nil : IsGap [] := by
  simp [IsGap]

theorem IsGap.append {first second : Bytes} (start : IsGap first) (finish : IsGap second) :
    IsGap (first ++ second) :=
  List.forall_mem_append.mpr ⟨start, finish⟩

/-- A hexadecimal digit and the number it stands for. -/
inductive HexDigit : UInt8 → Nat → Prop where
  | decimal {number : Nat} : number < 10 → HexDigit (UInt8.ofNat (0x30 + number)) number
  | lower {number : Nat} : number < 6 → HexDigit (UInt8.ofNat (0x61 + number)) (10 + number)
  | upper {number : Nat} : number < 6 → HexDigit (UInt8.ofNat (0x41 + number)) (10 + number)

/-- Four hexadecimal digits and the number they spell. -/
inductive HexUnit : Bytes → Nat → Prop where
  | digits {a b c d : UInt8} {i j k l : Nat} : HexDigit a i → HexDigit b j → HexDigit c k →
      HexDigit d l → HexUnit [a, b, c, d] (((i * 16 + j) * 16 + k) * 16 + l)

/-- The letters of the short escapes with the bytes they stand for. -/
def shortEscapes : List (UInt8 × UInt8) :=
  [(doubleQuote, doubleQuote), (backslash, backslash), (slash, slash), (0x62, 0x08),
    (0x66, formFeed), (0x6E, lineFeed), (0x72, carriageReturn), (0x74, tab)]

/-- A byte of a string that stands for itself. -/
structure IsLiteral (byte : UInt8) : Prop where
  noQuote : byte ≠ doubleQuote
  noEscape : byte ≠ backslash
  noControl : space ≤ byte

/-- What may stand between the quotes of a string. -/
inductive IsBody : Bytes → Prop where
  | nil : IsBody []
  | literal {byte : UInt8} {rest : Bytes} : IsLiteral byte → IsBody rest → IsBody (byte :: rest)
  | short {letter byte : UInt8} {rest : Bytes} : (letter, byte) ∈ shortEscapes → IsBody rest →
      IsBody (backslash :: letter :: rest)
  | unicode {digits rest : Bytes} {unit : Nat} : HexUnit digits unit → IsBody rest →
      IsBody (backslash :: unicodeLetter :: (digits ++ rest))

/-- An escape behind its backslash and the text it is read as. A surrogate comes with its
partner. -/
inductive Escapes : Bytes → Bytes → Prop where
  | short {letter byte : UInt8} : (letter, byte) ∈ shortEscapes → Escapes [letter] [byte]
  | single {digits : Bytes} {unit : Nat} : HexUnit digits unit → unit < 0xD800 ∨ 0xE000 ≤ unit →
      Escapes (unicodeLetter :: digits) (String.utf8EncodeChar (Char.ofNat unit))
  | pair {leading trailing : Bytes} {high low : Nat} : high < 0x400 → low < 0x400 →
      HexUnit leading (0xD800 + high) → HexUnit trailing (0xDC00 + low) →
      Escapes (unicodeLetter :: (leading ++ backslash :: unicodeLetter :: trailing))
        (String.utf8EncodeChar (Char.ofNat (0x10000 + high * 0x400 + low)))

/-- What stands between the quotes of a string and the text it is read as. -/
inductive Decodes : Bytes → Bytes → Prop where
  | nil : Decodes [] []
  | literal {byte : UInt8} {rest text : Bytes} : IsLiteral byte → Decodes rest text →
      Decodes (byte :: rest) (byte :: text)
  | escape {spelled read rest text : Bytes} : Escapes spelled read → Decodes rest text →
      Decodes (backslash :: (spelled ++ rest)) (read ++ text)

/-- At least one digit. -/
structure IsDigits (text : Bytes) : Prop where
  ne_nil : text ≠ []
  all : ∀ byte ∈ text, isDigit byte = true

/-- A whole number has no leading zero. -/
structure IsWhole (text : Bytes) : Prop extends IsDigits text where
  noZero : text.head? = some 0x30 → text = [0x30]

/-- Nothing, or a point and digits. -/
inductive IsFraction : Bytes → Prop where
  | absent : IsFraction []
  | present {digits : Bytes} : IsDigits digits → IsFraction (0x2E :: digits)

/-- Nothing, or a letter, perhaps a sign, and digits. -/
inductive IsExponent : Bytes → Prop where
  | absent : IsExponent []
  | present {letter : UInt8} {sign digits : Bytes} : letter = 0x65 ∨ letter = 0x45 →
      sign = [] ∨ sign = [0x2B] ∨ sign = [dash] → IsDigits digits →
      IsExponent (letter :: (sign ++ digits))

/-- A number of any size. -/
inductive IsNumber : Bytes → Prop where
  | parts {sign whole fraction exponent : Bytes} : sign = [] ∨ sign = [dash] → IsWhole whole →
      IsFraction fraction → IsExponent exponent →
      IsNumber (sign ++ (whole ++ (fraction ++ exponent)))

def Container.opening : Container → UInt8
  | array => openBracket
  | object => openBrace

/-- What stands in front of a value in a container, white space included. -/
inductive IsLabel : Container → Bytes → Prop where
  | array {gap : Bytes} : IsGap gap → IsLabel .array gap
  | object {before key between behind : Bytes} : IsGap before → IsBody key → IsGap between →
      IsGap behind →
      IsLabel .object
        (before ++ doubleQuote :: (key ++ doubleQuote :: (between ++ colon :: behind)))

/-- The words that are values. -/
def words : List Bytes :=
  [Bytes.ofString "null", Bytes.ofString "true", Bytes.ofString "false"]

/-- A value without parts. -/
inductive IsScalar : Bytes → Prop where
  | word {word : Bytes} : word ∈ words → IsScalar word
  | number {text : Bytes} : IsNumber text → IsScalar text
  | string {body : Bytes} : IsBody body → IsScalar (doubleQuote :: (body ++ [doubleQuote]))

/-- What a text can be: a value, all that a container holds, or what is left of that behind
one of its values. -/
inductive Symbol where
  | value
  | members (container : Container)
  | tail (container : Container)
  deriving DecidableEq, Repr

/-- The texts of the grammar, to any depth. -/
inductive Derives : Symbol → Bytes → Prop where
  | scalar {text : Bytes} : IsScalar text → Derives .value text
  | empty (container : Container) {gap : Bytes} : IsGap gap →
      Derives .value (container.opening :: (gap ++ [container.close]))
  | filled {container : Container} {members : Bytes} : Derives (.members container) members →
      Derives .value (container.opening :: (members ++ [container.close]))
  | member {container : Container} {label value tail : Bytes} : IsLabel container label →
      Derives .value value → Derives (.tail container) tail →
      Derives (.members container) (label ++ (value ++ tail))
  | last (container : Container) {gap : Bytes} : IsGap gap → Derives (.tail container) gap
  | more {container : Container} {gap members : Bytes} : IsGap gap →
      Derives (.members container) members →
      Derives (.tail container) (gap ++ comma :: members)

end CssSort.Json
