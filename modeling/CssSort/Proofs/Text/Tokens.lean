import CssSort.Proofs.Cursor.Comments

/-! The tokens of a style sheet, told without a cursor. From left to right a text is made of
escapes, comments, strings and single characters, and only the last token can lack its
end. Parentheses are counted over whole tokens, so none inside a string, a comment or an
escape counts. -/
namespace CssSort
open Ascii

namespace Bytes

/-- The bytes of one character. -/
def IsCharacter (bytes : Bytes) : Prop :=
  ∃ char : Char, bytes = String.utf8EncodeChar char

theorem IsCharacter.spells {first : UInt8} {inner : Bytes}
    (character : IsCharacter (first :: inner)) : Spells first inner := by
  obtain ⟨char, bytes⟩ := character
  obtain ⟨lead, more, encoded, spells⟩ := spells_utf8EncodeChar char
  obtain ⟨rfl, rfl⟩ := List.cons.inj (bytes.trans encoded)
  exact spells

theorem IsCharacter.exists_cons {bytes : Bytes} (character : IsCharacter bytes) :
    ∃ first inner, bytes = first :: inner ∧ Spells first inner := by
  obtain ⟨char, rfl⟩ := character
  exact spells_utf8EncodeChar char

theorem IsCharacter.eq_singleton {first : UInt8} {inner : Bytes}
    (character : IsCharacter (first :: inner)) (ascii : isAscii first = true) : inner = [] := by
  have width := character.spells.width
  rw [charWidth_of_isAscii ascii] at width
  exact List.length_eq_zero_iff.mp (Nat.succ.inj width).symm

theorem exists_isCharacter {text : Bytes} (valid : text.isUtf8 = true) (filled : text ≠ []) :
    ∃ (first : UInt8) (inner more : Bytes), text = first :: (inner ++ more) ∧
      IsCharacter (first :: inner) ∧ more.isUtf8 = true := by
  obtain ⟨chars, rfl⟩ := isUtf8_iff.mp valid
  cases chars with
  | nil => exact absurd rfl filled
  | cons char chars =>
    obtain ⟨first, inner, bytes, -⟩ := spells_utf8EncodeChar char
    refine ⟨first, inner, chars.flatMap String.utf8EncodeChar, ?_, ⟨char, bytes.symm⟩,
      isUtf8_iff.mpr ⟨chars, rfl⟩⟩
    rw [List.flatMap_cons, bytes, List.cons_append]

end Bytes

open Bytes (IsCharacter)

/-- What belongs to a string behind its opening quote, and the text that follows it. A
string ends with the same quote, with a line feed that is not escaped, or with the text. -/
inductive SpellsString (quote : Quote) : Bytes → Bytes → Prop where
  | closed (behind : Bytes) : SpellsString quote [quote.byte] behind
  | broken (behind : Bytes) : SpellsString quote [lineFeed] behind
  | unclosed : SpellsString quote [] []
  | lone : SpellsString quote [backslash] []
  | escape {character body behind : Bytes} : IsCharacter character →
      SpellsString quote body behind →
      SpellsString quote (backslash :: (character ++ body)) behind
  | character {first : UInt8} {inner body behind : Bytes} : IsCharacter (first :: inner) →
      first ≠ quote.byte → first ≠ lineFeed → first ≠ backslash →
      SpellsString quote body behind → SpellsString quote (first :: (inner ++ body)) behind

/-- One token, and the text that follows it. -/
inductive SpellsToken : Bytes → Bytes → Prop where
  | escape {character : Bytes} (behind : Bytes) : IsCharacter character →
      SpellsToken (backslash :: character) behind
  | lone : SpellsToken [backslash] []
  | comment {comment : Bytes} (behind : Bytes) : SpellsComment comment →
      SpellsToken comment behind
  | openComment {comment : Bytes} : SpellsOpenComment comment → SpellsToken comment []
  | string {quote : Quote} {body behind : Bytes} : SpellsString quote body behind →
      SpellsToken (quote.byte :: body) behind
  | character {first : UInt8} {inner behind : Bytes} : IsCharacter (first :: inner) →
      first ≠ backslash → (∀ quote : Quote, first ≠ quote.byte) →
      ¬ [slash, asterisk] <+: first :: (inner ++ behind) → SpellsToken (first :: inner) behind

/-- The tokens of a text from left to right. -/
inductive Tokens : Bytes → List Bytes → Prop where
  | nil : Tokens [] []
  | cons {token behind : Bytes} {tokens : List Bytes} : SpellsToken token behind →
      Tokens behind tokens → Tokens (token ++ behind) (token :: tokens)

/-- The open parentheses behind a token. One that closes none changes nothing. -/
def depthBehind (depth : Nat) (token : Bytes) : Nat :=
  if token = [openParen] then depth + 1
  else if token = [closeParen] then depth - 1
  else depth

/-- With `depth` open parentheses in front of the tokens `before`, the token behind them
stands outside all parentheses and `byte` is its first byte. -/
def StartsOutside (byte : UInt8) (depth : Nat) (before : List Bytes) (token : Bytes) : Prop :=
  before.foldl depthBehind depth = 0 ∧ token.head? = some byte

/-- The first of the tokens that `byte` starts outside all parentheses is `token`, and the
tokens `before` stand in front of it. -/
structure IsFirstOutside (byte : UInt8) (depth : Nat) (tokens before : List Bytes)
    (token : Bytes) : Prop where
  cut : ∃ after, tokens = before ++ token :: after
  starts : StartsOutside byte depth before token
  first : ∀ early other late, before = early ++ other :: late →
    ¬ StartsOutside byte depth early other

/-- The place of the first token that `byte` starts outside all parentheses. -/
def firstOutside? (byte : UInt8) (depth pos : Nat) : List Bytes → Option Nat
  | [] => none
  | token :: tokens =>
    if depth = 0 ∧ token.head? = some byte then some pos
    else firstOutside? byte (depthBehind depth token) (pos + token.length) tokens

theorem firstOutside?_eq_some_iff {byte : UInt8} {depth pos place : Nat} {tokens : List Bytes} :
    firstOutside? byte depth pos tokens = some place ↔
      ∃ before token, IsFirstOutside byte depth tokens before token ∧
        place = pos + before.flatten.length := by
  induction tokens generalizing depth pos with
  | nil =>
    constructor
    · intro found
      cases found
    · rintro ⟨before, token, ⟨⟨after, cut⟩, -, -⟩, -⟩
      simp at cut
  | cons head tokens ih =>
    rw [firstOutside?]
    by_cases hit : depth = 0 ∧ head.head? = some byte
    · rw [if_pos hit]
      constructor
      · rintro ⟨⟩
        exact ⟨[], head, ⟨⟨tokens, rfl⟩, hit, by simp⟩, rfl⟩
      · rintro ⟨before, token, ⟨⟨after, cut⟩, -, first⟩, rfl⟩
        rcases before with _ | ⟨other, before⟩
        · rfl
        · obtain ⟨rfl, -⟩ := List.cons.inj cut
          exact absurd hit (first [] head before rfl)
    · rw [if_neg hit, ih]
      constructor
      · rintro ⟨before, token, ⟨⟨after, rfl⟩, starts, first⟩, rfl⟩
        refine ⟨head :: before, token, ⟨⟨after, rfl⟩, starts, ?_⟩, by simp; omega⟩
        intro early other late cut
        rcases early with _ | ⟨_, early⟩
        · obtain ⟨rfl, -⟩ := List.cons.inj cut
          exact hit
        · obtain ⟨rfl, rest⟩ := List.cons.inj cut
          exact first early other late rest
      · rintro ⟨before, token, ⟨⟨after, cut⟩, starts, first⟩, rfl⟩
        rcases before with _ | ⟨_, before⟩
        · obtain ⟨rfl, -⟩ := List.cons.inj cut
          exact absurd starts hit
        · obtain ⟨rfl, rest⟩ := List.cons.inj cut
          refine ⟨before, token, ⟨⟨after, rest⟩, starts, ?_⟩, by simp; omega⟩
          exact fun early other late cut => first (head :: early) other late (by rw [cut]; rfl)

theorem firstOutside?_eq_none_iff {byte : UInt8} {depth pos : Nat} {tokens : List Bytes} :
    firstOutside? byte depth pos tokens = none ↔ ∀ before token after,
      tokens = before ++ token :: after → ¬ StartsOutside byte depth before token := by
  induction tokens generalizing depth pos with
  | nil => simp [firstOutside?]
  | cons head tokens ih =>
    rw [firstOutside?]
    by_cases hit : depth = 0 ∧ head.head? = some byte
    · rw [if_pos hit]
      constructor
      · intro missed
        cases missed
      · intro nowhere
        exact absurd hit (nowhere [] head tokens rfl)
    · rw [if_neg hit, ih]
      constructor
      · intro nowhere before token after cut
        rcases before with _ | ⟨_, before⟩
        · obtain ⟨rfl, -⟩ := List.cons.inj cut
          exact hit
        · obtain ⟨rfl, rest⟩ := List.cons.inj cut
          exact nowhere before token after rest
      · intro nowhere before token after cut
        exact nowhere (head :: before) token after (by rw [cut]; rfl)

/-- A string goes on behind one character, or behind two if the first is a backslash. -/
theorem exists_spellsString (quote : Quote) {text : Bytes} (valid : text.isUtf8 = true) :
    ∃ body behind, text = body ++ behind ∧ SpellsString quote body behind := by
  induction size : text.length using Nat.strongRecOn generalizing text with
  | ind size ih =>
    by_cases finished : text = []
    · exact ⟨[], [], by simp [finished], .unclosed⟩
    obtain ⟨first, inner, more, rfl, character, valid'⟩ := Bytes.exists_isCharacter valid finished
    simp only [List.length_cons, List.length_append] at size
    by_cases closes : first = quote.byte
    · obtain rfl : inner = [] :=
        character.eq_singleton (by cases quote <;> rw [closes] <;> decide)
      exact ⟨[first], more, rfl, closes ▸ .closed more⟩
    by_cases broken : first = lineFeed
    · obtain rfl : inner = [] := character.eq_singleton (by rw [broken]; decide)
      exact ⟨[first], more, rfl, broken ▸ .broken more⟩
    by_cases escape : first = backslash
    · obtain rfl : inner = [] := character.eq_singleton (by rw [escape]; decide)
      subst escape
      by_cases last : more = []
      · exact ⟨[backslash], [], by simp [last], .lone⟩
      obtain ⟨lead, inner, rest, rfl, escaped, valid''⟩ := Bytes.exists_isCharacter valid' last
      simp only [List.length_cons, List.length_append] at size
      obtain ⟨body, behind, rfl, spelled⟩ := ih rest.length (by omega) valid'' rfl
      exact ⟨_, behind, by simp, .escape escaped spelled⟩
    · obtain ⟨body, behind, rfl, spelled⟩ := ih more.length (by omega) valid' rfl
      exact ⟨_, behind, by simp, .character character closes broken escape spelled⟩

theorem exists_comment_token (body : Bytes) : ∃ token behind,
    slash :: asterisk :: body = token ++ behind ∧ SpellsToken token behind := by
  cases found : behindComment? body with
  | none =>
    have spelled : SpellsOpenComment (slash :: asterisk :: body) :=
      ⟨body, rfl, not_infix_of_behindComment? found⟩
    exact ⟨_, [], (List.append_nil _).symm, .openComment spelled⟩
  | some behind =>
    obtain ⟨inner, rfl, free⟩ := spelled_of_behindComment? found
    have spelled : SpellsComment (slash :: asterisk :: (inner ++ [asterisk, slash])) :=
      ⟨inner, rfl, free⟩
    exact ⟨_, behind, by simp, .comment behind spelled⟩

theorem exists_token {text : Bytes} (valid : text.isUtf8 = true) (filled : text ≠ []) :
    ∃ token behind, text = token ++ behind ∧ SpellsToken token behind := by
  obtain ⟨first, inner, more, rfl, character, valid'⟩ := Bytes.exists_isCharacter valid filled
  by_cases escape : first = backslash
  · obtain rfl : inner = [] := character.eq_singleton (by rw [escape]; decide)
    subst escape
    by_cases last : more = []
    · exact ⟨[backslash], [], by simp [last], .lone⟩
    · obtain ⟨lead, inner, rest, rfl, escaped, -⟩ := Bytes.exists_isCharacter valid' last
      exact ⟨backslash :: lead :: inner, rest, by simp, .escape rest escaped⟩
  by_cases quoted : ∃ quote : Quote, first = quote.byte
  · obtain ⟨quote, rfl⟩ := quoted
    obtain rfl : inner = [] := character.eq_singleton (by cases quote <;> decide)
    obtain ⟨body, behind, rfl, spelled⟩ := exists_spellsString quote valid'
    exact ⟨quote.byte :: body, behind, rfl, .string spelled⟩
  by_cases opens : [slash, asterisk] <+: first :: (inner ++ more)
  · obtain ⟨body, whole⟩ := opens
    rw [← whole]
    exact exists_comment_token body
  · exact ⟨first :: inner, more, rfl,
      .character character escape (fun quote same => quoted ⟨quote, same⟩) opens⟩

theorem SpellsToken.ne_nil {token behind : Bytes} (spelled : SpellsToken token behind) :
    token ≠ [] := by
  cases spelled with
  | comment _ spelled =>
    obtain ⟨body, rfl, -⟩ := spelled
    exact List.cons_ne_nil _ _
  | openComment spelled =>
    obtain ⟨body, rfl, -⟩ := spelled
    exact List.cons_ne_nil _ _
  | escape | lone | string | character => exact List.cons_ne_nil _ _

/-- A parenthesis that starts a token is all of it. -/
theorem SpellsToken.eq_paren {token behind : Bytes} {byte : UInt8}
    (spelled : SpellsToken token behind) (paren : byte = openParen ∨ byte = closeParen) :
    token.head? = some byte ↔ token = [byte] := by
  have ascii : isAscii byte = true ∧ byte ≠ backslash ∧ byte ≠ slash ∧
      ∀ quote : Quote, byte ≠ quote.byte := by
    rcases paren with rfl | rfl
    · exact ⟨by decide, by decide, by decide, fun quote => by cases quote <;> decide⟩
    · exact ⟨by decide, by decide, by decide, fun quote => by cases quote <;> decide⟩
  obtain ⟨ascii, noEscape, noSlash, noQuote⟩ := ascii
  refine ⟨fun head => ?_, fun same => by rw [same]; rfl⟩
  cases spelled with
  | escape => exact absurd (Option.some.inj head).symm noEscape
  | lone => exact absurd (Option.some.inj head).symm noEscape
  | comment _ spelled =>
    obtain ⟨body, rfl, -⟩ := spelled
    exact absurd (Option.some.inj head).symm noSlash
  | openComment spelled =>
    obtain ⟨body, rfl, -⟩ := spelled
    exact absurd (Option.some.inj head).symm noSlash
  | string => exact absurd (Option.some.inj head).symm (noQuote _)
  | character character =>
    obtain rfl := Option.some.inj head
    rw [character.eq_singleton ascii]

end CssSort
