import CssSort.Proofs.Text.Tokens

/-! A cursor reads tokens. In front of a token it stands outside strings and comments; one
step takes the first byte and what belongs to it, and the rest of a string or a comment is
read on the way without a hit. So a text has one reading in tokens only, and a search at top
level finds the first token that its byte starts outside all parentheses. -/
namespace CssSort
open Ascii

namespace Cursor

/-- Reads on inside a string or a comment. -/
inductive StaysInside : Cursor → Cursor → Prop where
  | refl (cursor : Cursor) : StaysInside cursor cursor
  | step {cursor next later : Cursor} {piece : Piece} : cursor.context.mode ≠ .normal →
      cursor.step? = some (piece, next) → StaysInside next later → StaysInside cursor later

/-- No string or comment goes on. -/
def IsOutside (cursor : Cursor) : Prop :=
  cursor.context.mode = .normal ∨ cursor.rest = []

theorem nextDepth_of_step? {cursor next : Cursor} {piece : Piece}
    (step : cursor.step? = some (piece, next)) :
    next.context.depth = cursor.context.nextDepth piece.first := by
  cases ahead : cursor.rest with
  | nil => simp [step?_eq_none_iff.mpr ahead] at step
  | cons first rest =>
    rw [step?_cons ahead] at step
    obtain ⟨rfl, rfl⟩ := Prod.mk.inj (Option.some.inj step)
    rfl

namespace StaysInside

variable {cursor later : Cursor} (inside : StaysInside cursor later)
include inside

theorem exists_reads : ∃ read, cursor.Reads read later := by
  induction inside with
  | refl cursor => exact ⟨[], .refl cursor⟩
  | step _ step _ ih =>
    obtain ⟨read, reads⟩ := ih
    exact ⟨_, (reads_of_step? step).trans reads⟩

theorem isWhole (whole : cursor.IsWhole) : later.IsWhole := by
  induction inside with
  | refl => exact whole
  | step _ step _ ih => exact ih (whole.of_step? step)

/-- Parentheses in a string or a comment do not count. -/
theorem depth_eq : later.context.depth = cursor.context.depth := by
  induction inside with
  | refl => rfl
  | step within step _ ih => rw [ih, nextDepth_of_step? step, Context.nextDepth, if_pos within]

/-- No search stops in a string or a comment. -/
theorem skipPast_eq (byte : UInt8) : cursor.skipPast byte = later.skipPast byte := by
  induction inside with
  | refl => rfl
  | step within step _ ih =>
    rw [skipPast_of_step? step, if_neg, ih]
    simp [Context.isTopLevel, within]

/-- There is one place where a string or a comment is over. -/
theorem unique {other : Cursor} (inside' : StaysInside cursor other) (stops : later.IsOutside)
    (stops' : other.IsOutside) : later = other := by
  have ends : ∀ {cursor next : Cursor} {piece : Piece}, cursor.IsOutside →
      cursor.context.mode ≠ .normal → cursor.step? ≠ some (piece, next) := by
    intro cursor next piece stops within step
    have nothing := stops.resolve_left within
    simp [step?_eq_none_iff.mpr nothing] at step
  induction inside with
  | refl cursor =>
    cases inside' with
    | refl => rfl
    | step within step _ => exact absurd step (ends stops within)
  | step within step _ ih =>
    cases inside' with
    | refl => exact absurd step (ends stops' within)
    | step _ step' rest' =>
      obtain ⟨-, rfl⟩ := Prod.mk.inj (Option.some.inj (step.symm.trans step'))
      exact ih rest' stops

end StaysInside

theorem staysInside_leaveComment (cursor : Cursor) : StaysInside cursor cursor.leaveComment := by
  fun_induction Cursor.leaveComment cursor with
  | case1 cursor => exact .refl cursor
  | case2 cursor piece next step inside ih =>
    exact .step (by rw [inside]; exact Mode.noConfusion) step ih
  | case3 cursor => exact .refl cursor

theorem exists_step? {cursor : Cursor} {first : UInt8} {rest : Bytes}
    (ahead : cursor.rest = first :: rest) : ∃ piece next, cursor.step? = some (piece, next) ∧
      next.rest = rest.drop (cursor.context.mode.reach first rest) ∧
      next.context.mode = cursor.context.mode.next first rest :=
  ⟨_, _, step?_cons ahead, rfl, rfl⟩

/-- Reads one token: a step, and what is left of a string or a comment. -/
structure ReadsToken (cursor : Cursor) (token : Bytes) (later : Cursor) : Prop where
  reads : cursor.Reads token later
  starts : ∃ piece next, cursor.step? = some (piece, next) ∧ next.StaysInside later
  stops : later.IsOutside

theorem readsToken_of_step? {cursor next later : Cursor} {piece : Piece} {token behind : Bytes}
    (step : cursor.step? = some (piece, next)) (inside : next.StaysInside later)
    (stops : later.IsOutside) (ahead : cursor.rest = token ++ behind) (left : later.rest = behind) :
    cursor.ReadsToken token later := by
  obtain ⟨read, reads⟩ := inside.exists_reads
  have whole := (reads_of_step? step).trans reads
  have same : token = piece.bytes ++ read := by
    have rest := whole.rest
    rw [ahead, left] at rest
    exact List.append_cancel_right rest
  exact ⟨same ▸ whole, ⟨piece, next, step, inside⟩, stops⟩

end Cursor

section Pieces

variable {first : UInt8} {inner : Bytes} (spells : Bytes.Spells first inner) (behind : Bytes)
include spells

theorem drop_charWidth : (inner ++ behind).drop (charWidth first - 1) = behind := by
  rw [spells.width, Nat.add_sub_cancel, List.drop_left]

theorem drop_escapedWidth :
    (first :: (inner ++ behind)).drop (escapedWidth (first :: (inner ++ behind))) = behind := by
  rw [escapedWidth, spells.width, List.drop_succ_cons, List.drop_left]

end Pieces

theorem Quote.byte_spec (quote : Quote) : quote.byte ≠ backslash ∧ charWidth quote.byte = 1 ∧
    Quote.ofByte? quote.byte = some quote ∧ quote.byte ≠ slash := by
  cases quote <;> decide

theorem Quote.eq_byte_of_ofByte? {quote : Quote} {byte : UInt8}
    (known : Quote.ofByte? byte = some quote) : byte = quote.byte := by
  unfold Quote.ofByte? at known
  split at known
  · obtain rfl := Option.some.inj known
    assumption
  · split at known
    · obtain rfl := Option.some.inj known
      assumption
    · cases known

/-- Behind its opening quote a string is read to its end. -/
theorem SpellsString.staysInside {quote : Quote} {body behind : Bytes}
    (spelled : SpellsString quote body behind) {cursor : Cursor}
    (inside : cursor.context.mode = .quoted quote) (ahead : cursor.rest = body ++ behind) :
    ∃ later, cursor.StaysInside later ∧ later.rest = behind ∧ later.IsOutside := by
  obtain ⟨noEscape, width, -, -⟩ := quote.byte_spec
  have within : cursor.context.mode ≠ .normal := by rw [inside]; exact Mode.noConfusion
  induction spelled generalizing cursor with
  | closed behind =>
    obtain ⟨piece, next, step, rest, mode⟩ := Cursor.exists_step? ahead
    rw [inside] at rest mode
    refine ⟨next, .step within step (.refl next), ?_, .inl ?_⟩
    · simpa [Mode.reach, noEscape, width] using rest
    · simpa [Mode.next] using mode
  | broken behind =>
    obtain ⟨piece, next, step, rest, mode⟩ := Cursor.exists_step? ahead
    rw [inside] at rest mode
    refine ⟨next, .step within step (.refl next), ?_, .inl ?_⟩
    · exact rest
    · simpa [Mode.next] using mode
  | unclosed => exact ⟨cursor, .refl cursor, ahead, .inr ahead⟩
  | lone =>
    obtain ⟨piece, next, step, rest, -⟩ := Cursor.exists_step? ahead
    have nothing : next.rest = [] := by simpa using rest
    exact ⟨next, .step within step (.refl next), nothing, .inr nothing⟩
  | @escape character body behind character' _ ih =>
    obtain ⟨first, inner, rfl, spells⟩ := character'.exists_cons
    obtain ⟨piece, next, step, rest, mode⟩ := Cursor.exists_step? ahead
    rw [inside] at rest mode
    have left : next.rest = body ++ behind := by
      rw [rest, ← drop_escapedWidth spells (body ++ behind)]
      simp [Mode.reach]
    have stays : next.context.mode = .quoted quote := by
      simpa [Mode.next, noEscape.symm, lineFeed, backslash] using mode
    obtain ⟨later, inside', left', stops⟩ := ih stays left (by rw [stays]; exact Mode.noConfusion)
    exact ⟨later, .step within step inside', left', stops⟩
  | @character first inner body behind character noQuote noFeed noEscape _ ih =>
    obtain ⟨piece, next, step, rest, mode⟩ := Cursor.exists_step? ahead
    rw [inside] at rest mode
    have left : next.rest = body ++ behind := by
      rw [rest, ← drop_charWidth character.spells (body ++ behind)]
      simp [Mode.reach, noEscape]
    have stays : next.context.mode = .quoted quote := by
      simpa [Mode.next, noQuote, noFeed] using mode
    obtain ⟨later, inside', left', stops⟩ := ih stays left (by rw [stays]; exact Mode.noConfusion)
    exact ⟨later, .step within step inside', left', stops⟩

namespace Cursor

/-- A comment is read to the place that its bytes tell. -/
theorem exists_comment_read {cursor : Cursor} {body behind : Bytes} (whole : cursor.IsWhole)
    (outside : cursor.context.mode = .normal) (ahead : cursor.rest = slash :: asterisk :: body)
    (found : behindComment? body = some behind ∨ behindComment? body = none ∧ behind = []) :
    ∃ piece next later, cursor.step? = some (piece, next) ∧ next.StaysInside later ∧
      later.rest = behind ∧ later.IsOutside := by
  have step := step?_open outside ahead
  obtain ⟨next, same⟩ : ∃ next : Cursor,
      ⟨body, cursor.pos + 2, ⟨.comment, cursor.context.depth⟩⟩ = next := ⟨_, rfl⟩
  rw [same] at step
  have inside : next.context.mode = .comment := by rw [← same]
  have rest : next.rest = body := by rw [← same]
  have search := behindComment?_eq_leaveComment (whole.of_step? step) inside
  rw [rest] at search
  refine ⟨_, next, next.leaveComment, step, staysInside_leaveComment next, ?_⟩
  by_cases stays : next.leaveComment.context.mode = .comment
  · rw [if_pos stays] at search
    have finished := rest_leaveComment stays
    rcases found with found | ⟨-, rfl⟩
    · rw [search] at found
      contradiction
    · exact ⟨finished, .inr finished⟩
  · rw [if_neg stays] at search
    obtain ⟨_, _, context⟩ := leaveComment_closed inside stays
    rcases found with found | ⟨found, -⟩
    · exact ⟨Option.some.inj (search.symm.trans found), .inl (by rw [context])⟩
    · rw [search] at found
      contradiction

end Cursor

/-- Each kind of token is read as one, whatever follows it. -/
theorem SpellsToken.exists_readsToken {token behind : Bytes} (spelled : SpellsToken token behind)
    {cursor : Cursor} (whole : cursor.IsWhole) (outside : cursor.context.mode = .normal)
    (ahead : cursor.rest = token ++ behind) : ∃ later, cursor.ReadsToken token later := by
  cases spelled with
  | escape behind character =>
    obtain ⟨first, inner, rfl, spells⟩ := character.exists_cons
    obtain ⟨piece, next, step, rest, mode⟩ := Cursor.exists_step? ahead
    rw [outside] at rest mode
    have left : next.rest = behind := rest.trans (drop_escapedWidth spells behind)
    refine ⟨next, Cursor.readsToken_of_step? step (.refl next) (.inl ?_) ahead left⟩
    rw [mode]
    rfl
  | lone =>
    obtain ⟨piece, next, step, rest, -⟩ := Cursor.exists_step? ahead
    have left : next.rest = [] := by simpa using rest
    exact ⟨next, Cursor.readsToken_of_step? step (.refl next) (.inr left) ahead left⟩
  | comment behind spelled =>
    obtain ⟨body, rfl, free⟩ := spelled
    have opens : cursor.rest = slash :: asterisk :: (body ++ asterisk :: slash :: behind) := by
      simpa using ahead
    obtain ⟨piece, next, later, step, inside, left, stops⟩ :=
      Cursor.exists_comment_read whole outside opens (.inl (behindComment?_spelled free behind))
    exact ⟨later, Cursor.readsToken_of_step? step inside stops ahead left⟩
  | openComment spelled =>
    obtain ⟨body, rfl, free⟩ := spelled
    rw [List.append_nil] at ahead
    obtain ⟨piece, next, later, step, inside, left, stops⟩ :=
      Cursor.exists_comment_read whole outside ahead (.inr ⟨behindComment?_free free, rfl⟩)
    refine ⟨later, Cursor.readsToken_of_step? step inside stops ?_ left⟩
    rw [ahead, List.append_nil]
  | @string quote body behind spelled =>
    obtain ⟨noEscape, width, known, noSlash⟩ := quote.byte_spec
    obtain ⟨piece, next, step, rest, mode⟩ := Cursor.exists_step? ahead
    rw [outside] at rest mode
    have inside : next.context.mode = .quoted quote := by
      simpa [Mode.next, opensComment, noSlash, known] using mode
    have left : next.rest = body ++ behind := by
      simpa [Mode.reach, opensComment, noSlash, noEscape, width] using rest
    obtain ⟨later, stays, left', stops⟩ := spelled.staysInside inside left
    exact ⟨later, Cursor.readsToken_of_step? step stays stops ahead left'⟩
  | @character first inner behind character noEscape noQuote noComment =>
    have apart : cursor.rest = first :: (inner ++ behind) := ahead
    obtain ⟨piece, next, step, rest, mode⟩ := Cursor.exists_step? apart
    rw [outside] at rest mode
    have stays : opensComment first (inner ++ behind) = false := by
      rw [Bool.eq_false_iff]
      intro opens
      simp only [opensComment, Bool.and_eq_true, beq_iff_eq, List.head?_eq_some_iff] at opens
      obtain ⟨rfl, more, same⟩ := opens
      exact noComment ⟨more, by rw [same]; rfl⟩
    have plain : Quote.ofByte? first = none := by
      cases known : Quote.ofByte? first with
      | none => rfl
      | some quote => exact absurd (Quote.eq_byte_of_ofByte? known) (noQuote quote)
    have reach : Mode.normal.reach first (inner ++ behind) = charWidth first - 1 := by
      simp [Mode.reach, stays, noEscape]
    have left : next.rest = behind := by rw [rest, reach, drop_charWidth character.spells]
    refine ⟨next, Cursor.readsToken_of_step? step (.refl next) (.inl ?_) ahead left⟩
    rw [mode]
    simp [Mode.next, stays, plain]

/-- What a text starts with is one token only. -/
theorem SpellsToken.unique {token other behind behind' : Bytes} (spelled : SpellsToken token behind)
    (spelled' : SpellsToken other behind') (same : token ++ behind = other ++ behind')
    (valid : (token ++ behind).isUtf8 = true) : token = other ∧ behind = behind' := by
  have whole : (Cursor.ofText (token ++ behind)).IsWhole := valid
  obtain ⟨later, first⟩ := spelled.exists_readsToken whole rfl rfl
  obtain ⟨later', second⟩ := spelled'.exists_readsToken whole rfl same
  obtain ⟨piece, next, step, inside⟩ := first.starts
  obtain ⟨piece', next', step', inside'⟩ := second.starts
  obtain ⟨-, rfl⟩ := Prod.mk.inj (Option.some.inj (step.symm.trans step'))
  obtain rfl := inside.unique inside' first.stops second.stops
  have rest : token ++ behind = token ++ later.rest := first.reads.rest
  have rest' : token ++ behind = other ++ later.rest := second.reads.rest
  obtain rfl := List.append_cancel_right (rest.symm.trans rest')
  exact ⟨rfl, List.append_cancel_left same⟩

/-- Behind a token there is text again. -/
theorem SpellsToken.isUtf8_behind {token behind : Bytes} (spelled : SpellsToken token behind)
    (valid : (token ++ behind).isUtf8 = true) : behind.isUtf8 = true := by
  have whole : (Cursor.ofText (token ++ behind)).IsWhole := valid
  obtain ⟨later, read⟩ := spelled.exists_readsToken whole rfl rfl
  obtain ⟨piece, next, step, inside⟩ := read.starts
  have rest : token ++ behind = token ++ later.rest := read.reads.rest
  rw [List.append_cancel_left rest]
  exact inside.isWhole (whole.of_step? step)

theorem Tokens.unique {text : Bytes} {tokens others : List Bytes} (read : Tokens text tokens)
    (read' : Tokens text others) (valid : text.isUtf8 = true) : tokens = others := by
  induction read generalizing others with
  | nil =>
    generalize same : ([] : Bytes) = text at read'
    cases read' with
    | nil => rfl
    | cons spelled => exact absurd (List.append_eq_nil_iff.mp same.symm).1 spelled.ne_nil
  | @cons token behind tokens spelled _ ih =>
    generalize same : token ++ behind = text at read'
    cases read' with
    | nil => exact absurd (List.append_eq_nil_iff.mp same).1 spelled.ne_nil
    | cons spelled' rest' =>
      obtain ⟨rfl, rfl⟩ := spelled.unique spelled' same valid
      rw [ih rest' (spelled.isUtf8_behind valid)]

theorem exists_tokens {text : Bytes} (valid : text.isUtf8 = true) :
    ∃ tokens, Tokens text tokens := by
  induction size : text.length using Nat.strongRecOn generalizing text with
  | ind bound ih =>
    by_cases finished : text = []
    · exact ⟨[], finished ▸ .nil⟩
    · obtain ⟨token, behind, rfl, spelled⟩ := exists_token valid finished
      have shorter : behind.length < bound := by
        have := List.length_pos_iff.mpr spelled.ne_nil
        rw [← size, List.length_append]
        omega
      obtain ⟨tokens, rest⟩ := ih behind.length shorter (spelled.isUtf8_behind valid) rfl
      exact ⟨token :: tokens, .cons spelled rest⟩

theorem depthBehind_le (depth : Nat) (token : Bytes) :
    depthBehind depth token ≤ depth + token.count openParen := by
  unfold depthBehind
  split
  · rename_i opens
    simp [opens]
  · split <;> omega

/-- While there is room in the word, it counts the open parentheses of the tokens. -/
theorem SpellsToken.toNat_nextDepth {token behind : Bytes} (spelled : SpellsToken token behind)
    {context : Context} {first : UInt8} (outside : context.mode = .normal)
    (head : token.head? = some first)
    (room : context.depth.toNat + token.count openParen < UInt32.size) :
    (context.nextDepth first).toNat = depthBehind context.depth.toNat token := by
  have opens := spelled.eq_paren (.inl (rfl : openParen = openParen))
  have closes := spelled.eq_paren (.inr (rfl : closeParen = closeParen))
  rw [head, Option.some.injEq] at opens closes
  rw [Context.nextDepth, if_neg (not_not_intro outside), depthBehind]
  simp only [opens, closes]
  split
  · rename_i same
    rw [same, List.count_singleton_self] at room
    rw [UInt32.toNat_add, UInt32.toNat_one, Nat.mod_eq_of_lt room]
  · split
    · by_cases outermost : context.depth = 0
      · simp [outermost]
      · have nested : 1 ≤ context.depth := by
          rw [UInt32.le_iff_toNat_le, UInt32.toNat_one]
          exact Nat.pos_of_ne_zero fun zero => outermost (UInt32.toNat_inj.mp zero)
        rw [if_neg outermost, UInt32.toNat_sub_of_le _ _ nested]
        rfl
    · rfl

/-- A search at top level goes from token to token. Nothing follows a string or a comment
that lacks its end. -/
theorem Tokens.skipPast_eq {text : Bytes} {tokens : List Bytes} (read : Tokens text tokens)
    (byte : UInt8) {cursor : Cursor} (whole : cursor.IsWhole)
    (outside : cursor.context.mode = .normal) (ahead : cursor.rest = text)
    (room : cursor.context.depth.toNat + text.count openParen < UInt32.size) :
    (cursor.skipPast byte).1 =
      firstOutside? byte cursor.context.depth.toNat cursor.pos tokens := by
  induction read generalizing cursor with
  | nil => rw [Cursor.skipPast_of_rest_nil ahead, firstOutside?]
  | @cons token behind tokens spelled rest ih =>
    obtain ⟨later, reading⟩ := spelled.exists_readsToken whole outside ahead
    obtain ⟨piece, next, step, inside⟩ := reading.starts
    have head : token.head? = some piece.first := by
      obtain ⟨first, more, rfl⟩ := List.exists_cons_of_ne_nil spelled.ne_nil
      have same := ahead.symm.trans (Cursor.reads_of_step? step).rest
      exact congrArg some (List.cons.inj same).1
    have left : later.rest = behind :=
      List.append_cancel_left (reading.reads.rest.symm.trans ahead)
    rw [List.count_append] at room
    have depth : later.context.depth.toNat = depthBehind cursor.context.depth.toNat token := by
      rw [inside.depth_eq, Cursor.nextDepth_of_step? step]
      exact spelled.toNat_nextDepth outside head (by omega)
    have hit : (cursor.context.isTopLevel && piece.first == byte) = true ↔
        cursor.context.depth.toNat = 0 ∧ token.head? = some byte := by
      rw [head, Option.some.injEq, Bool.and_eq_true, beq_iff_eq]
      simp [Context.isTopLevel, outside, ← UInt32.toNat_inj]
    rw [Cursor.skipPast_of_step? step, firstOutside?]
    simp only [hit]
    split
    · rfl
    · rw [inside.skipPast_eq, ← depth, ← reading.reads.pos]
      rcases reading.stops with outside' | finished
      · apply ih (inside.isWhole (whole.of_step? step)) outside' left
        have := depthBehind_le cursor.context.depth.toNat token
        omega
      · obtain rfl : behind = [] := left.symm.trans finished
        rw [rest.unique .nil Bytes.isUtf8_nil, Cursor.skipPast_of_rest_nil finished, firstOutside?]

/-- A text has one reading in tokens, and the search for a byte at top level finds the place
of the first token that the byte starts outside all parentheses, or nothing if there is no
such token. -/
theorem findTopLevel?_finds_token {text : Bytes} (valid : text.isUtf8 = true)
    (few : text.count openParen < UInt32.size) (byte : UInt8) :
    ∃ tokens, Tokens text tokens ∧ (∀ others, Tokens text others → others = tokens) ∧
      (∀ place, findTopLevel? text byte = some place ↔
        ∃ before token, IsFirstOutside byte 0 tokens before token ∧
          place = before.flatten.length) ∧
      (findTopLevel? text byte = none ↔ ∀ before token after,
        tokens = before ++ token :: after → ¬ StartsOutside byte 0 before token) := by
  obtain ⟨tokens, read⟩ := exists_tokens valid
  have search : findTopLevel? text byte = firstOutside? byte 0 0 tokens :=
    read.skipPast_eq byte (show (Cursor.ofText text).IsWhole from valid) rfl rfl (by
      simpa [Cursor.ofText] using few)
  refine ⟨tokens, read, fun others other => other.unique read valid, fun place => ?_, ?_⟩
  · rw [search, firstOutside?_eq_some_iff]
    simp only [Nat.zero_add]
  · rw [search, firstOutside?_eq_none_iff]

/-- Semicolons in a string, behind a quote that is escaped, in a comment and in parentheses;
the parentheses in an escape and in the comment do not count. -/
theorem findTopLevel?_finds_token_spans :
    let text := Bytes.ofString "\\(é'\\';'/*(;*/(;);"
    text.isUtf8 = true ∧ text.count openParen < UInt32.size ∧
    findTopLevel? text semicolon = some 18 ∧
    ∃ tokens, Tokens text tokens ∧ (∀ others, Tokens text others → others = tokens) ∧
      ∃ before token, IsFirstOutside semicolon 0 tokens before token ∧
        18 = before.flatten.length := by
  intro text
  have valid : text.isUtf8 = true := Bytes.isUtf8_ofString _
  have few : text.count openParen < UInt32.size := by decide +kernel
  have found : findTopLevel? text semicolon = some 18 := by decide +kernel
  obtain ⟨tokens, read, single, places, -⟩ := findTopLevel?_finds_token valid few semicolon
  exact ⟨valid, few, found, tokens, read, single, (places 18).mp found⟩

end CssSort
