import CssSort.Block.Semicolon
import CssSort.Proofs.Block.Rereading

/-! The semicolon that a block is given. It is missing behind the units that are
read last or nowhere, so units that end by themselves can be put in front of a
block without changing where it goes. Once it is there, none is missing: it is
the last meaningful byte, even if a string or an escape takes it in. -/
namespace CssSort
open Ascii

/-- Nothing meaningful was read, or a semicolon was read last. -/
def EndsSemicolon (last : Option (Nat × UInt8)) : Prop :=
  ∀ found ∈ last, found.2 = semicolon

namespace Cursor

theorem pos_of_step? {cursor next : Cursor} {piece : Piece}
    (step : cursor.step? = some (piece, next)) : cursor.pos < next.pos ∧
      next.pos + next.rest.length = cursor.pos + cursor.rest.length := by
  have reads := reads_of_step? step
  have long := reads.length
  have place := reads.pos
  simp only [Piece.bytes, List.length_cons] at long place
  omega

theorem lastSignificant_bounds (cursor : Cursor) (last : Option (Nat × UInt8)) :
    ∀ found ∈ cursor.lastSignificant last, found ∈ last ∨
      cursor.pos < found.1 ∧ found.1 ≤ cursor.pos + cursor.rest.length := by
  fun_induction lastSignificant cursor last with
  | case1 cursor last => exact fun found member => .inl member
  | case2 cursor last piece next step idle ih =>
    intro found member
    obtain ⟨further, same⟩ := pos_of_step? step
    exact (ih found member).imp_right fun bounds => by omega
  | case3 cursor last piece next step busy ih =>
    intro found member
    obtain ⟨further, same⟩ := pos_of_step? step
    refine .inr ?_
    rcases ih found member with here | bounds
    · obtain rfl := Option.mem_some.mp here
      exact ⟨further, by omega⟩
    · omega

theorem lastSignificant_statement {blanks statement : Bytes} (all : AllBlank blanks)
    (valid : IsStatement statement) (pos : Nat) (behind : Bytes) (last : Option (Nat × UInt8)) :
    (fresh pos (blanks ++ (statement ++ behind))).lastSignificant last =
      (fresh (pos + blanks.length + statement.length) behind).lastSignificant
        (some (pos + blanks.length + statement.length, semicolon)) := by
  have passes : (fresh pos (blanks ++ (statement ++ behind))).Passes
      (fresh (pos + blanks.length) (statement ++ behind)) := passes_blanks all pos rfl
  rw [passes.lastSignificant, lastSignificant_skipPast isPlain_semicolon (by decide)
    (valid.skipPast_append _ behind)]
  rfl

end Cursor

theorem Sealed.lastSignificant {unit : Bytes} (ended : Sealed unit) (pos : Nat) (behind : Bytes)
    {first : Option (Nat × UInt8)} (good : EndsSemicolon first) :
    ∃ last, EndsSemicolon last ∧ (Cursor.fresh pos (unit ++ behind)).lastSignificant first =
      (Cursor.fresh (pos + unit.length) behind).lastSignificant last := by
  have found : ∀ place, EndsSemicolon (some (place, semicolon)) := by
    rintro place _ ⟨⟩
    rfl
  cases ended with
  | comment all closed =>
    rename_i blanks comment
    have passes : (Cursor.fresh pos (blanks ++ (comment ++ behind))).Passes _ :=
      (Cursor.passes_blanks all pos rfl).trans (closed.passes (pos + blanks.length) behind)
    refine ⟨first, good, ?_⟩
    rw [List.append_assoc, passes.lastSignificant, List.length_append, Nat.add_assoc]
  | bare all valid =>
    rename_i blanks statement
    refine ⟨some (pos + blanks.length + statement.length, semicolon), found _, ?_⟩
    rw [List.append_assoc, Cursor.lastSignificant_statement all valid, List.length_append,
      Nat.add_assoc]
  | noted all valid spaces closed =>
    rename_i blanks statement inline comment
    have passes : ∀ place, (Cursor.fresh place (inline ++ (comment ++ behind))).Passes _ :=
      fun place => (Cursor.passes_blanks spaces.allBlank place rfl).trans (closed.passes _ behind)
    refine ⟨some (pos + blanks.length + statement.length, semicolon), found _, ?_⟩
    simp only [List.append_assoc]
    rw [Cursor.lastSignificant_statement all valid, (passes _).lastSignificant]
    simp only [List.length_append, Nat.add_assoc]

/-- Units that end by themselves leave the search to what stands behind them. -/
theorem lastSignificant?_flatten_append {units : List Bytes} (ended : ∀ unit ∈ units, Sealed unit)
    (behind : Bytes) :
    ∃ last, EndsSemicolon last ∧ lastSignificant? (units.flatten ++ behind) =
      ((lastSignificant? behind).map fun found => (units.flatten.length + found.1, found.2)).or
        last := by
  have reading : ∀ pos first, EndsSemicolon first → ∃ last, EndsSemicolon last ∧
      (Cursor.fresh pos (units.flatten ++ behind)).lastSignificant first =
        (Cursor.fresh (pos + units.flatten.length) behind).lastSignificant last := by
    induction units with
    | nil => exact fun pos first good => ⟨first, good, rfl⟩
    | cons unit units ih =>
      intro pos first good
      obtain ⟨middle, middleGood, head⟩ :=
        (ended unit List.mem_cons_self).lastSignificant pos (units.flatten ++ behind) good
      obtain ⟨last, lastGood, tail⟩ :=
        ih (fun unit member => ended unit (List.mem_cons_of_mem _ member)) _ middle middleGood
      refine ⟨last, lastGood, ?_⟩
      rw [List.flatten_cons, List.append_assoc, head, tail, List.length_append, Nat.add_assoc]
  obtain ⟨last, good, search⟩ := reading 0 none (by rintro _ ⟨⟩)
  have whole : lastSignificant? (units.flatten ++ behind) = _ := search
  have shifted : (Cursor.fresh (0 + units.flatten.length) behind).lastSignificant none =
      (lastSignificant? behind).map fun found => (units.flatten.length + found.1, found.2) := by
    rw [Nat.zero_add, Cursor.fresh_eq_embed]
    exact Cursor.lastSignificant_shift (Cursor.ofText behind) units.flatten.length none
  refine ⟨last, good, ?_⟩
  rw [whole, ← shifted, ← Cursor.lastSignificant_or, Option.none_or]

namespace Block

theorem missingSemicolon?_eq_none_iff {block : Bytes} :
    missingSemicolon? block = none ↔ EndsSemicolon (lastSignificant? block) := by
  rw [missingSemicolon?, EndsSemicolon]
  cases lastSignificant? block with
  | none => simp
  | some found => simp

theorem missingSemicolon?_eq_some_iff {block : Bytes} {stop : Nat} :
    missingSemicolon? block = some stop ↔
      ∃ last, lastSignificant? block = some (stop, last) ∧ last ≠ semicolon := by
  rw [missingSemicolon?]
  cases lastSignificant? block with
  | none => simp
  | some found =>
    obtain ⟨place, last⟩ := found
    by_cases enough : last = semicolon
    · simp [enough]
    · simp only [if_neg enough, Option.some.injEq, Prod.mk.injEq]
      constructor
      · rintro rfl
        exact ⟨last, ⟨rfl, rfl⟩, enough⟩
      · rintro ⟨-, ⟨rfl, -⟩, -⟩
        rfl

theorem missingSemicolon?_flatten_append {units : List Bytes}
    (ended : ∀ unit ∈ units, Sealed unit) (behind : Bytes) :
    missingSemicolon? (units.flatten ++ behind) =
      (missingSemicolon? behind).map (units.flatten.length + ·) := by
  obtain ⟨last, good, search⟩ := lastSignificant?_flatten_append ended behind
  rw [missingSemicolon?, missingSemicolon?, search]
  cases lastSignificant? behind with
  | none =>
    cases last with
    | none => rfl
    | some found => simp [good found rfl]
  | some found =>
    simp only [Option.map_some, Option.some_or]
    split <;> rfl

theorem terminate_flatten_append {units : List Bytes} (ended : ∀ unit ∈ units, Sealed unit)
    (behind : Bytes) : terminate (units.flatten ++ behind) = units.flatten ++ terminate behind := by
  rw [terminate, terminate, missingSemicolon?_flatten_append ended]
  cases missingSemicolon? behind with
  | none => rfl
  | some stop =>
    simp only [Option.map_some, List.take_length_add_append, List.drop_length_add_append,
      List.append_assoc]

end Block

theorem escapedWidth_pos (first : UInt8) (rest : Bytes) : 0 < escapedWidth (first :: rest) := by
  simp only [escapedWidth, charWidth]
  split <;> try split <;> try split
  all_goals omega

theorem opensComment_insert {first : UInt8} {tail behind : Bytes}
    (noComment : opensComment first (tail ++ behind) = false) :
    opensComment first (tail ++ semicolon :: behind) = false := by
  cases tail with
  | nil => simp [opensComment, semicolon, asterisk]
  | cons byte tail => exact noComment

/-- A meaningful piece starts here: no comment is open and none starts. -/
def Mode.Busy (mode : Mode) (first : UInt8) (rest : Bytes) : Prop :=
  mode ≠ .comment ∧ (mode = .normal → opensComment first rest = false)

namespace Mode.Busy

variable {mode : Mode} {first : UInt8} {rest : Bytes} (busy : mode.Busy first rest)
include busy

/-- Only an escape looks ahead. -/
theorem reach_eq : mode.reach first rest =
    if first = backslash then escapedWidth rest else charWidth first - 1 := by
  cases mode with
  | normal => simp [reach, busy.2 rfl]
  | quoted quote => rfl
  | comment => exact absurd rfl busy.1

theorem next_eq : mode.next first rest = mode.next first [] := by
  cases mode with
  | normal =>
    have nothing : opensComment first [] = false := by simp [opensComment]
    simp only [next, busy.2 rfl, nothing]
  | quoted quote => rfl
  | comment => exact absurd rfl busy.1

theorem next_ne_comment : mode.next first rest ≠ .comment := by
  cases mode with
  | normal =>
    simp only [next, busy.2 rfl, Bool.false_eq_true, if_false]
    split <;> exact Mode.noConfusion
  | quoted quote =>
    simp only [next]
    split <;> exact Mode.noConfusion
  | comment => exact absurd rfl busy.1

end Mode.Busy

namespace Cursor

/-- A semicolon put behind a meaningful piece is the next piece, unless that piece
was cut short by the end of the text and takes it in. -/
theorem step?_insert {first : UInt8} {tail behind : Bytes} {pos : Nat} {context : Context}
    {next : Cursor}
    (step : (⟨first :: (tail ++ behind), pos, context⟩ : Cursor).step? = some (⟨first, tail⟩, next))
    (left : next.rest = behind) (busy : context.mode.Busy first (tail ++ behind)) :
    (⟨first :: (tail ++ semicolon :: behind), pos, context⟩ : Cursor).step? =
        some (⟨first, tail⟩, ⟨semicolon :: behind, next.pos, next.context⟩) ∨
      behind = [] ∧ ∃ later,
        (⟨first :: (tail ++ [semicolon]), pos, context⟩ : Cursor).step? =
          some (⟨first, tail ++ [semicolon]⟩, later) ∧ later.rest = [] := by
  have busy' : context.mode.Busy first (tail ++ semicolon :: behind) :=
    ⟨busy.1, fun outside => opensComment_insert (busy.2 outside)⟩
  rw [step?_cons rfl] at step
  obtain ⟨same, rfl⟩ := Prod.mk.inj (Option.some.inj step)
  generalize width : context.mode.reach first (tail ++ behind) = reach at same left
  rw [busy.reach_eq] at width
  have cut : (tail ++ behind).take reach = tail := congrArg Piece.tail same
  have size : min reach (tail.length + behind.length) = tail.length := by
    rw [← List.length_append, ← List.length_take, cut]
  have width' : context.mode.reach first (tail ++ semicolon :: behind) = reach ∨
      tail ++ behind = [] ∧ context.mode.reach first (tail ++ semicolon :: behind) = 1 := by
    rw [busy'.reach_eq]
    by_cases escape : first = backslash
    · rw [if_pos escape] at width ⊢
      cases tail with
      | cons byte tail => exact .inl width
      | nil =>
        cases behind with
        | nil => exact .inr ⟨rfl, rfl⟩
        | cons byte behind =>
          have := escapedWidth_pos byte behind
          simp only [List.nil_append, List.length_nil, List.length_cons] at width size
          omega
    · rw [if_neg escape] at width ⊢
      exact .inl width
  by_cases fits : context.mode.reach first (tail ++ semicolon :: behind) = tail.length
  · refine .inl ?_
    rw [step?_cons rfl]
    simp only [fits, List.take_left, List.drop_left, Context.next, busy.next_eq, busy'.next_eq,
      cut]
  · have beyond : behind = [] ∧
        tail.length + 1 ≤ context.mode.reach first (tail ++ semicolon :: behind) := by
      rw [← List.length_eq_zero_iff]
      rcases width' with same | ⟨nothing, single⟩
      · rw [same] at fits ⊢
        omega
      · obtain ⟨rfl, rfl⟩ := List.append_eq_nil_iff.mp nothing
        rw [single]
        exact ⟨rfl, Nat.le_refl _⟩
    obtain ⟨rfl, beyond⟩ := beyond
    have whole : (tail ++ [semicolon]).length ≤
        context.mode.reach first (tail ++ [semicolon]) := by simpa using beyond
    have longer : (⟨first :: (tail ++ [semicolon]), pos, context⟩ : Cursor).step? = _ :=
      step?_cons rfl
    simp only [List.take_of_length_le whole, List.drop_eq_nil_of_le whole] at longer
    exact .inr ⟨rfl, _, longer, rfl⟩

theorem step?_semicolon (rest : Bytes) (pos : Nat) {context : Context}
    (outside : context.mode ≠ .comment) :
    (⟨semicolon :: rest, pos, context⟩ : Cursor).step? =
      some (⟨semicolon, []⟩, ⟨rest, pos + 1, context⟩) := by
  obtain ⟨mode, depth⟩ := context
  cases mode with
  | normal => exact step?_plain isPlain_semicolon rfl rfl
  | quoted quote => cases quote <;> rfl
  | comment => exact absurd rfl outside

theorem isIdle_eq_false_iff {first : UInt8} {rest : Bytes} {pos : Nat} {context : Context}
    {piece : Piece} : (⟨first :: rest, pos, context⟩ : Cursor).isIdle piece = false ↔
      context.mode.Busy first rest ∧ isBlank piece.first = false := by
  simp [isIdle, isAtComment, Mode.Busy]

theorem lastSignificant_insert_last {first : UInt8} {tail behind : Bytes} {pos : Nat}
    {context : Context} {next : Cursor}
    (step : (⟨first :: (tail ++ behind), pos, context⟩ : Cursor).step? = some (⟨first, tail⟩, next))
    (left : next.rest = behind) (busy : context.mode.Busy first (tail ++ behind))
    (noBlank : isBlank first = false) (silent : next.lastSignificant none = none)
    (last : Option (Nat × UInt8)) :
    (⟨first :: (tail ++ semicolon :: behind), pos, context⟩ : Cursor).lastSignificant last =
      some (pos + (tail.length + 1) + 1, semicolon) := by
  rcases step?_insert step left busy with apart | ⟨rfl, later, taken, finished⟩
  · have outside : next.context.mode ≠ .comment := by
      rw [step?_cons rfl] at step
      obtain ⟨-, rfl⟩ := Prod.mk.inj (Option.some.inj step)
      exact busy.next_ne_comment
    have awake : (⟨semicolon :: behind, next.pos, next.context⟩ : Cursor).isIdle ⟨semicolon, []⟩ =
        false := isIdle_eq_false_iff.mpr ⟨⟨outside, fun _ => rfl⟩, by decide⟩
    have silent' : (⟨behind, next.pos + 1, next.context⟩ : Cursor).lastSignificant none = none := by
      have shifted := lastSignificant_shift next 1 none
      rw [silent, embed, left, List.append_nil, Nat.add_comm] at shifted
      exact shifted
    have place : next.pos = pos + (tail.length + 1) := (reads_of_step? step).pos
    rw [lastSignificant_of_step? apart, lastSignificant_of_step? (step?_semicolon _ _ outside), awake,
      lastSignificant_eq_or, silent', Option.none_or, ← place]
    rfl
  · have awake : (⟨first :: (tail ++ [semicolon]), pos, context⟩ : Cursor).isIdle
        ⟨first, tail ++ [semicolon]⟩ = false :=
      isIdle_eq_false_iff.mpr
        ⟨⟨busy.1, fun outside => opensComment_insert (busy.2 outside)⟩, noBlank⟩
    have place : later.pos = pos + (tail.length + 1) + 1 := by
      simp [(reads_of_step? taken).pos, Piece.bytes, Nat.add_assoc]
    rw [lastSignificant_of_step? taken, lastSignificant_of_rest_nil finished, awake, ← place]
    simp [Piece.last]

/-- With a semicolon behind its last meaningful piece a text ends with that one. -/
theorem lastSignificant_insert {front behind : Bytes} {pos : Nat} {context : Context}
    {byte : UInt8} (search : (⟨front ++ behind, pos, context⟩ : Cursor).lastSignificant none =
      some (pos + front.length, byte)) (last : Option (Nat × UInt8)) :
    (⟨front ++ semicolon :: behind, pos, context⟩ : Cursor).lastSignificant last =
      some (pos + front.length + 1, semicolon) := by
  induction size : front.length using Nat.strongRecOn generalizing front pos context last with
  | ind size ih =>
    subst size
    have whole : ∀ more, (⟨front ++ more, pos, context⟩ : Cursor) =
        (⟨front, pos, context⟩ : Cursor).embed 0 more := fun more => by simp [embed]
    cases taken : (⟨front ++ behind, pos, context⟩ : Cursor).step? with
    | none =>
      rw [lastSignificant_of_rest_nil (step?_eq_none_iff.mp taken)] at search
      contradiction
    | some found =>
      obtain ⟨piece, next⟩ := found
      obtain ⟨further, same⟩ := pos_of_step? taken
      simp only [List.length_append] at further same
      rw [lastSignificant_of_step? taken, lastSignificant_eq_or] at search
      cases later : next.lastSignificant none with
      | some found =>
        rw [later, Option.some_or] at search
        obtain rfl := Option.some.inj search
        have ahead := (lastSignificant_bounds next none _ later).resolve_left (by rintro ⟨⟩)
        simp only at ahead
        have unread : behind.length < next.rest.length := by omega
        rw [whole] at taken
        obtain ⟨inner, own, more, rfl⟩ := step?_of_embed taken unread
        obtain ⟨-, kept⟩ := pos_of_step? own
        have search' : (⟨inner.rest ++ behind, inner.pos, inner.context⟩ : Cursor).lastSignificant
            none = some (inner.pos + inner.rest.length, byte) := by
          rw [kept, ← later, embed, Nat.zero_add]
        have place : pos + front.length = inner.pos + inner.rest.length := kept.symm
        rw [whole, lastSignificant_of_step? (step?_embed own more 0 _), embed, Nat.zero_add, place]
        exact ih _ (rest_length_of_step? own) search' _ rfl
      | none =>
        rw [later, Option.none_or] at search
        split at search
        · contradiction
        · rename_i awake
          obtain ⟨place, -⟩ := Prod.mk.inj (Option.some.inj search)
          obtain ⟨read, stop⟩ := reads_of_step? taken
          simp only at read stop place
          obtain ⟨rfl, rfl⟩ := List.append_inj read (by omega)
          obtain ⟨busy, noBlank⟩ := isIdle_eq_false_iff.mp (Bool.eq_false_iff.mpr awake)
          exact lastSignificant_insert_last taken rfl busy noBlank later last

end Cursor

namespace Block

/-- The semicolon that a block is given is its last meaningful byte. -/
theorem lastSignificant?_terminate {block : Bytes} {stop : Nat}
    (missing : missingSemicolon? block = some stop) :
    stop ≤ block.length ∧ lastSignificant? (terminate block) = some (stop + 1, semicolon) := by
  obtain ⟨byte, search, -⟩ := missingSemicolon?_eq_some_iff.mp missing
  have bounds : stop ≤ block.length := by
    have := (Cursor.lastSignificant_bounds _ none _ search).resolve_left (by rintro ⟨⟩)
    simpa [Cursor.ofText] using this.2
  have size : 0 + (block.take stop).length = stop := by simp [bounds]
  have search' : (⟨block.take stop ++ block.drop stop, 0, {}⟩ : Cursor).lastSignificant none =
      some (0 + (block.take stop).length, byte) := by
    rw [List.take_append_drop, size]
    exact search
  have found := Cursor.lastSignificant_insert search' none
  rw [size] at found
  refine ⟨bounds, ?_⟩
  rw [terminate, missing]
  exact found

/-- A block needs its semicolon only once. -/
theorem missingSemicolon?_terminate (block : Bytes) : missingSemicolon? (terminate block) = none := by
  cases missing : missingSemicolon? block with
  | none => rwa [terminate, missing]
  | some stop =>
    rw [missingSemicolon?, (lastSignificant?_terminate missing).2]
    exact if_pos rfl

theorem terminate_of_none {block : Bytes} (enough : missingSemicolon? block = none) :
    terminate block = block := by
  rw [terminate, enough]

end Block
end CssSort
