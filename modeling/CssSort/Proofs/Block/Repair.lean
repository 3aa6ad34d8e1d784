import CssSort.Proofs.Block.Semicolon
import CssSort.Proofs.Item.Note

/-! A block is repaired at most once. The search for the last meaningful piece reports
exactly the place behind which only blanks and comments are read. The missing semicolon
goes there, and it is then the last meaningful byte itself, even if an escape or an open
string takes it in. -/
namespace CssSort
open Ascii

namespace Cursor

/-- Some steps lead from a cursor to a later one. -/
inductive Reaches : Cursor → Cursor → Prop where
  | refl (cursor : Cursor) : Reaches cursor cursor
  | next {cursor next later : Cursor} {piece : Piece} :
      cursor.step? = some (piece, next) → Reaches next later → Reaches cursor later

/-- Nothing but blanks and comments is left to read. -/
def StaysIdle (cursor : Cursor) : Prop :=
  ∃ later, cursor.Passes later ∧ later.rest = []

/-- The last meaningful piece from here on ends at `stop` with the byte `last`, and all
that is read behind it are blanks and comments. -/
def EndsAt (cursor : Cursor) (stop : Nat) (last : UInt8) : Prop :=
  ∃ start piece later, cursor.Reaches start ∧ start.step? = some (piece, later) ∧
    start.isIdle piece = false ∧ later.pos = stop ∧ piece.last = last ∧ later.StaysIdle

theorem StaysIdle.lastSignificant {cursor : Cursor} (idle : cursor.StaysIdle) :
    cursor.lastSignificant none = none := by
  obtain ⟨later, passes, finished⟩ := idle
  rw [passes.lastSignificant, lastSignificant_of_rest_nil finished]

theorem Reaches.lastSignificant {cursor start : Cursor} (reaches : cursor.Reaches start)
    {found : Nat × UInt8} (later : start.lastSignificant none = some found) :
    cursor.lastSignificant none = some found := by
  induction reaches with
  | refl => exact later
  | next step _ ih =>
    rw [lastSignificant_of_step? step, lastSignificant_eq_or, ih later, Option.some_or]

theorem EndsAt.lastSignificant {cursor : Cursor} {stop : Nat} {last : UInt8}
    (ends : cursor.EndsAt stop last) : cursor.lastSignificant none = some (stop, last) := by
  obtain ⟨start, piece, later, reaches, step, busy, rfl, rfl, idle⟩ := ends
  apply reaches.lastSignificant
  rw [lastSignificant_of_step? step, busy, lastSignificant_eq_or, idle.lastSignificant]
  rfl

/-- Either all is idle, or some piece is the last that is not. -/
theorem staysIdle_or_endsAt (cursor : Cursor) :
    cursor.StaysIdle ∨ ∃ stop last, cursor.EndsAt stop last := by
  fun_induction finish cursor with
  | case1 cursor step => exact .inl ⟨cursor, .refl cursor, step?_eq_none_iff.mp step⟩
  | case2 cursor piece next step ih =>
    rcases ih with idle | ⟨stop, last, start, found, later, reaches, ends⟩
    · cases busy : cursor.isIdle piece with
      | true =>
        obtain ⟨later, passes, finished⟩ := idle
        exact .inl ⟨later, .step step busy passes, finished⟩
      | false => exact .inr ⟨_, _, cursor, piece, next, .refl cursor, step, busy, rfl, rfl, idle⟩
    · exact .inr ⟨stop, last, start, found, later, .next step reaches, ends⟩

theorem lastSignificant_eq_some_iff {cursor : Cursor} {stop : Nat} {last : UInt8} :
    cursor.lastSignificant none = some (stop, last) ↔ cursor.EndsAt stop last := by
  refine ⟨fun found => ?_, EndsAt.lastSignificant⟩
  rcases staysIdle_or_endsAt cursor with idle | ⟨stop', last', ends⟩
  · rw [idle.lastSignificant] at found
    contradiction
  · rw [ends.lastSignificant] at found
    obtain ⟨rfl, rfl⟩ := Prod.mk.inj (Option.some.inj found)
    exact ends

end Cursor

namespace Block

theorem lastSignificant?_terminate_eq_none_iff {block : Bytes} :
    lastSignificant? (terminate block) = none ↔ lastSignificant? block = none := by
  cases missing : missingSemicolon? block with
  | none => rw [terminate_of_none missing]
  | some stop =>
    obtain ⟨last, search, -⟩ := missingSemicolon?_eq_some_iff.mp missing
    rw [(lastSignificant?_terminate missing).2, search]
    simp

/-- A block that has nothing meaningful or ends with a semicolon is left alone. Any other
block gets one semicolon, behind its last meaningful piece and in front of the blanks
and comments that follow. After that it is the last meaningful byte and nothing is left
to repair. -/
theorem terminate_repairs_once (block : Bytes) :
    (EndsSemicolon (lastSignificant? block) → terminate block = block) ∧
    (∀ stop last, lastSignificant? block = some (stop, last) → last ≠ semicolon →
      (Cursor.ofText block).EndsAt stop last ∧
      (∃ front behind, block = front ++ behind ∧ front.length = stop ∧
        terminate block = front ++ semicolon :: behind) ∧
      (Cursor.ofText (terminate block)).EndsAt (stop + 1) semicolon) ∧
    (lastSignificant? (terminate block) = none ↔ lastSignificant? block = none) ∧
    EndsSemicolon (lastSignificant? (terminate block)) ∧
    terminate (terminate block) = terminate block := by
  have repaired := missingSemicolon?_terminate block
  refine ⟨fun good => terminate_of_none (missingSemicolon?_eq_none_iff.mpr good), ?_,
    lastSignificant?_terminate_eq_none_iff, missingSemicolon?_eq_none_iff.mp repaired,
    terminate_of_none repaired⟩
  intro stop last search other
  have missing : missingSemicolon? block = some stop :=
    missingSemicolon?_eq_some_iff.mpr ⟨last, search, other⟩
  obtain ⟨bounds, again⟩ := lastSignificant?_terminate missing
  refine ⟨Cursor.lastSignificant_eq_some_iff.mp search, ?_,
    Cursor.lastSignificant_eq_some_iff.mp again⟩
  refine ⟨block.take stop, block.drop stop, (List.take_append_drop stop block).symm, ?_, ?_⟩
  · rw [List.length_take, Nat.min_eq_left bounds]
  · rw [terminate, missing]

/-- A string that a line feed breaks off, an open parenthesis and a comment that is never
closed behind it; and a block that ends with a backslash. -/
theorem terminate_repairs_once_unclosed :
    let block := Bytes.ofString "a:url('x\n /*;"
    let escape := Bytes.ofString "a:\\"
    lastSignificant? block = some (8, 0x78) ∧
    (Cursor.ofText block).EndsAt 8 0x78 ∧
    terminate block = Bytes.ofString "a:url('x;\n /*;" ∧
    terminate (terminate block) = terminate block ∧
    lastSignificant? escape = some (3, backslash) ∧
    (Cursor.ofText (terminate escape)).EndsAt 4 semicolon ∧
    terminate (Bytes.ofString "a:\\;") = Bytes.ofString "a:\\;" := by
  intro block escape
  have string : lastSignificant? block = some (8, 0x78) := by decide +kernel
  have lone : lastSignificant? escape = some (3, backslash) := by decide +kernel
  have done : EndsSemicolon (lastSignificant? (Bytes.ofString "a:\\;")) := by
    rw [show lastSignificant? (Bytes.ofString "a:\\;") = some (4, semicolon) by decide +kernel]
    rintro _ ⟨⟩
    rfl
  obtain ⟨-, inserted, -, -, again⟩ := terminate_repairs_once block
  obtain ⟨-, taken, -⟩ := terminate_repairs_once escape
  obtain ⟨ends, -, -⟩ := inserted 8 0x78 string (by decide)
  obtain ⟨-, -, last⟩ := taken 3 backslash lone (by decide)
  obtain ⟨kept, -⟩ := terminate_repairs_once (Bytes.ofString "a:\\;")
  exact ⟨string, ends, by decide +kernel, again, lone, last, kept done⟩

end Block
end CssSort
