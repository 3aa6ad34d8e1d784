import CssSort.Cursor.Context

/-! A place in a text: the bytes not yet read, how many were read, and the
context they leave behind. A step reads one piece. A cursor moved behind the end
has nothing left to read and keeps the position it was moved to. -/
namespace CssSort
open Ascii

/-- The bytes that one step reads. -/
structure Piece where
  first : UInt8
  tail : Bytes
  deriving DecidableEq, Repr

namespace Piece

def bytes (piece : Piece) : Bytes :=
  piece.first :: piece.tail

def length (piece : Piece) : Nat :=
  piece.tail.length + 1

def last (piece : Piece) : UInt8 :=
  piece.tail.getLastD piece.first

end Piece

structure Cursor where
  rest : Bytes
  pos : Nat := 0
  context : Context := {}
  deriving DecidableEq, Repr

namespace Cursor

def ofText (text : Bytes) : Cursor :=
  { rest := text }

def peek? (cursor : Cursor) : Option UInt8 :=
  cursor.rest.head?

def isAtEnd (cursor : Cursor) : Bool :=
  cursor.rest.isEmpty

/-- Moves on without reading, so the context stays. -/
def advance (cursor : Cursor) (amount : Nat) : Cursor :=
  { cursor with rest := cursor.rest.drop amount, pos := cursor.pos + amount }

def skipWhile (cursor : Cursor) (p : UInt8 → Bool) : Cursor :=
  cursor.advance (cursor.rest.takeWhile p).length

def skipBlanks (cursor : Cursor) : Cursor :=
  cursor.skipWhile isBlank

def skipInlineBlanks (cursor : Cursor) : Cursor :=
  cursor.skipWhile isInlineBlank

/-- Reads one piece. -/
def step? (cursor : Cursor) : Option (Piece × Cursor) :=
  match cursor.rest with
  | [] => none
  | first :: rest =>
    let piece : Piece := ⟨first, rest.take (cursor.context.mode.reach first rest)⟩
    some (piece,
      { rest := rest.drop (cursor.context.mode.reach first rest)
        pos := cursor.pos + piece.length
        context := cursor.context.next first rest })

/-- A comment starts here. -/
def isAtComment (cursor : Cursor) : Bool :=
  cursor.context.mode == .normal &&
    match cursor.rest with
    | [] => false
    | first :: rest => opensComment first rest

/-- `later` stands behind the bytes `read` that `cursor` stands in front of. -/
structure Reads (cursor : Cursor) (read : Bytes) (later : Cursor) : Prop where
  rest : cursor.rest = read ++ later.rest
  pos : later.pos = cursor.pos + read.length

theorem Reads.refl (cursor : Cursor) : cursor.Reads [] cursor :=
  ⟨rfl, rfl⟩

theorem Reads.trans {cursor middle later : Cursor} {first second : Bytes}
    (start : cursor.Reads first middle) (finish : middle.Reads second later) :
    cursor.Reads (first ++ second) later where
  rest := by rw [start.rest, finish.rest, List.append_assoc]
  pos := by rw [finish.pos, start.pos, List.length_append, Nat.add_assoc]

theorem Reads.length {cursor later : Cursor} {read : Bytes} (reads : cursor.Reads read later) :
    cursor.rest.length = read.length + later.rest.length := by
  rw [reads.rest, List.length_append]

theorem reads_of_step? {cursor next : Cursor} {piece : Piece}
    (step : cursor.step? = some (piece, next)) : cursor.Reads piece.bytes next := by
  unfold step? at step
  split at step
  · cases step
  · rename_i first rest ahead
    obtain ⟨rfl, rfl⟩ := Prod.mk.inj (Option.some.inj step)
    exact ⟨by simp [ahead, Piece.bytes], by simp [Piece.bytes, Piece.length]⟩

theorem step?_eq_none_iff {cursor : Cursor} : cursor.step? = none ↔ cursor.rest = [] := by
  unfold step?
  split <;> simp_all

theorem rest_length_of_step? {cursor next : Cursor} {piece : Piece}
    (step : cursor.step? = some (piece, next)) : next.rest.length < cursor.rest.length := by
  rw [(reads_of_step? step).length, Piece.bytes, List.length_cons]
  omega

theorem reads_skipWhile (cursor : Cursor) (p : UInt8 → Bool) :
    cursor.Reads (cursor.rest.takeWhile p) (cursor.skipWhile p) where
  rest := by
    have all : cursor.rest.takeWhile p ++ cursor.rest.dropWhile p = cursor.rest :=
      List.takeWhile_append_dropWhile
    have behind : (cursor.rest.takeWhile p ++ cursor.rest.dropWhile p).drop
        (cursor.rest.takeWhile p).length = cursor.rest.dropWhile p := List.drop_left
    rw [all] at behind
    rw [skipWhile, advance, behind, all]
  pos := rfl

end Cursor
end CssSort
