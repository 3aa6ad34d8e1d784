import CssSort.Proofs.Cursor.Locality

/-! Blanks and comments carry no meaning: no search stops at them. A cursor that
has passed over some of them therefore searches as the one in front of them does,
and only a hit can change what the last meaningful piece is. -/
namespace CssSort
open Ascii

namespace Cursor

/-- The next piece is a blank or part of a comment. -/
def isIdle (cursor : Cursor) (piece : Piece) : Bool :=
  cursor.context.mode == .comment || cursor.isAtComment || isBlank piece.first

/-- Nothing but blanks and comments is read on the way to `later`. -/
inductive Passes : Cursor → Cursor → Prop where
  | refl (cursor : Cursor) : Passes cursor cursor
  | step {cursor next later : Cursor} {piece : Piece} :
      cursor.step? = some (piece, next) → cursor.isIdle piece = true → Passes next later →
      Passes cursor later

theorem Passes.trans {cursor middle later : Cursor} (first : Passes cursor middle)
    (last : Passes middle later) : Passes cursor later := by
  induction first with
  | refl => exact last
  | step step idle _ ih => exact .step step idle (ih last)

theorem passes_blanks {blanks text : Bytes} (all : ∀ byte ∈ blanks, isBlank byte = true)
    (pos : Nat) {context : Context} (outside : context.mode = .normal) :
    Passes ⟨blanks ++ text, pos, context⟩ ⟨text, pos + blanks.length, context⟩ := by
  induction blanks generalizing pos with
  | nil => exact .refl _
  | cons first blanks ih =>
    have blank := all first List.mem_cons_self
    have idle : isIdle ⟨first :: (blanks ++ text), pos, context⟩ ⟨first, []⟩ = true := by
      simp [isIdle, blank]
    refine .step (step?_plain (isPlain_of_isBlank blank) outside rfl) idle ?_
    have later := ih (fun byte member => all byte (List.mem_cons_of_mem _ member)) (pos + 1)
    rwa [Nat.add_assoc, Nat.add_comm 1, ← List.length_cons] at later

theorem passes_leaveComment (cursor : Cursor) : Passes cursor cursor.leaveComment := by
  fun_induction leaveComment cursor with
  | case1 cursor => exact .refl cursor
  | case2 cursor piece next step inside ih => exact .step step (by simp [isIdle, inside]) ih
  | case3 cursor => exact .refl cursor

theorem passes_skipComment {cursor : Cursor} (opens : cursor.isAtComment = true) :
    Passes cursor cursor.skipComment := by
  unfold skipComment
  split
  · exact .refl cursor
  · rename_i piece next step
    exact .step step (by simp [isIdle, opens]) (passes_leaveComment next)

theorem Passes.skipPast {cursor later : Cursor} (passes : Passes cursor later) {byte : UInt8}
    (noBlank : isBlank byte = false) (noSlash : byte ≠ slash) :
    cursor.skipPast byte = later.skipPast byte := by
  induction passes with
  | refl => rfl
  | @step cursor next later piece step idle _ ih =>
    rw [skipPast_of_step? step, if_neg, ih]
    intro found
    obtain ⟨top, rfl⟩ : cursor.context.isTopLevel = true ∧ piece.first = byte := by
      simpa using found
    have outside : cursor.context.mode = .normal := by rw [Context.isTopLevel_iff.mp top]
    have opens : cursor.isAtComment = true := by simpa [isIdle, outside, noBlank] using idle
    obtain ⟨-, rest, ahead⟩ := isAtComment_iff.mp opens
    have first := (reads_of_step? step).rest
    rw [ahead] at first
    exact noSlash (List.cons.inj first).1.symm

/-- Reads all that is left. -/
def finish (cursor : Cursor) : Cursor :=
  match _ : cursor.step? with
  | none => cursor
  | some (_, next) => next.finish
termination_by cursor.rest.length
decreasing_by exact rest_length_of_step? (by assumption)

theorem finish_of_step? {cursor next : Cursor} {piece : Piece}
    (step : cursor.step? = some (piece, next)) : cursor.finish = next.finish := by
  rw [finish]
  split
  · simp_all
  · rename_i found
    rw [step] at found
    obtain ⟨rfl, rfl⟩ := Prod.mk.inj (Option.some.inj found)
    rfl

theorem finish_of_rest_nil {cursor : Cursor} (nothing : cursor.rest = []) :
    cursor.finish = cursor := by
  rw [finish]
  split
  · rfl
  · simp_all [step?_eq_none_iff.mpr nothing]

theorem Passes.finish {cursor later : Cursor} (passes : Passes cursor later) :
    cursor.finish = later.finish := by
  induction passes with
  | refl => rfl
  | step step _ _ ih => rw [finish_of_step? step, ih]

theorem finish_skipPast (cursor : Cursor) (byte : UInt8) :
    (cursor.skipPast byte).2.finish = cursor.finish := by
  fun_induction skipPast cursor byte with
  | case1 => rfl
  | case2 cursor piece next step found => exact (finish_of_step? step).symm
  | case3 cursor piece next step other ih => rw [ih, finish_of_step? step]

theorem lastSignificant_of_step? {cursor next : Cursor} {piece : Piece}
    (step : cursor.step? = some (piece, next)) (last : Option (Nat × UInt8)) :
    cursor.lastSignificant last = next.lastSignificant
      (if cursor.isIdle piece then last else some (next.pos, piece.last)) := by
  rw [lastSignificant]
  split
  · simp_all
  · rename_i found
    rw [step] at found
    obtain ⟨rfl, rfl⟩ := Prod.mk.inj (Option.some.inj found)
    exact (apply_ite next.lastSignificant _ _ _).symm

theorem lastSignificant_of_rest_nil {cursor : Cursor} (nothing : cursor.rest = [])
    (last : Option (Nat × UInt8)) : cursor.lastSignificant last = last := by
  rw [lastSignificant]
  split
  · rfl
  · simp_all [step?_eq_none_iff.mpr nothing]

theorem Passes.lastSignificant {cursor later : Cursor} (passes : Passes cursor later)
    (last : Option (Nat × UInt8)) : cursor.lastSignificant last = later.lastSignificant last := by
  induction passes with
  | refl => rfl
  | step step idle _ ih => rw [lastSignificant_of_step? step, if_pos idle, ih]

/-- A hit is meaningful itself, so what came before it is forgotten. -/
theorem lastSignificant_skipPast {cursor stop : Cursor} {byte : UInt8} {place : Nat}
    (plain : IsPlain byte) (noBlank : isBlank byte = false)
    (hit : cursor.skipPast byte = (some place, stop)) (last : Option (Nat × UInt8)) :
    cursor.lastSignificant last = stop.lastSignificant (some (stop.pos, byte)) := by
  fun_induction skipPast cursor byte generalizing last with
  | case1 cursor step => simp at hit
  | case2 cursor piece next step found =>
    obtain ⟨top, rfl⟩ : cursor.context.isTopLevel = true ∧ piece.first = byte := by
      simpa using found
    obtain ⟨-, rfl⟩ : cursor.pos = place ∧ next = stop := by simpa using hit
    have outside : cursor.context.mode = .normal := by rw [Context.isTopLevel_iff.mp top]
    obtain ⟨ahead, -, -⟩ := step?_plain_inv step plain outside
    have single : piece.tail = [] := by
      have read : cursor.rest = piece.first :: (piece.tail ++ next.rest) := (reads_of_step? step).rest
      rw [ahead] at read
      simpa using read
    have busy : cursor.isIdle piece = false := by
      simp [isIdle, outside, noBlank, isAtComment, ahead, opensComment, plain.noSlash]
    rw [lastSignificant_of_step? step, busy]
    simp [Piece.last, single]
  | case3 cursor piece next step other ih =>
    rw [lastSignificant_of_step? step]
    exact ih hit _

theorem lastSignificant_or (cursor : Cursor) (first last : Option (Nat × UInt8)) :
    cursor.lastSignificant (first.or last) = (cursor.lastSignificant first).or last := by
  fun_induction lastSignificant cursor first generalizing last with
  | case1 cursor first step => exact lastSignificant_of_rest_nil (step?_eq_none_iff.mp step) _
  | case2 cursor first piece next step idle ih =>
    change cursor.isIdle piece = true at idle
    rw [lastSignificant_of_step? step, if_pos idle, ih]
  | case3 cursor first piece next step busy ih =>
    change ¬ cursor.isIdle piece = true at busy
    rw [lastSignificant_of_step? step, if_neg busy, ← ih, Option.some_or]

theorem lastSignificant_eq_or (cursor : Cursor) (last : Option (Nat × UInt8)) :
    cursor.lastSignificant last = (cursor.lastSignificant none).or last :=
  lastSignificant_or cursor none last

theorem step?_shift (cursor : Cursor) (before : Nat) :
    (cursor.embed before []).step? =
      cursor.step?.map fun (piece, next) => (piece, next.embed before []) := by
  cases ahead : cursor.rest with
  | nil =>
    rw [step?_eq_none_iff.mpr ahead]
    exact step?_eq_none_iff.mpr (by simp [ahead])
  | cons first rest =>
    rw [step?_cons ahead, step?_cons (show (cursor.embed before []).rest = first :: rest by
      simp [ahead])]
    simp [embed, Nat.add_assoc]

theorem step?_shift_some {cursor next : Cursor} {piece : Piece}
    (step : cursor.step? = some (piece, next)) (before : Nat) :
    (cursor.embed before []).step? = some (piece, next.embed before []) := by
  rw [step?_shift, step]
  rfl

theorem skipPast_shift (cursor : Cursor) (before : Nat) (byte : UInt8) :
    (cursor.embed before []).skipPast byte =
      ((cursor.skipPast byte).1.map (before + ·), (cursor.skipPast byte).2.embed before []) := by
  fun_induction skipPast cursor byte with
  | case1 cursor step =>
    exact skipPast_of_rest_nil (by simp [step?_eq_none_iff.mp step]) byte
  | case2 cursor piece next step found =>
    rw [skipPast_of_step? (step?_shift_some step before), context_embed, if_pos found]
    rfl
  | case3 cursor piece next step other ih =>
    rw [skipPast_of_step? (step?_shift_some step before), context_embed, if_neg other, ih]

theorem leaveComment_shift (cursor : Cursor) (before : Nat) :
    (cursor.embed before []).leaveComment = cursor.leaveComment.embed before [] := by
  fun_induction leaveComment cursor with
  | case1 cursor step => exact leaveComment_of_rest_nil (by simp [step?_eq_none_iff.mp step])
  | case2 cursor piece next step inside ih =>
    rw [leaveComment_of_step? (step?_shift_some step before) inside, ih]
  | case3 cursor piece next step outside => exact leaveComment_of_outside outside

theorem skipComment_shift (cursor : Cursor) (before : Nat) :
    (cursor.embed before []).skipComment = cursor.skipComment.embed before [] := by
  rw [skipComment, skipComment, step?_shift]
  cases cursor.step? with
  | none => rfl
  | some found => exact leaveComment_shift found.2 before

theorem isIdle_shift (cursor : Cursor) (before : Nat) (piece : Piece) :
    (cursor.embed before []).isIdle piece = cursor.isIdle piece := by
  simp [isIdle, isAtComment]

/-- Positions are counted from the start, wherever that is. -/
theorem lastSignificant_shift (cursor : Cursor) (before : Nat) (last : Option (Nat × UInt8)) :
    (cursor.embed before []).lastSignificant (last.map fun found => (before + found.1, found.2)) =
      (cursor.lastSignificant last).map fun found => (before + found.1, found.2) := by
  fun_induction lastSignificant cursor last with
  | case1 cursor last step =>
    exact lastSignificant_of_rest_nil (by simp [step?_eq_none_iff.mp step]) _
  | case2 cursor last piece next step idle ih =>
    change cursor.isIdle piece = true at idle
    rw [lastSignificant_of_step? (step?_shift_some step before), isIdle_shift, if_pos idle, ih]
  | case3 cursor last piece next step busy ih =>
    change ¬ cursor.isIdle piece = true at busy
    rw [lastSignificant_of_step? (step?_shift_some step before), isIdle_shift, if_neg busy, ← ih]
    rfl

end Cursor
end CssSort
