import CssSort.Bytes
import Mathlib.Data.List.DropRight

/-! Text that does not end with a blank is left alone by trimming, and it protects
all that stands in front of it. -/
namespace CssSort.Bytes
open Ascii

theorem trimEnd_eq_rdropWhile (text : Bytes) : text.trimEnd = text.rdropWhile isBlank := rfl

theorem trimEnd_eq_self_iff {text : Bytes} :
    text.trimEnd = text ↔ ∀ byte ∈ text.getLast?, isBlank byte = false := by
  rw [trimEnd_eq_rdropWhile, List.rdropWhile_eq_self_iff]
  constructor
  · intro solid byte last
    obtain ⟨filled, rfl⟩ := List.mem_getLast?_eq_getLast last
    simpa using solid filled
  · intro solid filled
    simpa using solid _ (List.getLast_mem_getLast? filled)

theorem trimEnd_concat (read : Bytes) {byte : UInt8} (noBlank : isBlank byte = false) :
    (read ++ [byte]).trimEnd = read ++ [byte] := by
  rw [trimEnd_eq_self_iff, List.getLast?_concat]
  rintro _ ⟨⟩
  exact noBlank

theorem trimEnd_append {front : Bytes} (solid : front.trimEnd = front) (behind : Bytes) :
    (front ++ behind).trimEnd = front ++ behind.trimEnd := by
  have kept : front.reverse.dropWhile isBlank = front.reverse := by
    rw [← List.reverse_inj, List.reverse_reverse]
    exact solid
  rw [trimEnd, List.reverse_append, List.dropWhile_append]
  split
  · rename_i nothing
    rw [kept, List.reverse_reverse, trimEnd, List.isEmpty_iff.mp nothing, List.reverse_nil,
      List.append_nil]
  · rw [List.reverse_append, List.reverse_reverse, trimEnd]

theorem trimEnd_of_append {front behind : Bytes}
    (solid : (front ++ behind).trimEnd = front ++ behind) : behind.trimEnd = behind := by
  by_cases ended : behind = []
  · rw [ended]
    rfl
  · rw [trimEnd_eq_self_iff, List.getLast?_append_of_ne_nil _ ended] at solid
    exact trimEnd_eq_self_iff.mpr solid

/-- A text ends as its last part does. -/
theorem trimEnd_behind {text : Bytes} (filled : text ≠ []) (solid : text.trimEnd = text)
    (front : Bytes) : (front ++ text).trimEnd = front ++ text := by
  rw [trimEnd_eq_self_iff] at solid ⊢
  rwa [List.getLast?_append_of_ne_nil _ filled]

theorem trimEnd_trimEnd (text : Bytes) : text.trimEnd.trimEnd = text.trimEnd :=
  List.rdropWhile_idempotent isBlank text

theorem trimEnd_eq_nil_iff {text : Bytes} :
    text.trimEnd = [] ↔ ∀ byte ∈ text, isBlank byte = true :=
  List.rdropWhile_eq_nil_iff

/-- The blanks at the end are told by what trimming leaves. -/
theorem blankEnd_of_trimEnd {text front behind : Bytes} (whole : text = front ++ behind)
    (cut : text.trimEnd = front) : text.blankEnd = behind := by
  have rest := trimEnd_append_blankEnd text
  rw [cut, whole] at rest
  subst whole
  exact List.append_cancel_left rest

theorem isBlank_of_mem_blankEnd {text : Bytes} {byte : UInt8} (member : byte ∈ text.blankEnd) :
    isBlank byte = true :=
  List.mem_rtakeWhile_imp member

end CssSort.Bytes
