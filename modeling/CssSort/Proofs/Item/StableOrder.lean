import CssSort.Proofs.Block.Stability
import CssSort.Proofs.Item.Ties
import Mathlib.Data.List.Sigma

/-! The order of items is a total preorder whose ties do not depend on the
direction. With the places they were written at, the items can therefore be put in
one order only that is sorted and leaves ties alone, and it is the one in which a
block is written. -/
namespace CssSort
open Std

/-- Both are comments, or both are declarations and all their keys are the same. -/
inductive Kind.Agree : Kind → Kind → Prop where
  | comments : Agree .comment .comment
  | declarations {a b : Declaration} :
      a.property? = b.property? → a.hacked = b.hacked → a.vendor = b.vendor →
      a.value? = b.value? → a.name? = b.name? → Agree (.declaration a) (.declaration b)

theorem Kind.compare_eq_eq_iff_agree (direction : Direction) (a b : Kind) :
    a.compare direction b = .eq ↔ a.Agree b := by
  cases a with
  | comment =>
    cases b with
    | comment => exact iff_of_true rfl .comments
    | declaration b => exact iff_of_false nofun nofun
  | declaration a =>
    cases b with
    | comment => exact iff_of_false nofun nofun
    | declaration b =>
      rw [Kind.compare, Declaration.compare_eq_eq_iff]
      constructor
      · rintro ⟨property, hacked, vendor, value, name⟩
        exact .declarations property hacked vendor.symm value name
      · rintro (_ | ⟨property, hacked, vendor, value, name⟩)
        exact ⟨property, hacked, vendor.symm, value, name⟩

namespace Item

theorem compare_swap (direction : Direction) (a b : Item) :
    compare direction a b = (compare direction b a).swap :=
  OrientedCmp.eq_swap

theorem compare_trans (direction : Direction) (a b c : Item)
    (first : compare direction a b ≠ .gt) (second : compare direction b c ≠ .gt) :
    compare direction a c ≠ .gt := by
  rw [← bne_iff_ne] at first second ⊢
  exact bne_gt_trans a b c first second

/-- An order of the items, each with the place it was written at. No item stands in
front of one that it has to follow, and ties stand as they were written. -/
structure IsStableOrder (direction : Direction) (items : List Item)
    (order : List (Item × Nat)) : Prop where
  perm : order.Perm items.zipIdx
  sorted : order.Pairwise fun a b => compare direction a.1 b.1 ≠ .gt
  stable : order.Pairwise fun a b => compare direction a.1 b.1 = .eq → a.2 < b.2

namespace IsStableOrder

variable {direction : Direction} {items : List Item} {order other : List (Item × Nat)}

/-- Which of two items comes first is told by the comparison or by the places. -/
theorem eq (first : IsStableOrder direction items order)
    (second : IsStableOrder direction items other) : other = order := by
  have strict := first.sorted.and first.stable
  have strict' := second.sorted.and second.stable
  refine List.Perm.eq_of_pairwise ?_ strict' strict (second.perm.trans first.perm.symm)
  rintro a b - - ⟨before, early⟩ ⟨behind, late⟩
  have turned := compare_swap direction b.1 a.1
  cases result : compare direction a.1 b.1 with
  | lt => simp [turned, result] at behind
  | eq =>
    have less := early result
    have more := late (by rw [turned, result]; rfl)
    omega
  | gt => exact absurd result before

end IsStableOrder

/-- The sorted items, each with the place it was written at. -/
def sortPlaces (direction : Direction) (items : List Item) : List (Item × Nat) :=
  items.zipIdx.mergeSort (List.zipIdxLE fun a b => compare direction a b != .gt)

theorem map_fst_sortPlaces (direction : Direction) (items : List Item) :
    (sortPlaces direction items).map (·.1) = sort direction items :=
  List.mergeSort_zipIdx

theorem isStableOrder_sortPlaces (direction : Direction) (items : List Item) :
    IsStableOrder direction items (sortPlaces direction items) := by
  have perm : (sortPlaces direction items).Perm items.zipIdx := List.mergeSort_perm _ _
  have ordered : (sortPlaces direction items).Pairwise
      (List.zipIdxLE (fun a b => compare direction a b != .gt) · · = true) := by
    apply List.pairwise_mergeSort
    · exact List.zipIdxLE_trans bne_gt_trans
    · exact List.zipIdxLE_total bne_gt_total
  have apart : (sortPlaces direction items).Pairwise fun a b => a.2 ≠ b.2 :=
    List.pairwise_map.mp ((perm.map Prod.snd).nodup_iff.mpr (List.nodup_zipIdx_map_snd items))
  refine ⟨perm, ?_, ?_⟩
  · refine ordered.imp ?_
    intro a b before after
    simp [List.zipIdxLE, after] at before
  · refine (ordered.and apart).imp ?_
    rintro a b ⟨before, different⟩ equal
    have turned : compare direction b.1 a.1 = .eq := by
      rw [compare_swap, equal]
      rfl
    simp only [List.zipIdxLE, equal, turned, bne_iff_ne, ne_eq, reduceCtorEq, not_false_eq_true,
      if_true, decide_eq_true_eq] at before
    omega

theorem perm_sort (direction : Direction) (items : List Item) :
    (sort direction items).Perm items :=
  List.mergeSort_perm _ _

theorem pairwise_sort (direction : Direction) (items : List Item) :
    (sort direction items).Pairwise fun a b => compare direction a b ≠ .gt := by
  rw [← map_fst_sortPlaces, List.pairwise_map]
  exact (isStableOrder_sortPlaces direction items).sorted

theorem isStableOrder_iff (direction : Direction) (items : List Item)
    (order : List (Item × Nat)) :
    IsStableOrder direction items order ↔ order = sortPlaces direction items := by
  constructor
  · exact fun stable => (isStableOrder_sortPlaces direction items).eq stable
  · rintro rfl
    exact isStableOrder_sortPlaces direction items

end Item

namespace Block

theorem arrange_eq_sortPlaces (direction : Direction) (block : Bytes) :
    arrange direction block =
      (Item.sortPlaces direction ((parts block).units.map Item.ofText)).flatMap (·.1.text) ++
        (parts block).trailing := by
  rw [arrange_eq, Parts.sort, ← Item.map_fst_sortPlaces, List.map_map, List.flatMap]
  rfl

end Block

namespace Item

/-- Comparing is total and transitive, it ends in a tie exactly between comments and
between declarations whose keys agree, in whatever direction, and so there is one
order only that is sorted and keeps ties as they were written: the order of the
sorted items, in which a block writes its units. -/
theorem unique_stable_order (direction : Direction) :
    (∀ a b, compare direction a b = (compare direction b a).swap) ∧
    (∀ a b c, compare direction a b ≠ .gt → compare direction b c ≠ .gt →
      compare direction a c ≠ .gt) ∧
    (∀ a b, compare direction a b = .eq ↔ a.kind.Agree b.kind) ∧
    (∀ other a b, compare direction a b = .eq ↔ compare other a b = .eq) ∧
    (∀ items, ∃ order, (∀ other, IsStableOrder direction items other ↔ other = order) ∧
      sort direction items = order.map (·.1)) ∧
    ∀ block, ∃ order,
      (∀ other, IsStableOrder direction ((Block.parts block).units.map ofText) other ↔
        other = order) ∧
      Block.arrange direction block =
        order.flatMap (·.1.text) ++ (Block.parts block).trailing := by
  refine ⟨compare_swap direction, compare_trans direction, ?_, ?_, ?_, ?_⟩
  · exact fun a b => Kind.compare_eq_eq_iff_agree direction a.kind b.kind
  · exact fun other a b => Kind.compare_eq_eq_iff direction other a.kind b.kind
  · exact fun items => ⟨sortPlaces direction items, isStableOrder_iff direction items,
      (map_fst_sortPlaces direction items).symm⟩
  · exact fun block => ⟨_, isStableOrder_iff direction _,
      Block.arrange_eq_sortPlaces direction block⟩

/-- Two declarations tie and stay as they were written, in front of a hack and a
comment that were written first. -/
theorem unique_stable_order_ties :
    let comment := ofText (Bytes.ofString "/*c*/")
    let hacked := ofText (Bytes.ofString "_a:1;")
    let noted := ofText (Bytes.ofString "a:1; /*d*/")
    let plain := ofText (Bytes.ofString "a:1;")
    compare .descending plain hacked ≠ .gt ∧ compare .descending hacked comment ≠ .gt ∧
    compare .descending plain comment ≠ .gt ∧ noted.kind.Agree plain.kind ∧
    IsStableOrder .descending [comment, hacked, noted, plain]
      [(noted, 2), (plain, 3), (hacked, 1), (comment, 0)] ∧
    sort .descending [comment, hacked, noted, plain] = [noted, plain, hacked, comment] := by
  intro comment hacked noted plain
  obtain ⟨-, trans, ties, -, unique, -⟩ := unique_stable_order .descending
  have first : compare .descending plain hacked ≠ .gt := by decide +kernel
  have second : compare .descending hacked comment ≠ .gt := by decide +kernel
  have tie : compare .descending noted plain = .eq := by decide +kernel
  have stable : IsStableOrder .descending [comment, hacked, noted, plain]
      [(noted, 2), (plain, 3), (hacked, 1), (comment, 0)] :=
    ⟨by decide +kernel, by decide +kernel, by decide +kernel⟩
  obtain ⟨order, only, sorted⟩ := unique [comment, hacked, noted, plain]
  refine ⟨first, second, trans plain hacked comment first second, (ties noted plain).mp tie,
    stable, ?_⟩
  rw [sorted, ← (only _).mp stable]
  rfl

end Item
end CssSort
