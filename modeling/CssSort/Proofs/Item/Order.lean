import CssSort.Block.Arrange
import Mathlib.Data.List.Sort

/-! The order of items is total and transitive, and comments are its greatest
elements. Sorting the units of a block therefore gives one canonical order, in
which the comments come last and stand as they were written. -/
namespace CssSort
open Std

instance Direction.transCmp {α : Type} (direction : Direction) (cmp : α → α → Ordering)
    [TransCmp cmp] : TransCmp fun a b => direction.apply (cmp a b) := by
  cases direction with
  | ascending => exact inferInstanceAs (TransCmp cmp)
  | descending =>
    have turned : (fun a b => Direction.descending.apply (cmp a b)) = fun a b => cmp b a := by
      funext a b
      exact OrientedCmp.eq_swap.symm
    rw [turned]
    infer_instance

instance Declaration.transCmp (direction : Direction) : TransCmp (Declaration.compare direction) :=
  inferInstanceAs (TransCmp (compareLex
    (fun a b => direction.apply (compareOn Declaration.property? a b))
    (compareLex (compareOn Declaration.hacked)
      (compareLex (fun a b => compareOn Declaration.vendor b a)
        (compareLex (fun a b => direction.apply (compareOn Declaration.value? a b))
          (fun a b => direction.apply (compareOn Declaration.name? a b)))))))

instance Kind.transCmp (direction : Direction) : TransCmp (Kind.compare direction) where
  eq_swap {a b} := by
    cases a with
    | comment => cases b <;> rfl
    | declaration a =>
      cases b with
      | comment => rfl
      | declaration b => exact (Declaration.transCmp direction).eq_swap
  isLE_trans {a b c} first second := by
    cases a with
    | comment =>
      cases b with
      | comment => exact second
      | declaration b => contradiction
    | declaration a =>
      cases c with
      | comment => rfl
      | declaration c =>
        cases b with
        | comment => contradiction
        | declaration b => exact (Declaration.transCmp direction).isLE_trans first second

instance Item.transCmp (direction : Direction) : TransCmp (Item.compare direction) where
  eq_swap := (Kind.transCmp direction).eq_swap
  isLE_trans := (Kind.transCmp direction).isLE_trans

section Sorting

variable {α : Type} {cmp : α → α → Ordering} [TransCmp cmp]

theorem bne_gt_trans (a b c : α) (first : (cmp a b != .gt) = true)
    (second : (cmp b c != .gt) = true) : (cmp a c != .gt) = true := by
  rw [bne_iff_ne, ne_eq, ← Ordering.isLE_iff_ne_gt] at first second ⊢
  exact TransCmp.isLE_trans first second

theorem bne_gt_total (a b : α) : (cmp a b != .gt || cmp b a != .gt) = true := by
  have turned : cmp b a = (cmp a b).swap := OrientedCmp.eq_swap
  rw [turned]
  cases cmp a b <;> rfl

end Sorting

section Merging

variable {α : Type} {le : α → α → Bool}
  (trans : ∀ a b c, le a b = true → le b c = true → le a c = true)
  (total : ∀ a b, (le a b || le b a) = true)
include trans total

/-- A stable sort can be computed by putting in one element after the other. -/
theorem mergeSort_eq_insertionSort (list : List α) :
    list.mergeSort le = list.insertionSort (le · · = true) := by
  induction list with
  | nil => exact List.mergeSort_nil
  | cons first list ih =>
    obtain ⟨front, back, sorted, rest, passed⟩ := List.mergeSort_cons trans total first list
    have ordered := List.pairwise_mergeSort trans total (first :: list)
    rw [sorted, List.pairwise_append, List.pairwise_cons] at ordered
    obtain ⟨-, ⟨before, -⟩, -⟩ := ordered
    have skips : ∀ other ∈ front, decide (¬ le first other = true) = true := by simpa using passed
    rw [sorted, List.insertionSort_cons, ← ih, rest, List.orderedInsert_eq_take_drop,
      List.takeWhile_append_of_pos skips, List.dropWhile_append_of_pos skips]
    cases back with
    | nil => simp
    | cons next back => simp [before next List.mem_cons_self]

/-- A stable sort keeps the elements that may stand in any order as they were. -/
theorem filter_mergeSort {p : α → Bool}
    (any : ∀ a b, p a = true → p b = true → le a b = true) (list : List α) :
    (list.mergeSort le).filter p = list.filter p := by
  have ordered : (list.filter p).Pairwise (le · · = true) := by
    rw [List.pairwise_filter]
    exact List.pairwise_of_forall fun a b first second => any a b first second
  have kept : (list.filter p).Sublist (list.mergeSort le) :=
    List.sublist_mergeSort trans total ordered List.filter_sublist
  have chosen := kept.filter p
  simp only [List.filter_filter, Bool.and_self] at chosen
  exact (chosen.eq_of_length ((List.mergeSort_perm list le).filter p).length_eq.symm).symm

end Merging

/-- If all that stands behind a chosen element is chosen too, the chosen elements
stand last. -/
theorem filter_not_append_filter {α : Type} {R : α → α → Prop} {p : α → Bool}
    (upward : ∀ a b, R a b → p a = true → p b = true) {list : List α} (sorted : list.Pairwise R) :
    list.filter (!p ·) ++ list.filter p = list := by
  induction sorted with
  | nil => rfl
  | @cons first list before _ ih =>
    by_cases chosen : p first = true
    · have all : ∀ later ∈ first :: list, p later = true := by
        intro later member
        rcases List.mem_cons.mp member with rfl | member
        · exact chosen
        · exact upward first later (before later member) chosen
      have dropped : (first :: list).filter (!p ·) = [] :=
        List.filter_eq_nil_iff.mpr fun later member => by simp [all later member]
      rw [dropped, List.nil_append, List.filter_eq_self.mpr all]
    · simp [chosen, ih]

namespace Item

theorem sort_eq_insertionSort (direction : Direction) (items : List Item) :
    sort direction items =
      items.insertionSort fun a b => (compare direction a b != .gt) = true :=
  mergeSort_eq_insertionSort bne_gt_trans bne_gt_total items

/-- Sorting may leave `a` in front of `b`. -/
def notAfter (direction : Direction) (a b : Bytes) : Bool :=
  (classify a).compare direction (classify b) != .gt

theorem notAfter_iff {direction : Direction} {a b : Bytes} : notAfter direction a b = true ↔
    ((classify a).compare direction (classify b)).isLE = true := by
  rw [notAfter, Ordering.isLE_iff_ne_gt, bne_iff_ne]

theorem notAfter_trans (direction : Direction) (a b c : Bytes)
    (first : notAfter direction a b = true) (second : notAfter direction b c = true) :
    notAfter direction a c = true :=
  bne_gt_trans (classify a) (classify b) (classify c) first second

theorem notAfter_total (direction : Direction) (a b : Bytes) :
    (notAfter direction a b || notAfter direction b a) = true :=
  bne_gt_total (classify a) (classify b)

theorem notAfter_self (direction : Direction) (unit : Bytes) :
    notAfter direction unit unit = true := by
  simpa using notAfter_total direction unit unit

/-- The unit is a comment of its own. -/
def isRemark (unit : Bytes) : Bool :=
  classify unit == .comment

theorem notAfter_remark (direction : Direction) (a : Bytes) {b : Bytes}
    (remark : isRemark b = true) : notAfter direction a b = true := by
  rw [notAfter, eq_of_beq remark]
  cases classify a <;> rfl

theorem isRemark_of_notAfter {direction : Direction} {a b : Bytes}
    (before : notAfter direction a b = true) (remark : isRemark a = true) : isRemark b = true := by
  rw [notAfter, eq_of_beq remark] at before
  rw [isRemark]
  cases kind : classify b with
  | comment => rfl
  | declaration declaration =>
    rw [kind] at before
    contradiction

/-- In order, the declarations stand in front of the comments. -/
theorem filter_append_filter {direction : Direction} {units : List Bytes}
    (sorted : units.Pairwise (notAfter direction · · = true)) :
    units.filter (!isRemark ·) ++ units.filter isRemark = units :=
  filter_not_append_filter (fun _ _ before remark => isRemark_of_notAfter before remark) sorted

end Item

namespace Block.Parts

variable (direction : Direction) (parts : Parts)

theorem units_sort : (parts.sort direction).units =
    parts.units.mergeSort (Item.notAfter direction) := by
  have items : (parts.units.mergeSort (Item.notAfter direction)).map Item.ofText =
      Item.sort direction (parts.units.map Item.ofText) :=
    List.map_mergeSort fun a _ b _ => rfl
  rw [sort, ← items, List.map_map]
  exact List.map_id _

theorem units_sort_eq_insertionSort : (parts.sort direction).units =
    parts.units.insertionSort (Item.notAfter direction · · = true) := by
  rw [units_sort]
  exact mergeSort_eq_insertionSort (Item.notAfter_trans direction) (Item.notAfter_total direction) _

theorem perm_sort : (parts.sort direction).units.Perm parts.units := by
  rw [units_sort]
  exact List.mergeSort_perm _ _

theorem pairwise_sort :
    (parts.sort direction).units.Pairwise (Item.notAfter direction · · = true) := by
  rw [units_sort]
  exact List.pairwise_mergeSort (Item.notAfter_trans direction) (Item.notAfter_total direction) _

/-- Units in order are left alone. -/
theorem sort_of_pairwise {parts : Parts}
    (sorted : parts.units.Pairwise (Item.notAfter direction · · = true)) :
    parts.sort direction = parts := by
  have units : (parts.sort direction).units = parts.units := by
    rw [units_sort]
    exact List.mergeSort_of_pairwise sorted
  exact congrArg (Parts.mk · parts.trailing) units

/-- Units that may stand in any order are kept as they were written. -/
theorem filter_sort {p : Bytes → Bool}
    (any : ∀ a b, p a = true → p b = true → Item.notAfter direction a b = true) :
    (parts.sort direction).units.filter p = parts.units.filter p := by
  rw [units_sort]
  exact filter_mergeSort (Item.notAfter_trans direction) (Item.notAfter_total direction) any _

end Block.Parts
end CssSort
