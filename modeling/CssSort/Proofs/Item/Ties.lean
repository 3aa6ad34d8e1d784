import CssSort.Proofs.Item.Order

/-! Units that compare as equal. They are the same units in both directions, and
sorting leaves them as they were written. There is only one such order, so units
that were put in another order without turning ties round are sorted alike, and a
second sort forgets the first. -/
namespace CssSort
open Std

theorem Direction.apply_eq_eq_iff (direction : Direction) (ordering : Ordering) :
    direction.apply ordering = .eq ↔ ordering = .eq := by
  cases direction <;> cases ordering <;> decide

/-- Declarations compare as equal exactly if all their keys agree. -/
theorem Declaration.compare_eq_eq_iff (direction : Direction) (a b : Declaration) :
    a.compare direction b = .eq ↔ a.property? = b.property? ∧ a.hacked = b.hacked ∧
      b.vendor = a.vendor ∧ a.value? = b.value? ∧ a.name? = b.name? := by
  simp only [Declaration.compare, Ordering.then_eq_eq, Direction.apply_eq_eq_iff,
    Std.compare_eq_iff_eq]

theorem Kind.compare_eq_eq_iff (first second : Direction) (a b : Kind) :
    a.compare first b = .eq ↔ a.compare second b = .eq := by
  cases a with
  | comment => cases b <;> rfl
  | declaration a =>
    cases b with
    | comment => rfl
    | declaration b => simp only [Kind.compare, Declaration.compare_eq_eq_iff]

namespace Item

/-- Neither unit has to stand in front of the other. -/
def tied (direction : Direction) (a b : Bytes) : Bool :=
  (classify a).compare direction (classify b) == .eq

theorem tied_iff {direction : Direction} {a b : Bytes} : tied direction a b = true ↔
    notAfter direction a b = true ∧ notAfter direction b a = true := by
  have turned : (classify b).compare direction (classify a) =
      ((classify a).compare direction (classify b)).swap := OrientedCmp.eq_swap
  simp only [tied, notAfter_iff, turned, beq_iff_eq]
  cases (classify a).compare direction (classify b) <;> simp

theorem tied_self (direction : Direction) (unit : Bytes) : tied direction unit unit = true :=
  beq_iff_eq.mpr ReflCmp.compare_self

/-- Ties are the same in both directions. -/
theorem tied_eq (first second : Direction) : tied first = tied second := by
  funext a b
  rw [Bool.eq_iff_iff]
  simp only [tied, beq_iff_eq]
  exact Kind.compare_eq_eq_iff first second (classify a) (classify b)

/-- The same units in another order. Those that compare as equal to any one of them
stand as they stood. -/
structure KeepsTies (direction : Direction) (units order : List Bytes) : Prop where
  perm : order.Perm units
  ties : ∀ unit ∈ units, order.filter (tied direction unit) = units.filter (tied direction unit)

namespace KeepsTies

variable {direction : Direction} {units order later : List Bytes}

theorem symm (kept : KeepsTies direction units order) : KeepsTies direction order units where
  perm := kept.perm.symm
  ties := by
    intro unit member
    exact (kept.ties unit (kept.perm.mem_iff.mp member)).symm

theorem trans (first : KeepsTies direction units order) (second : KeepsTies direction order later) :
    KeepsTies direction units later where
  perm := second.perm.trans first.perm
  ties := by
    intro unit member
    exact (second.ties unit (first.perm.mem_iff.mpr member)).trans (first.ties unit member)

/-- Behind the same first unit the ties are kept as well. -/
theorem of_cons {unit : Bytes} (kept : KeepsTies direction (unit :: units) (unit :: order)) :
    KeepsTies direction units order where
  perm := kept.perm.cons_inv
  ties := by
    intro other member
    have same := kept.ties other (List.mem_cons_of_mem _ member)
    cases equal : tied direction other unit <;> simpa [equal] using same

/-- There is one order only that is sorted and keeps the ties. Of two such orders, the
first unit of each stands in front of that of the other somewhere, so the two tie. -/
theorem eq_of_pairwise (kept : KeepsTies direction units order)
    (sorted : units.Pairwise (notAfter direction · · = true))
    (sorted' : order.Pairwise (notAfter direction · · = true)) : order = units := by
  induction units generalizing order with
  | nil => exact kept.perm.eq_nil
  | cons unit units ih =>
    cases order with
    | nil => exact absurd kept.perm.symm.eq_nil (List.cons_ne_nil _ _)
    | cons first order =>
      obtain ⟨before, rest⟩ := List.pairwise_cons.mp sorted
      obtain ⟨before', rest'⟩ := List.pairwise_cons.mp sorted'
      have equal : tied direction unit first = true := by
        rcases List.mem_cons.mp (kept.perm.mem_iff.mp List.mem_cons_self) with rfl | inside
        · exact tied_self direction first
        rcases List.mem_cons.mp (kept.perm.mem_iff.mpr List.mem_cons_self) with rfl | inside'
        · exact tied_self direction unit
        · exact tied_iff.mpr ⟨before first inside, before' unit inside'⟩
      obtain rfl : first = unit := by
        have same := kept.ties unit List.mem_cons_self
        simp only [List.filter_cons_of_pos equal,
          List.filter_cons_of_pos (tied_self direction unit)] at same
        exact (List.cons.inj same).1
      exact congrArg (first :: ·) (ih kept.of_cons rest rest')

end KeepsTies
end Item

namespace Block.Parts

theorem filter_tied_sort (first second : Direction) (parts : Parts) (unit : Bytes) :
    (parts.sort first).units.filter (Item.tied second unit) =
      parts.units.filter (Item.tied second unit) := by
  rw [Item.tied_eq second first]
  apply filter_sort
  intro a b equal equal'
  exact Item.notAfter_trans first a unit b (Item.tied_iff.mp equal).2 (Item.tied_iff.mp equal').1

theorem keepsTies_sort (first second : Direction) (parts : Parts) :
    Item.KeepsTies second parts.units (parts.sort first).units where
  perm := perm_sort first parts
  ties := fun unit _ => filter_tied_sort first second parts unit

/-- The last unit stays there if no other unit has to follow it. -/
theorem units_sort_concat {direction : Direction} {parts : Parts} {units : List Bytes}
    {last : Bytes} (whole : parts.units = units ++ [last])
    (behind : ∀ unit ∈ units, Item.notAfter direction unit last = true) :
    (parts.sort direction).units =
      ((⟨units, parts.trailing⟩ : Parts).sort direction).units ++ [last] := by
  have moved : Item.KeepsTies direction parts.units
      (((⟨units, parts.trailing⟩ : Parts).sort direction).units ++ [last]) := by
    rw [whole]
    refine ⟨(perm_sort direction _).append_right _, fun unit _ => ?_⟩
    rw [List.filter_append, List.filter_append, filter_tied_sort]
  have sorted : (((⟨units, parts.trailing⟩ : Parts).sort direction).units ++ [last]).Pairwise
      (Item.notAfter direction · · = true) := by
    refine List.pairwise_append.mpr ⟨pairwise_sort direction _, List.pairwise_singleton _ _, ?_⟩
    intro unit member other single
    rw [List.mem_singleton.mp single]
    exact behind unit ((perm_sort direction _).mem_iff.mp member)
  exact (moved.symm.trans (keepsTies_sort direction direction parts)).eq_of_pairwise sorted
    (pairwise_sort direction parts)

/-- Sorting depends on the order of the units through their ties only. -/
theorem sort_of_keepsTies {direction : Direction} {units order : List Bytes}
    (kept : Item.KeepsTies direction units order) (trailing : Bytes) :
    (⟨order, trailing⟩ : Parts).sort direction = (⟨units, trailing⟩ : Parts).sort direction := by
  have sorted : Item.KeepsTies direction ((⟨units, trailing⟩ : Parts).sort direction).units
      ((⟨order, trailing⟩ : Parts).sort direction).units :=
    ((keepsTies_sort direction direction ⟨units, trailing⟩).symm.trans kept).trans
      (keepsTies_sort direction direction ⟨order, trailing⟩)
  have units := sorted.eq_of_pairwise (pairwise_sort direction _) (pairwise_sort direction _)
  exact congrArg (Parts.mk · trailing) units

/-- A sort forgets the sorts before it, in whatever direction they were. -/
theorem sort_sort (first second : Direction) (parts : Parts) :
    (parts.sort first).sort second = parts.sort second :=
  sort_of_keepsTies (keepsTies_sort first second parts) parts.trailing

end Block.Parts
end CssSort
