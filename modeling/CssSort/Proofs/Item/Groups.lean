import CssSort.Proofs.Item.StableOrder
import Mathlib.Data.List.SplitBy

/-! The sorted items of a block in both directions. The comments stand behind the
declarations as they were written. Declarations that share a property stand
together, plain ones in front of hacks and prefixed ones in front of standard ones,
and only the sequence of these groups is turned round by the direction. -/
namespace CssSort
open Std

/-- The first property comes before the second one. -/
def Precedes (direction : Direction) (a b : Option Bytes) : Prop :=
  direction.apply (Ord.compare a b) = .lt

namespace Precedes

variable {direction : Direction} {a b c : Option Bytes}

theorem trans (first : Precedes direction a b) (second : Precedes direction b c) :
    Precedes direction a c :=
  (Direction.transCmp direction Ord.compare).lt_trans first second

theorem ne (before : Precedes direction a b) : a ≠ b := by
  rintro rfl
  have same : Ord.compare a a = .eq := ReflCmp.compare_self
  rw [Precedes, same] at before
  cases direction <;> contradiction

theorem swap_iff : Precedes .descending a b ↔ Precedes .ascending b a := by
  have turned : Ord.compare a b = (Ord.compare b a).swap := OrientedCmp.eq_swap
  simp only [Precedes, Direction.apply, turned]
  cases Ord.compare b a <;> simp

theorem asymm (before : Precedes direction a b) (behind : Precedes direction b a) : False :=
  (before.trans behind).ne rfl

end Precedes

/-- What the order of two declarations says about their properties, their hacks and
their prefixes. -/
theorem Declaration.keys_of_compare {direction : Direction} {a b : Declaration}
    (before : a.compare direction b ≠ .gt) :
    Precedes direction a.property? b.property? ∨ a.property? = b.property? ∧
      (a.hacked = true → b.hacked = true) ∧
      (a.hacked = b.hacked → b.vendor = true → a.vendor = true) := by
  have greater : Ord.compare true false = .gt := rfl
  unfold Declaration.compare at before
  cases property : direction.apply (Ord.compare a.property? b.property?) with
  | lt => exact .inl property
  | gt => simp [property] at before
  | eq =>
    rw [property, Ordering.eq_then] at before
    refine .inr ⟨?_, ?_, ?_⟩
    · rwa [Direction.apply_eq_eq_iff, Std.compare_eq_iff_eq] at property
    · intro first
      cases second : b.hacked with
      | true => rfl
      | false => simp [first, second, greater] at before
    · intro same second
      cases first : a.vendor with
      | true => rfl
      | false => simp [same, first, second, greater] at before

namespace Item

def declarations (items : List Item) : List Item :=
  items.filter (·.declaration?.isSome)

def comments (items : List Item) : List Item :=
  items.filter (·.declaration?.isNone)

/-- The property of a declaration, which may be absent. -/
def property? (item : Item) : Option Bytes :=
  item.declaration?.bind (·.property?)

def hacked (item : Item) : Bool :=
  item.declaration?.any (·.hacked)

def vendor (item : Item) : Bool :=
  item.declaration?.any (·.vendor)

/-- Cuts a list between neighbours of different properties. -/
def groups (items : List Item) : List (List Item) :=
  items.splitBy fun a b => a.property? == b.property?

/-- The property of the first item of a group. -/
def groupProperty (group : List Item) : Option Bytes :=
  group.head?.bind (·.property?)

/-- The items in order by their properties. -/
def Ordered (direction : Direction) (items : List Item) : Prop :=
  items.Pairwise fun a b =>
    Precedes direction a.property? b.property? ∨ a.property? = b.property?

section Groups

variable {direction : Direction} {items : List Item} {group : List Item}

theorem flatten_groups (items : List Item) : (groups items).flatten = items :=
  List.flatten_splitBy _ items

theorem ne_nil_of_mem_groups (member : group ∈ groups items) : group ≠ [] :=
  List.ne_nil_of_mem_splitBy member

theorem property?_of_mem_group (member : group ∈ groups items) {item : Item}
    (inside : item ∈ group) : item.property? = groupProperty group := by
  have linked : group.IsChain fun a b => a.property? = b.property? :=
    (List.isChain_of_mem_splitBy member).imp fun _ _ same => eq_of_beq same
  have transitive : Trans (fun a b : Item => a.property? = b.property?)
      (fun a b : Item => a.property? = b.property?) fun a b => a.property? = b.property? :=
    ⟨Eq.trans⟩
  cases group with
  | nil => contradiction
  | cons first group =>
    rcases List.mem_cons.mp inside with rfl | inside
    · rfl
    · exact (List.rel_of_pairwise_cons linked.pairwise inside).symm

/-- In order, the property of each group comes before those of the groups behind it, as the
last item of a group and the first one of the next differ. -/
theorem pairwise_groups (ordered : Ordered direction items) :
    (groups items).Pairwise fun a b =>
      Precedes direction (groupProperty a) (groupProperty b) := by
  have transitive : Trans
      (fun a b => Precedes direction (groupProperty a) (groupProperty b))
      (fun a b => Precedes direction (groupProperty a) (groupProperty b))
      fun a b => Precedes direction (groupProperty a) (groupProperty b) := ⟨Precedes.trans⟩
  rw [Ordered, ← flatten_groups items, List.pairwise_flatten] at ordered
  refine List.IsChain.pairwise (List.isChain_iff_getElem.mpr fun i bound => ?_)
  obtain ⟨filled, filled_next, apart⟩ :=
    List.isChain_iff_getElem.mp (List.isChain_getLast_head_splitBy _ items) i bound
  have last := property?_of_mem_group (List.getElem_mem _) (List.getLast_mem filled)
  have first := property?_of_mem_group (List.getElem_mem _) (List.head_mem filled_next)
  have before := List.pairwise_iff_getElem.mp ordered.2 i (i + 1) (by omega) bound
    (Nat.lt_succ_self i) _ (List.getLast_mem filled) _ (List.head_mem filled_next)
  rw [last, first] at before
  rw [last, first, beq_eq_false_iff_ne] at apart
  exact before.resolve_right apart

/-- The properties of the groups, one after the other. -/
def properties (items : List Item) : List (Option Bytes) :=
  (groups items).map groupProperty

theorem mem_properties_iff {property : Option Bytes} :
    property ∈ properties items ↔ ∃ item ∈ items, item.property? = property := by
  rw [properties, List.mem_map]
  constructor
  · rintro ⟨group, member, rfl⟩
    obtain ⟨item, inside⟩ := List.exists_mem_of_ne_nil group (ne_nil_of_mem_groups member)
    refine ⟨item, ?_, property?_of_mem_group member inside⟩
    rw [← flatten_groups items]
    exact List.mem_flatten_of_mem member inside
  · rintro ⟨item, member, rfl⟩
    rw [← flatten_groups items] at member
    obtain ⟨group, known, inside⟩ := List.mem_flatten.mp member
    exact ⟨group, known, (property?_of_mem_group known inside).symm⟩

/-- In order, a group holds all items of its property. -/
theorem filter_groupProperty (ordered : Ordered direction items) (member : group ∈ groups items) :
    items.filter (·.property? == groupProperty group) = group := by
  obtain ⟨before, after, cut⟩ := List.append_of_mem member
  have whole : items = before.flatten ++ (group ++ after.flatten) := by
    rw [← flatten_groups items, cut, List.flatten_append, List.flatten_cons]
  have apart := pairwise_groups ordered
  rw [cut, List.pairwise_append, List.pairwise_cons] at apart
  obtain ⟨-, ⟨behind, -⟩, front⟩ := apart
  have own : ∀ item ∈ group, (item.property? == groupProperty group) = true := by
    intro item inside
    rw [property?_of_mem_group member inside, beq_self_eq_true]
  have elsewhere : ∀ others : List (List Item), (∀ other ∈ others, other ∈ groups items ∧
      groupProperty other ≠ groupProperty group) →
      others.flatten.filter (·.property? == groupProperty group) = [] := by
    intro others different
    rw [List.filter_eq_nil_iff]
    intro item inside
    obtain ⟨other, place, inside⟩ := List.mem_flatten.mp inside
    obtain ⟨known, apart⟩ := different other place
    rwa [property?_of_mem_group known inside, beq_iff_eq]
  have left := elsewhere before fun other place =>
    ⟨by simp [cut, place], (front other place group List.mem_cons_self).ne⟩
  have right := elsewhere after fun other place => ⟨by simp [cut, place], (behind other place).ne.symm⟩
  rw [whole, List.filter_append, List.filter_append, left, right, List.filter_eq_self.mpr own,
    List.nil_append, List.append_nil]

theorem groups_eq (ordered : Ordered direction items) :
    groups items = (properties items).map fun property =>
      items.filter (·.property? == property) := by
  rw [properties, List.map_map]
  refine (List.map_id _).symm.trans (List.map_congr_left fun group member => ?_)
  exact (filter_groupProperty ordered member).symm

theorem pairwise_properties (ordered : Ordered direction items) :
    (properties items).Pairwise (Precedes direction) :=
  List.pairwise_map.mpr (pairwise_groups ordered)

end Groups

/-- Two lists of the same elements in opposite orders are each other's reverse. -/
theorem eq_reverse_of_precedes {α : Type} (key : α → Option Bytes) {rising falling : List α}
    (above : rising.Pairwise fun a b => Precedes .ascending (key a) (key b))
    (below : falling.Pairwise fun a b => Precedes .descending (key a) (key b))
    (same : falling.Perm rising) : falling = rising.reverse := by
  have turned : rising.reverse.Pairwise fun a b => Precedes .descending (key a) (key b) :=
    List.pairwise_reverse.mpr (above.imp Precedes.swap_iff.mpr)
  exact (same.trans rising.reverse_perm.symm).eq_of_pairwise
    (fun a b _ _ before behind => (before.asymm behind).elim) below turned

section Reversal

variable {rising falling : List Item} (up : Ordered .ascending rising)
  (down : Ordered .descending falling) (same : falling.Perm rising)
include up down same

theorem properties_reverse : properties falling = (properties rising).reverse := by
  have above := pairwise_properties up
  have below := pairwise_properties down
  have members : ∀ property, property ∈ properties falling ↔ property ∈ properties rising := by
    intro property
    simp only [mem_properties_iff, same.mem_iff]
  have moved := (List.perm_ext_iff_of_nodup (below.imp Precedes.ne)
    (above.imp Precedes.ne)).mpr members
  exact eq_reverse_of_precedes id above below moved

/-- The groups of the other direction hold the same items, last one first. -/
theorem forall₂_groups_reverse :
    List.Forall₂ List.Perm (groups falling) (groups rising).reverse := by
  rw [groups_eq down, groups_eq up, properties_reverse up down same, ← List.map_reverse,
    List.forall₂_map_left_iff, List.forall₂_map_right_iff, List.forall₂_same]
  exact fun property _ => same.filter _

theorem eq_reverse_of_distinct (distinct : rising.Pairwise fun a b => a.property? ≠ b.property?) :
    falling = rising.reverse := by
  have distinct' : falling.Pairwise fun a b => a.property? ≠ b.property? :=
    (same.pairwise_iff Ne.symm).mpr distinct
  have above : rising.Pairwise fun a b => Precedes .ascending a.property? b.property? :=
    (up.and distinct).imp fun ⟨before, apart⟩ => before.resolve_right apart
  have below : falling.Pairwise fun a b => Precedes .descending a.property? b.property? :=
    (down.and distinct').imp fun ⟨before, apart⟩ => before.resolve_right apart
  exact eq_reverse_of_precedes property? above below same

end Reversal

section Sorted

variable (direction : Direction) (items : List Item)

theorem comments_sort : comments (sort direction items) = comments items := by
  refine filter_mergeSort bne_gt_trans bne_gt_total ?_ items
  rintro ⟨_, _ | _⟩ ⟨_, _ | _⟩ first second
  · rfl
  all_goals contradiction

theorem sort_eq : sort direction items =
    declarations (sort direction items) ++ comments (sort direction items) := by
  have upward : ∀ a b : Item, compare direction a b ≠ .gt → a.declaration?.isNone = true →
      b.declaration?.isNone = true := by
    rintro ⟨_, _ | _⟩ ⟨_, _ | _⟩ before first
    · rfl
    all_goals contradiction
  have cut := filter_not_append_filter upward (pairwise_sort direction items)
  simp only [Option.not_isNone] at cut
  exact cut.symm

/-- The order of the sorted declarations, told by their keys. -/
theorem pairwise_declarations :
    (declarations (sort direction items)).Pairwise fun a b =>
      Precedes direction a.property? b.property? ∨ a.property? = b.property? ∧
        (a.hacked = true → b.hacked = true) ∧
        (a.hacked = b.hacked → b.vendor = true → a.vendor = true) := by
  refine List.Pairwise.imp_of_mem ?_ ((pairwise_sort direction items).filter _)
  intro a b first second before
  have known := (List.mem_filter.mp first).2
  have known' := (List.mem_filter.mp second).2
  obtain ⟨_, _ | a⟩ := a
  · contradiction
  obtain ⟨_, _ | b⟩ := b
  · contradiction
  exact Declaration.keys_of_compare before

theorem ordered_declarations : Ordered direction (declarations (sort direction items)) :=
  (pairwise_declarations direction items).imp fun keys => keys.imp_right And.left

theorem perm_declarations : (declarations (sort direction items)).Perm (declarations items) :=
  (perm_sort direction items).filter _

variable {direction items} in
theorem pairwise_group {group : List Item}
    (member : group ∈ groups (declarations (sort direction items))) :
    group.Pairwise fun a b => (a.hacked = true → b.hacked = true) ∧
      (a.hacked = b.hacked → b.vendor = true → a.vendor = true) := by
  have inside : group.Sublist (declarations (sort direction items)) := by
    rw [← flatten_groups (declarations (sort direction items))]
    exact List.sublist_flatten_of_mem member
  refine ((pairwise_declarations direction items).sublist inside).imp_of_mem ?_
  intro a b first second keys
  have same : a.property? = b.property? :=
    (property?_of_mem_group member first).trans (property?_of_mem_group member second).symm
  exact (keys.resolve_left fun before => before.ne same).2

end Sorted

/-- What sorting makes of the items in either direction. -/
structure IsGrouped (items sorted : List Item) : Prop where
  perm : sorted.Perm items
  commentsLast : sorted = declarations sorted ++ comments items
  contiguous : (groups (declarations sorted)).Pairwise fun group later =>
    ∀ a ∈ group, ∀ b ∈ later, a.property? ≠ b.property?
  shared : ∀ group ∈ groups (declarations sorted), ∀ a ∈ group, ∀ b ∈ group,
    a.property? = b.property?
  hacksLast : ∀ group ∈ groups (declarations sorted),
    group.Pairwise fun a b => a.hacked = true → b.hacked = true
  vendorsFirst : ∀ group ∈ groups (declarations sorted),
    group.Pairwise fun a b => a.hacked = b.hacked → b.vendor = true → a.vendor = true

theorem isGrouped_sort (direction : Direction) (items : List Item) :
    IsGrouped items (sort direction items) where
  perm := perm_sort direction items
  commentsLast := by
    rw [← comments_sort direction items]
    exact sort_eq direction items
  contiguous := by
    refine (pairwise_groups (ordered_declarations direction items)).imp_of_mem ?_
    intro group later known known' before a first b second
    rw [property?_of_mem_group known first, property?_of_mem_group known' second]
    exact before.ne
  shared := by
    intro group member a first b second
    rw [property?_of_mem_group member first, property?_of_mem_group member second]
  hacksLast := fun _ member => (pairwise_group member).imp And.left
  vendorsFirst := fun _ member => (pairwise_group member).imp And.right

/-- In both directions the declarations stand group by group in front of the
comments, and each group has its hacks last and its prefixes first. The groups of
one direction are those of the other one from the last to the first, and so are the
declarations if no two of them share a property. -/
theorem groups_turn_round (items : List Item) :
    (∀ direction, IsGrouped items (sort direction items)) ∧
    List.Forall₂ List.Perm (groups (declarations (sort .descending items)))
      (groups (declarations (sort .ascending items))).reverse ∧
    ((declarations items).Pairwise (fun a b => a.property? ≠ b.property?) →
      declarations (sort .descending items) =
        (declarations (sort .ascending items)).reverse) := by
  have up := ordered_declarations .ascending items
  have down := ordered_declarations .descending items
  have rising := perm_declarations .ascending items
  have same := (perm_declarations .descending items).trans rising.symm
  refine ⟨fun direction => isGrouped_sort direction items, forall₂_groups_reverse up down same, ?_⟩
  intro distinct
  exact eq_reverse_of_distinct up down same ((rising.pairwise_iff Ne.symm).mpr distinct)

/-- A declaration without a property counts as one of its own, and the comment stays
behind all of them. -/
theorem groups_turn_round_distinct :
    let items := [ofText (Bytes.ofString "b:1;"), ofText (Bytes.ofString "/*c*/"),
      ofText (Bytes.ofString "-x-a:2;"), ofText (Bytes.ofString "junk;")]
    (declarations items).Pairwise (fun a b => a.property? ≠ b.property?) ∧
    (sort .ascending items).map (·.text) = [Bytes.ofString "junk;", Bytes.ofString "-x-a:2;",
      Bytes.ofString "b:1;", Bytes.ofString "/*c*/"] ∧
    declarations (sort .descending items) = (declarations (sort .ascending items)).reverse := by
  intro items
  have distinct : (declarations items).Pairwise fun a b => a.property? ≠ b.property? := by
    decide +kernel
  obtain ⟨-, -, reversed⟩ := groups_turn_round items
  refine ⟨distinct, ?_, reversed distinct⟩
  rw [sort_eq_insertionSort]
  decide +kernel

end Item
end CssSort
