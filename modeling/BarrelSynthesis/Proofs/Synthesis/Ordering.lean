/-
# The order in which entries are listed

Names are ordered by their lower-case forms and, where these agree, by code point. So two names on one
level are one name, and two entries on one level agree in what they are taken from and in what they are
called. They can still be written in two ways, with the name repeated in front of itself or without it. An
entry that does not repeat its name is plain, and plain entries on one level are equal.

A strictly ascending list is determined by its elements. That makes what is sorted independent of the
order in which it came in.
-/
import BarrelSynthesis.Proofs.Synthesis.Coalesce
import Mathlib.Data.List.Sort

namespace BarrelSynthesis.Synthesis

/-! ## Ascending lists -/

section Ascending

variable {α : Type} {order : α → α → Ordering}

/-- Strictly ascending lists of the same elements are equal. -/
theorem eq_of_strictly_ascending [Std.TransCmp order] {first second : List α}
    (one : first.Pairwise fun a b => order a b = .lt)
    (other : second.Pairwise fun a b => order a b = .lt)
    (same : ∀ element, element ∈ first ↔ element ∈ second) : first = second := by
  have irreflexive : Std.Irrefl fun a b => order a b = .lt :=
    ⟨fun element below => by simp [Std.ReflCmp.compare_self] at below⟩
  have antisymmetric : Std.Antisymm fun a b => order a b = .lt := by
    refine ⟨fun a b below above => ?_⟩
    rw [Std.OrientedCmp.gt_of_lt below] at above
    cases above
  exact one.eq_of_mem_iff other same

/-- An ascending list is sorted already. -/
theorem sortBy_eq_self {elements : List α}
    (ascending : elements.Pairwise fun a b => (order a b).isLE) : sortBy order elements = elements :=
  List.mergeSort_of_pairwise ascending

variable [DecidableEq α]

/-- Dropping repeats keeps the first element. -/
theorem head?_dropRepeats (elements : List α) : (dropRepeats elements).head? = elements.head? := by
  fun_induction dropRepeats elements with
  | case1 => rfl
  | case2 => rfl
  | case3 repeated rest ih => exact ih
  | case4 => rfl

/-- An element that differs from the one behind it is kept. -/
theorem dropRepeats_cons_of_head?_ne {first : α} {elements : List α}
    (differs : elements.head? ≠ some first) :
    dropRepeats (first :: elements) = first :: dropRepeats elements := by
  cases elements with
  | nil => rfl
  | cons second rest =>
      rw [dropRepeats, if_neg]
      rintro rfl
      exact differs rfl

/-- After repetitions have been dropped there are none. -/
theorem dropRepeats_dropRepeats (elements : List α) :
    dropRepeats (dropRepeats elements) = dropRepeats elements := by
  fun_induction dropRepeats elements with
  | case1 => rfl
  | case2 => rfl
  | case3 repeated rest ih => exact ih
  | case4 first second rest differs ih =>
      rw [dropRepeats_cons_of_head?_ne, ih]
      rw [head?_dropRepeats]
      exact fun same => differs (Option.some.inj same).symm

/-- A list that was sorted and lost its repetitions stays as it is when this is done again. -/
theorem dropRepeats_sortBy_self [Std.TransCmp order] (elements : List α) :
    dropRepeats (sortBy order (dropRepeats (sortBy order elements))) =
      dropRepeats (sortBy order elements) := by
  have ascending := (pairwise_sortBy order elements).sublist (dropRepeats_sublist _)
  rw [sortBy_eq_self ascending, dropRepeats_dropRepeats]

end Ascending

/-- The distinct texts of a list depend on nothing but which texts there are. -/
theorem distinctAscending_congr {first second : List String}
    (same : ∀ text, text ∈ first ↔ text ∈ second) :
    distinctAscending first = distinctAscending second := by
  refine (pairwise_distinctAscending first).eq_of_mem_iff (pairwise_distinctAscending second)
    fun text => ?_
  rw [mem_distinctAscending, mem_distinctAscending, same]

/-! ## Names and entries -/

instance : Std.TransCmp nameOrder :=
  inferInstanceAs (Std.TransCmp (compareLex (compareOn Text.lower) compare))

/-- Two names on one level are one name, whatever their lower-case forms. -/
theorem nameOrder_eq_iff {first second : String} : nameOrder first second = .eq ↔ first = second := by
  constructor
  · intro level
    exact Std.LawfulEqCmp.eq_of_compare (compareLex_eq_eq.mp level).2
  · rintro rfl
    exact Std.ReflCmp.compare_self

/-- Things ordered by a key of theirs. -/
theorem transCmp_by {α β : Type} (order : β → β → Ordering) [Std.TransCmp order] (key : α → β) :
    Std.TransCmp fun a b => order (key a) (key b) where
  eq_swap := Std.OrientedCmp.eq_swap
  isLE_trans := Std.TransCmp.isLE_trans

namespace ExportEntry

instance : Std.TransCmp ExportEntry.order :=
  have := transCmp_by nameOrder ExportEntry.origin
  have := transCmp_by nameOrder ExportEntry.name
  inferInstanceAs (Std.TransCmp (compareLex _ _))

/-- Two entries of exports are on a level when origin and name agree. -/
theorem order_eq_iff {first second : ExportEntry} :
    order first second = .eq ↔ first.origin = second.origin ∧ first.name = second.name := by
  rw [order, compareLex_eq_eq, nameOrder_eq_iff, nameOrder_eq_iff]

/-- The entry does not repeat its name as the name it is taken from. -/
def IsPlain (entry : ExportEntry) : Prop :=
  entry.property ≠ some entry.name

end ExportEntry

namespace ImportEntry

instance : Std.TransCmp ImportEntry.order :=
  have := transCmp_by nameOrder ImportEntry.origin
  have := transCmp_by nameOrder ImportEntry.name
  have : Std.TransCmp (compareLex (fun a b : ImportEntry => nameOrder a.origin b.origin)
    fun a b => nameOrder a.name b.name) := inferInstance
  inferInstanceAs (Std.TransCmp (compareLex (compareOn _) _))

/-- Two entries of imports are on a level when origin, name and mark agree. -/
theorem order_eq_iff {first second : ImportEntry} :
    order first second = .eq ↔
      first.typeOnly = second.typeOnly ∧ first.origin = second.origin ∧ first.name = second.name := by
  have flags : first.typeOnly.toNat = second.typeOnly.toNat ↔ first.typeOnly = second.typeOnly := by
    cases first.typeOnly <;> cases second.typeOnly <;> decide
  rw [order, compareLex_eq_eq, compareLex_eq_eq, nameOrder_eq_iff, nameOrder_eq_iff, compareOn,
    Std.LawfulEqCmp.compare_eq_iff_eq, flags]

/-- The entry does not repeat its name as the name it is taken from. -/
def IsPlain (entry : ImportEntry) : Prop :=
  entry.property ≠ some entry.name

end ImportEntry

/-- Two ways to write out where a name is taken from, neither of which repeats the name, are one way if they
mean the same. -/
theorem eq_of_getD_eq {first second : Option String} {name : String} (plain : first ≠ some name)
    (alsoPlain : second ≠ some name) (same : first.getD name = second.getD name) : first = second := by
  cases first with
  | none =>
      cases second with
      | none => rfl
      | some other => exact absurd (congrArg some same.symm) alsoPlain
  | some one =>
      cases second with
      | none => exact absurd (congrArg some same) plain
      | some other => exact congrArg some same

/-- Plain export entries on one level are equal. -/
theorem ExportEntry.IsPlain.eq_of_order_eq {first second : ExportEntry} (plain : first.IsPlain)
    (alsoPlain : second.IsPlain) (level : order first second = .eq) : first = second := by
  obtain ⟨origin, name⟩ := order_eq_iff.mp level
  obtain ⟨property, own⟩ := first
  obtain ⟨otherProperty, other⟩ := second
  obtain rfl : own = other := name
  rw [ExportEntry.mk.injEq]
  exact ⟨eq_of_getD_eq plain alsoPlain origin, rfl⟩

/-- Plain import entries on one level are equal. -/
theorem ImportEntry.IsPlain.eq_of_order_eq {first second : ImportEntry} (plain : first.IsPlain)
    (alsoPlain : second.IsPlain) (level : order first second = .eq) : first = second := by
  obtain ⟨flag, origin, name⟩ := order_eq_iff.mp level
  obtain ⟨typeOnly, property, own⟩ := first
  obtain ⟨otherTypeOnly, otherProperty, other⟩ := second
  obtain rfl : own = other := name
  obtain rfl : typeOnly = otherTypeOnly := flag
  rw [ImportEntry.mk.injEq]
  exact ⟨rfl, eq_of_getD_eq plain alsoPlain origin, rfl⟩

end BarrelSynthesis.Synthesis
