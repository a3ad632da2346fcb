/-
# Binding the same with the fewest imports

An import can bind one default name and any number of entries. So a module needs an import for each of its
default names, and one if it has none. Coalescing spends exactly that: the first default name of a module
shares its import with all the entries, and every further one gets an import of its own. What is bound stays
the same, and so does which modules are run, because an import without bindings is left where a module is
named and nothing is taken from it.

A group of merged imports shows the default names, the entries and the assert clause it was made from. So
coalescing what has been coalesced finds the same groups again.
-/
import BarrelSynthesis.Proofs.Synthesis.Ordering
import Mathlib.Algebra.BigOperators.Group.List.Lemmas
import Mathlib.Algebra.Order.BigOperators.Group.List
import Mathlib.Algebra.Order.Group.Nat

namespace BarrelSynthesis.Synthesis

/-! ## What imports bind -/

/-- A binding of an import, with all that is written about it. -/
inductive BoundName
  | ofDefault (module localName : String)
  | ofEntry (module : String) (typeOnly : Bool) (property : Option String) (localName : String)
  deriving DecidableEq

/-- The bindings of an import, each as often as it is written. -/
def Import.bound (declaration : Import) : List BoundName :=
  declaration.defaultName.toList.map (.ofDefault declaration.module) ++
    declaration.named.map fun entry =>
      .ofEntry declaration.module entry.typeOnly entry.property entry.name

/-- The bindings of some imports, each as often as it is written. -/
def boundBy (imports : List Import) : List BoundName :=
  imports.flatMap Import.bound

/-- Two lists of imports name the same modules and bind the same. -/
structure BindSame (first second : List Import) : Prop where
  modules : ∀ module, module ∈ first.map (·.module) ↔ module ∈ second.map (·.module)
  bindings : ∀ binding, binding ∈ boundBy first ↔ binding ∈ boundBy second

/-- The distinct default names that are given for a module, each where it comes first. -/
def defaultNames (imports : List Import) (module : String) : List String :=
  ((imports.filter (·.module = module)).filterMap (·.defaultName)).eraseDups

/-- A default name is bound when an import of the module has it. -/
theorem ofDefault_mem_boundBy {imports : List Import} {module localName : String} :
    .ofDefault module localName ∈ boundBy imports ↔
      ∃ declaration ∈ imports,
        declaration.module = module ∧ declaration.defaultName = some localName := by
  simp [boundBy, Import.bound, and_comm]

/-- An import without bindings binds nothing. -/
theorem isSideEffect_iff {declaration : Import} :
    declaration.isSideEffect ↔ declaration.bound = [] := by
  rw [Import.isSideEffect, Bool.and_eq_true, Option.isNone_iff_eq_none, List.isEmpty_iff]
  simp [Import.bound]

/-- The default names of a module are those bound to it. -/
theorem mem_defaultNames {imports : List Import} {module name : String} :
    name ∈ defaultNames imports module ↔ .ofDefault module name ∈ boundBy imports := by
  rw [ofDefault_mem_boundBy, defaultNames, List.mem_eraseDups, List.mem_filterMap]
  simp only [List.mem_filter, decide_eq_true_eq, and_assoc]

/-! ## The group of a module -/

/-- The merged imports of a module: one for its first default name and all entries, and one for every
further default name. -/
theorem mergeImports_eq (module : String) (imports : List Import) :
    mergeImports module imports =
      ⟨(defaultNames imports module).head?,
        dropRepeats (sortBy ImportEntry.order
          ((imports.filter (·.module = module)).flatMap (·.named))),
        module, (imports.filter (·.module = module)).findSome? (·.assertion)⟩
      :: (defaultNames imports module).tail.map fun name =>
        ⟨some name, [], module, (imports.filter (·.module = module)).findSome? (·.assertion)⟩ :=
  rfl

/-- The bindings of a group are the distinct default names and the sorted entries. -/
theorem boundBy_mergeImports_perm (module : String) (imports : List Import) :
    (boundBy (mergeImports module imports)).Perm
      ((defaultNames imports module).map (.ofDefault module) ++
        (dropRepeats (sortBy ImportEntry.order
          ((imports.filter (·.module = module)).flatMap (·.named)))).map fun entry =>
            .ofEntry module entry.typeOnly entry.property entry.name) := by
  have further (names : List String) (assertion : Option String) :
      boundBy (names.map fun name => ⟨some name, [], module, assertion⟩) =
        names.map (.ofDefault module) := by
    rw [boundBy, List.flatMap_map]
    exact List.map_eq_flatMap.symm
  rw [mergeImports_eq, boundBy, List.flatMap_cons]
  show (_ ++ boundBy _).Perm _
  rw [further, Import.bound]
  cases defaultNames imports module with
  | nil => simp
  | cons first others => simpa using List.perm_append_comm

/-- A group binds what the imports of its module bind. -/
theorem mem_boundBy_mergeImports {module : String} {imports : List Import} {binding : BoundName} :
    binding ∈ boundBy (mergeImports module imports) ↔
      ∃ declaration ∈ imports, declaration.module = module ∧ binding ∈ declaration.bound := by
  rw [(boundBy_mergeImports_perm module imports).mem_iff]
  simp only [defaultNames, Import.bound, List.mem_append, List.mem_map, List.mem_eraseDups,
    List.mem_filterMap, List.mem_flatMap, mem_dropRepeats, mem_sortBy, List.mem_filter,
    decide_eq_true_eq, Option.mem_toList]
  constructor
  · rintro (⟨name, ⟨declaration, ⟨listed, rfl⟩, given⟩, rfl⟩ |
      ⟨entry, ⟨declaration, ⟨listed, rfl⟩, given⟩, rfl⟩)
    · exact ⟨declaration, listed, rfl, .inl ⟨name, given, rfl⟩⟩
    · exact ⟨declaration, listed, rfl, .inr ⟨entry, given, rfl⟩⟩
  · rintro ⟨declaration, listed, rfl, ⟨name, given, rfl⟩ | ⟨entry, given, rfl⟩⟩
    · exact .inl ⟨name, ⟨declaration, ⟨listed, rfl⟩, given⟩, rfl⟩
    · exact .inr ⟨entry, ⟨declaration, ⟨listed, rfl⟩, given⟩, rfl⟩

/-- Coalesced imports bind what the groups bind, one after the other. -/
theorem boundBy_coalesceImports (imports : List Import) :
    boundBy (coalesceImports imports) =
      (distinctAscending (imports.map (·.module))).flatMap fun module =>
        boundBy (mergeImports module imports) :=
  List.flatMap_assoc

/-- Of the coalesced imports, those of a module are the merged imports of the module. -/
theorem filter_coalesceImports {imports : List Import} {module : String}
    (named : module ∈ imports.map (·.module)) :
    (coalesceImports imports).filter (·.module = module) = mergeImports module imports := by
  have only (modules : List String) (distinct : modules.Nodup) :
      (modules.flatMap fun key => mergeImports key imports).filter (·.module = module) =
        if module ∈ modules then mergeImports module imports else [] := by
    induction modules with
    | nil => rfl
    | cons key rest ih =>
        obtain ⟨absent, others⟩ := List.nodup_cons.mp distinct
        rw [List.flatMap_cons, List.filter_append, ih others]
        by_cases same : key = module
        · subst same
          rw [if_neg absent, if_pos List.mem_cons_self, List.append_nil]
          exact List.filter_eq_self.mpr fun declaration member =>
            decide_eq_true (module_of_mem_mergeImports member)
        · have none : (mergeImports key imports).filter (·.module = module) = [] := by
            refine List.filter_eq_nil_iff.mpr fun declaration member => ?_
            rw [module_of_mem_mergeImports member, decide_eq_true_eq]
            exact same
          simp [none, Ne.symm same]
  rw [coalesceImports, only _ (nodup_distinctAscending _), if_pos (mem_distinctAscending.mpr named)]

/-- Coalescing binds the same names. -/
theorem bindSame_coalesceImports (imports : List Import) : BindSame (coalesceImports imports) imports := by
  refine ⟨fun module => mem_modules_coalesceImports, fun binding => ?_⟩
  rw [boundBy_coalesceImports, List.mem_flatMap, boundBy, List.mem_flatMap]
  simp only [mem_boundBy_mergeImports, mem_distinctAscending]
  constructor
  · rintro ⟨module, -, declaration, listed, -, inside⟩
    exact ⟨declaration, listed, inside⟩
  · rintro ⟨declaration, listed, inside⟩
    exact ⟨declaration.module, List.mem_map_of_mem listed, declaration, listed, rfl, inside⟩

/-- The modules come out in ascending order, so the imports of one module stand together. -/
theorem pairwise_modules_coalesceImports (imports : List Import) :
    ((coalesceImports imports).map (·.module)).Pairwise (· ≤ ·) := by
  rw [List.pairwise_map, coalesceImports, List.pairwise_flatMap]
  constructor
  · intro module _
    refine List.Pairwise.imp_of_mem (R := fun _ _ => True) (fun first second _ => ?_)
      (List.pairwise_of_forall fun _ _ => trivial)
    have same := (module_of_mem_mergeImports first).trans (module_of_mem_mergeImports second).symm
    exact same ▸ String.le_refl _
  · refine (pairwise_distinctAscending _).imp fun {lower upper} below first here second there => ?_
    rw [module_of_mem_mergeImports here, module_of_mem_mergeImports there]
    exact Std.le_of_lt below

/-- Every import of a group carries the assert clause that is given first. -/
theorem assertion_of_mem_mergeImports {module : String} {imports : List Import} {declaration : Import}
    (member : declaration ∈ mergeImports module imports) :
    declaration.assertion = (imports.filter (·.module = module)).findSome? (·.assertion) := by
  rw [mergeImports_eq] at member
  rcases List.mem_cons.mp member with rfl | further
  · rfl
  · obtain ⟨name, -, rfl⟩ := List.mem_map.mp further
    rfl

/-- The imports of a module merge into one for each of its default names, and one if it has none. -/
theorem length_mergeImports (module : String) (imports : List Import) :
    (mergeImports module imports).length = max 1 (defaultNames imports module).length := by
  rw [mergeImports_eq, List.length_cons, List.length_map, List.length_tail]
  omega

/-- A group has an import without bindings exactly if it binds nothing at all. -/
theorem exists_sideEffect_iff (module : String) (imports : List Import) :
    (∃ declaration ∈ mergeImports module imports, declaration.isSideEffect) ↔
      boundBy (mergeImports module imports) = [] := by
  constructor
  · rintro ⟨declaration, member, nothing⟩
    rw [isSideEffect_iff] at nothing
    rw [mergeImports_eq] at member
    rcases List.mem_cons.mp member with rfl | further
    · have none : defaultNames imports module = [] := by
        simpa [Import.bound] using (List.append_eq_nil_iff.mp nothing).1
      rw [mergeImports_eq, boundBy, List.flatMap_cons, nothing, none]
      rfl
    · obtain ⟨name, -, rfl⟩ := List.mem_map.mp further
      cases nothing
  · intro nothing
    rw [mergeImports_eq, boundBy, List.flatMap_cons] at nothing
    exact ⟨_, mergeImports_eq module imports ▸ List.mem_cons_self,
      isSideEffect_iff.mpr (List.append_eq_nil_iff.mp nothing).1⟩

/-- A module keeps an import without bindings exactly if there is nothing else. -/
theorem sideEffect_mem_mergeImports_iff {module : String} {imports : List Import} :
    (∃ declaration ∈ mergeImports module imports, declaration.isSideEffect) ↔
      ∀ declaration ∈ imports, declaration.module = module → declaration.isSideEffect := by
  rw [exists_sideEffect_iff]
  simp only [isSideEffect_iff, List.eq_nil_iff_forall_not_mem, mem_boundBy_mergeImports]
  constructor
  · exact fun nothing declaration listed same binding inside =>
      nothing binding ⟨declaration, listed, same, inside⟩
  · rintro nothing binding ⟨declaration, listed, same, inside⟩
    exact nothing declaration listed same binding inside

/-! ## Coalescing again -/

/-- The default names, the entries and the assert clause of a group are those it was merged from. -/
theorem mergeImports_of_filter_eq {module : String} {imports again : List Import}
    (group : again.filter (·.module = module) = mergeImports module imports) :
    mergeImports module again = mergeImports module imports := by
  have names : defaultNames again module = defaultNames imports module := by
    have listed : (mergeImports module imports).filterMap (·.defaultName) =
        defaultNames imports module := by
      rw [mergeImports_eq]
      cases defaultNames imports module with
      | nil => rfl
      | cons first further => simp
    rw [defaultNames, group, listed]
    exact eraseDups_of_nodup (nodup_eraseDups _)
  have entries : dropRepeats (sortBy ImportEntry.order
        ((mergeImports module imports).flatMap (·.named))) =
      dropRepeats (sortBy ImportEntry.order
        ((imports.filter (·.module = module)).flatMap (·.named))) := by
    have listed : (mergeImports module imports).flatMap (·.named) =
        dropRepeats (sortBy ImportEntry.order
          ((imports.filter (·.module = module)).flatMap (·.named))) := by
      rw [mergeImports_eq, List.flatMap_cons, List.flatMap_map]
      simp
    rw [listed, dropRepeats_sortBy_self]
  have assertion : (mergeImports module imports).findSome? (·.assertion) =
      (imports.filter (·.module = module)).findSome? (·.assertion) := by
    cases stated : (imports.filter (·.module = module)).findSome? (·.assertion) with
    | none =>
        exact List.findSome?_eq_none_iff.mpr fun declaration member =>
          (assertion_of_mem_mergeImports member).trans stated
    | some kind =>
        rw [mergeImports_eq, List.findSome?_cons, stated]
  rw [mergeImports_eq module again, names, group, entries, assertion, ← mergeImports_eq]

/-- Coalescing twice is coalescing once. -/
theorem coalesceImports_coalesceImports (imports : List Import) :
    coalesceImports (coalesceImports imports) = coalesceImports imports := by
  rw [coalesceImports, distinctAscending_congr (bindSame_coalesceImports imports).modules]
  refine List.flatMap_congr fun module listed => ?_
  exact mergeImports_of_filter_eq (filter_coalesceImports (mem_distinctAscending.mp listed))

/-! ## Every binding once -/

/-- Entries that do not repeat their names are bound once by a group. -/
theorem nodup_boundBy_mergeImports {module : String} {imports : List Import}
    (plain : ∀ declaration ∈ imports, ∀ entry ∈ declaration.named, entry.IsPlain) :
    (boundBy (mergeImports module imports)).Nodup := by
  have isPlain {entry : ImportEntry} (member : entry ∈ sortBy ImportEntry.order
      ((imports.filter (·.module = module)).flatMap (·.named))) : entry.IsPlain := by
    obtain ⟨declaration, kept, listed⟩ := List.mem_flatMap.mp (mem_sortBy.mp member)
    exact plain declaration (List.mem_filter.mp kept).1 entry listed
  have entries := nodup_dropRepeats ImportEntry.order
    (fun one listed other member => (isPlain listed).eq_of_order_eq (isPlain member))
    (pairwise_sortBy ImportEntry.order _)
  refine (boundBy_mergeImports_perm module imports).symm.nodup (List.nodup_append.mpr ⟨?_, ?_, ?_⟩)
  · exact (nodup_eraseDups _).map fun _ _ same => (BoundName.ofDefault.inj same).2
  · refine entries.map fun one other same => ?_
    obtain ⟨-, flag, property, name⟩ := BoundName.ofEntry.inj same
    cases one
    cases other
    exact ImportEntry.mk.injEq .. ▸ ⟨flag, property, name⟩
  · intro binding default other entry
    obtain ⟨_, -, rfl⟩ := List.mem_map.mp default
    obtain ⟨_, -, rfl⟩ := List.mem_map.mp entry
    exact BoundName.noConfusion

/-- The module a binding is taken from. -/
def BoundName.module : BoundName → String
  | ofDefault module _ => module
  | ofEntry module _ _ _ => module

/-- What an import binds belongs to its module. -/
theorem module_of_mem_bound {declaration : Import} {binding : BoundName}
    (member : binding ∈ declaration.bound) : binding.module = declaration.module := by
  rcases List.mem_append.mp member with default | entry
  · obtain ⟨_, -, rfl⟩ := List.mem_map.mp default
    rfl
  · obtain ⟨_, -, rfl⟩ := List.mem_map.mp entry
    rfl

/-- Coalesced imports bind nothing twice. -/
theorem nodup_boundBy_coalesceImports {imports : List Import}
    (plain : ∀ declaration ∈ imports, ∀ entry ∈ declaration.named, entry.IsPlain) :
    (boundBy (coalesceImports imports)).Nodup := by
  rw [boundBy_coalesceImports, List.nodup_flatMap]
  refine ⟨fun module _ => nodup_boundBy_mergeImports plain, ?_⟩
  refine (nodup_distinctAscending _).imp fun {first second} differs binding left right => ?_
  -- A binding tells its module, and these are two.
  have told {module : String} (bound : binding ∈ boundBy (mergeImports module imports)) :
      binding.module = module := by
    obtain ⟨declaration, -, rfl, inside⟩ := mem_boundBy_mergeImports.mp bound
    exact module_of_mem_bound inside
  exact differs ((told left).symm.trans (told right))

/-! ## No fewer imports -/

/-- Merging the imports of a module makes no more of them. -/
theorem length_mergeImports_le {module : String} {imports : List Import}
    (named : module ∈ imports.map (·.module)) :
    (mergeImports module imports).length ≤ (imports.map (·.module)).count module := by
  have those : (imports.map (·.module)).count module =
      (imports.filter (·.module = module)).length := by
    rw [List.count, List.countP_map, List.countP_eq_length_filter]
    rfl
  have names : (defaultNames imports module).length ≤
      (imports.filter (·.module = module)).length := by
    have inside : defaultNames imports module ⊆
        (imports.filter (·.module = module)).filterMap (·.defaultName) :=
      fun _ => List.mem_eraseDups.mp
    exact (List.subperm_of_subset (nodup_eraseDups _) inside).length_le.trans (List.length_filterMap_le _ _)
  have some : 0 < (imports.map (·.module)).count module := List.count_pos_iff.mpr named
  rw [length_mergeImports]
  omega

/-- Coalescing makes no more imports. -/
theorem length_coalesceImports_le (imports : List Import) :
    (coalesceImports imports).length ≤ imports.length := by
  have modules : (distinctAscending (imports.map (·.module))).Perm (imports.map (·.module)).dedup := by
    refine (List.perm_ext_iff_of_nodup (nodup_distinctAscending _) (List.nodup_dedup _)).mpr
      fun module => ?_
    rw [mem_distinctAscending, List.mem_dedup]
  calc (coalesceImports imports).length
      = ((distinctAscending (imports.map (·.module))).map fun module =>
          (mergeImports module imports).length).sum := List.length_flatMap
    _ ≤ ((distinctAscending (imports.map (·.module))).map fun module =>
          (imports.map (·.module)).count module).sum :=
        List.sum_le_sum fun module listed =>
          length_mergeImports_le (mem_distinctAscending.mp listed)
    _ = ((imports.map (·.module)).dedup.map fun module =>
          (imports.map (·.module)).count module).sum := (modules.map _).sum_eq
    _ = (imports.map (·.module)).length := List.sum_map_count_dedup_eq_length _
    _ = imports.length := List.length_map _

/-- How many imports coalescing makes depends on what is bound alone. -/
theorem BindSame.length_coalesceImports_eq {first second : List Import} (same : BindSame first second) :
    (coalesceImports first).length = (coalesceImports second).length := by
  have names (module : String) :
      (defaultNames first module).length = (defaultNames second module).length := by
    refine List.Perm.length_eq ((List.perm_ext_iff_of_nodup (nodup_eraseDups _)
      (nodup_eraseDups _)).mpr fun name => ?_)
    exact mem_defaultNames.trans ((same.bindings _).trans mem_defaultNames.symm)
  rw [coalesceImports, coalesceImports, List.length_flatMap, List.length_flatMap,
    distinctAscending_congr same.modules]
  simp only [length_mergeImports, names]

/-- Coalescing keeps what is bound with the fewest imports. The same modules are imported and the same names
bound, with the flag, the property and the local name of every entry. The imports stand in ascending order
of their modules. Each module has as many as it has default names, and one if it has none: the first takes
the first default name and all entries in their order, and each carries the assert clause that is given
first. An import without bindings is left exactly for the modules that nothing is taken from. No imports
that bind the same are fewer, coalescing again changes nothing, and without entries that repeat their names
nothing is bound twice. -/
theorem coalesceImports_binds_same_with_fewest (imports : List Import) :
    BindSame (coalesceImports imports) imports ∧
    ((coalesceImports imports).map (·.module)).Pairwise (· ≤ ·) ∧
    (∀ module ∈ imports.map (·.module), ∃ first further,
      (coalesceImports imports).filter (·.module = module) = first :: further ∧
      (first :: further).length = max 1 (defaultNames imports module).length ∧
      first.defaultName = (defaultNames imports module).head? ∧
      further.map (·.defaultName) = (defaultNames imports module).tail.map some ∧
      (∀ entry, entry ∈ first.named ↔
        ∃ declaration ∈ imports, declaration.module = module ∧ entry ∈ declaration.named) ∧
      first.named.Pairwise (fun a b => (ImportEntry.order a b).isLE) ∧
      (∀ declaration ∈ further, declaration.named = []) ∧
      ∀ declaration ∈ first :: further, declaration.assertion =
        (imports.filter (·.module = module)).findSome? (·.assertion)) ∧
    (∀ module ∈ imports.map (·.module),
      (∃ declaration ∈ coalesceImports imports,
        declaration.module = module ∧ declaration.isSideEffect) ↔
      ∀ declaration ∈ imports, declaration.module = module → declaration.isSideEffect) ∧
    (∀ others, BindSame others imports → (coalesceImports imports).length ≤ others.length) ∧
    coalesceImports (coalesceImports imports) = coalesceImports imports ∧
    ((∀ declaration ∈ imports, ∀ entry ∈ declaration.named, entry.property ≠ some entry.name) →
      (boundBy (coalesceImports imports)).Nodup) := by
  refine ⟨bindSame_coalesceImports imports, pairwise_modules_coalesceImports imports,
    fun module named => ?_, fun module named => ?_, fun others same => ?_,
    coalesceImports_coalesceImports imports, nodup_boundBy_coalesceImports⟩
  · rw [filter_coalesceImports named, mergeImports_eq]
    refine ⟨_, _, rfl, ?_, rfl, ?_, fun entry => ?_, ?_, fun declaration member => ?_,
      fun declaration member => ?_⟩
    · rw [← mergeImports_eq, length_mergeImports]
    · rw [List.map_map]
      rfl
    · rw [mem_dropRepeats, mem_sortBy, List.mem_flatMap]
      simp only [List.mem_filter, decide_eq_true_eq, and_assoc]
    · exact (pairwise_sortBy ImportEntry.order _).sublist (dropRepeats_sublist _)
    · obtain ⟨name, -, rfl⟩ := List.mem_map.mp member
      rfl
    · rw [← mergeImports_eq] at member
      exact assertion_of_mem_mergeImports member
  · rw [← sideEffect_mem_mergeImports_iff, ← filter_coalesceImports named]
    simp only [List.mem_filter, decide_eq_true_eq, and_assoc]
  · rw [← same.length_coalesceImports_eq]
    exact length_coalesceImports_le others

/-- Two default names of one module, and a module that is only named. Two imports of the first and one of the
other are left, and nothing is bound twice. -/
theorem coalesceImports_of_two_defaults :
    let imports : List Import := [
      ⟨some "D", [⟨false, none, "a"⟩], "./m", none⟩,
      ⟨none, [], "./s", none⟩,
      ⟨some "E", [⟨false, none, "a"⟩, ⟨true, some "b", "c"⟩], "./m", none⟩,
      ⟨none, [], "./m", none⟩]
    let others : List Import := [
      ⟨some "E", [⟨false, none, "a"⟩, ⟨true, some "b", "c"⟩], "./m", none⟩,
      ⟨some "D", [], "./m", none⟩,
      ⟨none, [], "./s", none⟩]
    BindSame others imports ∧ (coalesceImports imports).length ≤ 3 ∧
      ((coalesceImports imports).filter (·.module = "./m")).length = 2 ∧
      (∃ declaration ∈ coalesceImports imports,
        declaration.module = "./s" ∧ declaration.isSideEffect) ∧
      (boundBy (coalesceImports imports)).Nodup := by
  intro imports others
  have same : BindSame others imports := by
    constructor
    · intro module
      simp [imports, others]
      tauto
    · intro binding
      simp [boundBy, Import.bound, imports, others]
      tauto
  obtain ⟨-, -, groups, sides, fewest, -, once⟩ := coalesceImports_binds_same_with_fewest imports
  obtain ⟨first, further, group, count, -⟩ := groups "./m" (by decide)
  refine ⟨same, fewest others same, ?_, (sides "./s" (by decide)).mpr (by decide), once (by decide)⟩
  rw [group, count]
  decide

end BarrelSynthesis.Synthesis
