/-
# What coalescing keeps

Bringing declarations together sorts, merges and splits them. What a list of declarations means does
not depend on any of that: a list of exports means which names it gives, each with the name and the
module it is taken from, and a list of imports means which local names it binds, each with the name and
the module it stands for and whether as a type only. A default binding stands for the name `default`.
-/
import BarrelSynthesis.Synthesis.Coalesce
import Mathlib.Data.List.Flatten
import Mathlib.Data.List.Nodup
import Mathlib.Data.List.Pairwise
import Mathlib.Data.List.Perm.Basic

namespace BarrelSynthesis.Synthesis

/-! ## Sorting and dropping repetitions -/

/-- Dropping repeats of neighbours loses no element. -/
theorem mem_dropRepeats {α : Type} [DecidableEq α] {element : α} {elements : List α} :
    element ∈ dropRepeats elements ↔ element ∈ elements := by
  fun_induction dropRepeats elements with
  | case1 => rfl
  | case2 => rfl
  | case3 repeated rest ih => simp [ih]
  | case4 first second rest differs ih =>
      rw [List.mem_cons, ih, List.mem_cons (b := first) (l := second :: rest)]

/-- Sorting loses none and adds none. -/
theorem mem_sortBy {α : Type} {order : α → α → Ordering} {element : α} {elements : List α} :
    element ∈ sortBy order elements ↔ element ∈ elements :=
  List.mem_mergeSort

/-- Nor does making a list distinct and ascending. -/
theorem mem_distinctAscending {text : String} {texts : List String} :
    text ∈ distinctAscending texts ↔ text ∈ texts := by
  rw [distinctAscending, mem_dropRepeats, mem_sortBy]

/-- Sorting leaves a list in ascending order. -/
theorem pairwise_sortBy {α : Type} (order : α → α → Ordering) [Std.TransCmp order]
    (elements : List α) : (sortBy order elements).Pairwise fun a b => (order a b).isLE := by
  apply List.pairwise_mergeSort
  · exact fun _ _ _ => Std.TransCmp.isLE_trans
  · intro a b
    cases below : (order a b).isLE with
    | true => rfl
    | false => simp [Std.OrientedCmp.lt_of_not_isLE (by simpa using below)]

/-- Dropping repeats keeps the others in order. -/
theorem dropRepeats_sublist {α : Type} [DecidableEq α] (elements : List α) :
    (dropRepeats elements).Sublist elements := by
  fun_induction dropRepeats elements with
  | case1 => exact .refl _
  | case2 => exact .refl _
  | case3 repeated rest ih => exact .cons _ ih
  | case4 first second rest differs ih => exact .cons_cons _ ih

/-- Of an ascending list, dropping repetitions leaves every element once, if only equal elements stand on a
level. -/
theorem nodup_dropRepeats {α : Type} [DecidableEq α] (order : α → α → Ordering)
    [Std.TransCmp order] {elements : List α}
    (apart : ∀ first ∈ elements, ∀ second ∈ elements, order first second = .eq → first = second)
    (ascending : elements.Pairwise fun a b => (order a b).isLE) : (dropRepeats elements).Nodup := by
  fun_induction dropRepeats elements with
  | case1 => exact List.nodup_nil
  | case2 element => exact List.nodup_singleton element
  | case3 repeated rest ih =>
      refine ih (fun first listed second member => ?_) (List.pairwise_cons.mp ascending).2
      exact apart first (List.mem_cons_of_mem _ listed) second (List.mem_cons_of_mem _ member)
  | case4 first second rest differs ih =>
      obtain ⟨lowest, others⟩ := List.pairwise_cons.mp ascending
      refine List.nodup_cons.mpr ⟨fun again => ?_, ih (fun one listed other member => ?_) others⟩
      · rcases List.mem_cons.mp (mem_dropRepeats.mp again) with same | later
        · exact differs same
        · -- What comes back behind a second element stands below it and above it.
          have below := (List.pairwise_cons.mp others).1 first later
          have equal := Std.OrientedCmp.isLE_antisymm (lowest second List.mem_cons_self) below
          exact differs (apart first List.mem_cons_self second
            (List.mem_cons_of_mem _ List.mem_cons_self) equal)
      · exact apart one (List.mem_cons_of_mem _ listed) other (List.mem_cons_of_mem _ member)

/-- Of an ascending list, dropping repetitions leaves a strictly ascending one, if only equal elements stand
on a level. -/
theorem pairwise_dropRepeats {α : Type} [DecidableEq α] (order : α → α → Ordering)
    [Std.TransCmp order] {elements : List α}
    (apart : ∀ first ∈ elements, ∀ second ∈ elements, order first second = .eq → first = second)
    (ascending : elements.Pairwise fun a b => (order a b).isLE) :
    (dropRepeats elements).Pairwise fun a b => order a b = .lt := by
  have kept := ascending.sublist (dropRepeats_sublist elements)
  refine (kept.and (nodup_dropRepeats order apart ascending)).imp_of_mem
    fun {first second} listed member both => ?_
  obtain ⟨below, differs⟩ := both
  rcases Ordering.isLE_iff_eq_lt_or_eq_eq.mp below with strictly | level
  · exact strictly
  · exact absurd (apart first (mem_dropRepeats.mp listed) second (mem_dropRepeats.mp member) level)
      differs

/-- The distinct texts of a list stand in strictly ascending order. -/
theorem pairwise_distinctAscending (texts : List String) :
    (distinctAscending texts).Pairwise (· < ·) :=
  (pairwise_dropRepeats compare (fun _ _ _ _ => Std.LawfulEqCmp.eq_of_compare)
    (pairwise_sortBy compare texts)).imp compareOfLessAndEq_eq_lt.mp

/-- A list made distinct and ascending has no repeats. -/
theorem nodup_distinctAscending (texts : List String) : (distinctAscending texts).Nodup :=
  nodup_dropRepeats compare (fun _ _ _ _ => Std.LawfulEqCmp.eq_of_compare)
    (pairwise_sortBy compare texts)

/-! ## Exports -/

/-- The declaration gives a name, taken from another name of its module. -/
def Export.Gives (declaration : Export) (name origin : String) : Prop :=
  ∃ entry ∈ declaration.entries, entry.name = name ∧ entry.origin = origin

/-- Some exports give a name, taken from a name of a module. -/
def ExportsGive (exports : List Export) (name origin module : String) : Prop :=
  ∃ declaration ∈ exports, declaration.module = module ∧ declaration.Gives name origin

/-- The merged export of a module has the entries of that module's exports. -/
theorem mem_entries_mergeExports {module : String} {exports : List Export} {entry : ExportEntry} :
    entry ∈ (mergeExports module exports).entries ↔
      ∃ declaration ∈ exports, declaration.module = module ∧ entry ∈ declaration.entries := by
  simp only [mergeExports, mem_dropRepeats, mem_sortBy, List.mem_flatMap, List.mem_filter,
    decide_eq_true_eq, and_assoc]

/-- So it gives the names that they give, from where they take them. -/
theorem mergeExports_gives_iff {module name origin : String} {exports : List Export} :
    (mergeExports module exports).Gives name origin ↔ ExportsGive exports name origin module := by
  simp only [Export.Gives, mem_entries_mergeExports, ExportsGive]
  constructor
  · rintro ⟨entry, ⟨declaration, member, same, listed⟩, meaning⟩
    exact ⟨declaration, member, same, entry, listed, meaning⟩
  · rintro ⟨declaration, member, same, entry, listed, meaning⟩
    exact ⟨entry, ⟨declaration, member, same, listed⟩, meaning⟩

/-- Coalescing keeps which names are given, and where they are taken from. -/
theorem exportsGive_coalesceExports {exports : List Export} {name origin module : String} :
    ExportsGive (coalesceExports exports) name origin module ↔
      ExportsGive exports name origin module := by
  constructor
  · rintro ⟨declaration, member, same, gives⟩
    obtain ⟨key, -, rfl⟩ := List.mem_map.mp member
    have key_eq : key = module := same
    rw [← key_eq]
    exact mergeExports_gives_iff.mp gives
  · intro given
    have named : module ∈ distinctAscending (exports.map (·.module)) := by
      obtain ⟨declaration, member, same, -⟩ := given
      rw [mem_distinctAscending, ← same]
      exact List.mem_map_of_mem member
    exact ⟨mergeExports module exports, List.mem_map_of_mem named, rfl,
      mergeExports_gives_iff.mpr given⟩

/-- Coalescing leaves one export for every module. -/
theorem map_module_coalesceExports (exports : List Export) :
    (coalesceExports exports).map (·.module) = distinctAscending (exports.map (·.module)) := by
  rw [coalesceExports, List.map_map]
  exact List.map_id _

/-- What an export gives, entry by entry, each with the module it is taken from. -/
def Export.given (declaration : Export) : List (String × ExportEntry) :=
  declaration.entries.map fun entry => (declaration.module, entry)

/-- Coalescing keeps every entry with its module, and adds none. -/
theorem mem_given_coalesceExports {exports : List Export} {given : String × ExportEntry} :
    given ∈ (coalesceExports exports).flatMap Export.given ↔
      given ∈ exports.flatMap Export.given := by
  obtain ⟨module, entry⟩ := given
  have listed (declarations : List Export) :
      (module, entry) ∈ declarations.flatMap Export.given ↔
        ∃ declaration ∈ declarations, declaration.module = module ∧
          entry ∈ declaration.entries := by
    simp only [List.mem_flatMap, Export.given, List.mem_map, Prod.mk.injEq]
    constructor
    · rintro ⟨declaration, member, _, found, same, rfl⟩
      exact ⟨declaration, member, same, found⟩
    · rintro ⟨declaration, member, same, found⟩
      exact ⟨declaration, member, entry, found, same, rfl⟩
  rw [listed, listed]
  constructor
  · rintro ⟨_, member, same, found⟩
    obtain ⟨key, -, rfl⟩ := List.mem_map.mp member
    exact same ▸ mem_entries_mergeExports.mp found
  · intro given
    obtain ⟨declaration, member, same, found⟩ := given
    have named : module ∈ distinctAscending (exports.map (·.module)) :=
      mem_distinctAscending.mpr (same ▸ List.mem_map_of_mem member)
    exact ⟨mergeExports module exports, List.mem_map_of_mem named, rfl,
      mem_entries_mergeExports.mpr ⟨declaration, member, same, found⟩⟩

/-- Merging exports without repetition gives every entry of the module once. -/
theorem nodup_given_mergeExports {module : String} {exports : List Export}
    (distinct : (exports.flatMap Export.given).Nodup) :
    (mergeExports module exports).given.Nodup := by
  have those : ((exports.filter (·.module = module)).flatMap Export.given).Nodup :=
    distinct.sublist (List.filter_sublist.flatMap _)
  have shape : (exports.filter (·.module = module)).flatMap Export.given =
      ((exports.filter (·.module = module)).flatMap (·.entries)).map fun entry =>
        (module, entry) := by
    rw [List.map_flatMap]
    refine List.flatMap_congr fun declaration listed => ?_
    rw [Export.given, of_decide_eq_true (List.mem_filter.mp listed).2]
  rw [shape] at those
  have sorted := (List.mergeSort_perm _ fun a b => (ExportEntry.order a b).isLE).symm.nodup
    those.of_map
  exact (sorted.sublist (dropRepeats_sublist _)).map fun _ _ => (Prod.ext_iff.mp · |>.2)

/-- Exports without repetition are rearranged by coalescing: no entry gets lost, and none is doubled. -/
theorem given_coalesceExports_perm {exports : List Export}
    (distinct : (exports.flatMap Export.given).Nodup) :
    ((coalesceExports exports).flatMap Export.given).Perm (exports.flatMap Export.given) := by
  refine (List.perm_ext_iff_of_nodup ?_ distinct).mpr fun given => mem_given_coalesceExports
  rw [coalesceExports, List.flatMap_map, List.nodup_flatMap]
  refine ⟨fun module _ => nodup_given_mergeExports distinct, ?_⟩
  refine (nodup_distinctAscending _).imp fun {first second} differs given left right => ?_
  -- An entry tells its module, and these are two.
  obtain ⟨_, -, rfl⟩ := List.mem_map.mp left
  obtain ⟨_, -, same⟩ := List.mem_map.mp right
  exact differs (Prod.ext_iff.mp same).1.symm

/-! ## Imports -/

/-- The declaration binds a local name to a name of its module. -/
def Import.Binds (declaration : Import) (localName origin : String) (typeOnly : Bool) : Prop :=
  (declaration.defaultName = some localName ∧ origin = "default" ∧ typeOnly = false) ∨
    ∃ entry ∈ declaration.named,
      entry.name = localName ∧ entry.origin = origin ∧ entry.typeOnly = typeOnly

/-- Some imports bind a local name to a name of a module. -/
def ImportsBind (imports : List Import) (localName origin module : String) (typeOnly : Bool) : Prop :=
  ∃ declaration ∈ imports, declaration.module = module ∧ declaration.Binds localName origin typeOnly

/-- The default names of the merged imports of a module are those of its imports. -/
theorem mem_defaults_mergeImports {module localName : String} {imports : List Import} :
    (∃ declaration ∈ mergeImports module imports, declaration.defaultName = some localName) ↔
      ∃ declaration ∈ imports,
        declaration.module = module ∧ declaration.defaultName = some localName := by
  have split (names : List String) (assertion : Option String) (named : List ImportEntry) :
      (∃ declaration ∈ Import.mk names.head? named module assertion
          :: names.tail.map fun name => ⟨some name, [], module, assertion⟩,
        declaration.defaultName = some localName) ↔ localName ∈ names := by
    cases names with
    | nil => simp
    | cons first others =>
        simp only [List.head?_cons, List.tail_cons, List.mem_cons, List.mem_map]
        constructor
        · rintro ⟨declaration, rfl | ⟨name, member, rfl⟩, same⟩
          · exact .inl (Option.some.inj same).symm
          · exact .inr (Option.some.inj same ▸ member)
        · rintro (rfl | member)
          · exact ⟨_, .inl rfl, rfl⟩
          · exact ⟨_, .inr ⟨localName, member, rfl⟩, rfl⟩
  rw [mergeImports, split, List.mem_eraseDups, List.mem_filterMap]
  simp only [List.mem_filter, decide_eq_true_eq, and_assoc]

/-- The entries of the merged imports of a module are those of its imports. -/
theorem mem_named_mergeImports {module : String} {imports : List Import} {entry : ImportEntry} :
    (∃ declaration ∈ mergeImports module imports, entry ∈ declaration.named) ↔
      ∃ declaration ∈ imports, declaration.module = module ∧ entry ∈ declaration.named := by
  have first_only (defaults : List String) (named : List ImportEntry) (assertion : Option String) :
      (∃ declaration ∈ Import.mk defaults.head? named module assertion
          :: defaults.tail.map fun name => ⟨some name, [], module, assertion⟩,
        entry ∈ declaration.named) ↔ entry ∈ named := by
    simp only [List.mem_cons, List.mem_map]
    constructor
    · rintro ⟨declaration, rfl | ⟨name, -, rfl⟩, found⟩
      · exact found
      · exact absurd found List.not_mem_nil
    · intro found
      exact ⟨_, .inl rfl, found⟩
  rw [mergeImports, first_only, mem_dropRepeats, mem_sortBy, List.mem_flatMap]
  simp only [List.mem_filter, decide_eq_true_eq, and_assoc]

/-- All merged imports of a module are of this module. -/
theorem module_of_mem_mergeImports {module : String} {imports : List Import} {declaration : Import}
    (member : declaration ∈ mergeImports module imports) : declaration.module = module := by
  rcases List.mem_cons.mp member with rfl | further
  · rfl
  · obtain ⟨name, -, rfl⟩ := List.mem_map.mp further
    rfl

/-- They bind the names that the module's imports bind. -/
theorem mergeImports_bind_iff {module localName origin : String} {typeOnly : Bool}
    {imports : List Import} :
    (∃ declaration ∈ mergeImports module imports, declaration.Binds localName origin typeOnly) ↔
      ImportsBind imports localName origin module typeOnly := by
  constructor
  · rintro ⟨declaration, member, ⟨isDefault, meaning⟩ | ⟨entry, listed, meaning⟩⟩
    · obtain ⟨source, inside, same, found⟩ :=
        mem_defaults_mergeImports.mp ⟨declaration, member, isDefault⟩
      exact ⟨source, inside, same, .inl ⟨found, meaning⟩⟩
    · obtain ⟨source, inside, same, found⟩ :=
        mem_named_mergeImports.mp ⟨declaration, member, listed⟩
      exact ⟨source, inside, same, .inr ⟨entry, found, meaning⟩⟩
  · rintro ⟨source, inside, same, ⟨isDefault, meaning⟩ | ⟨entry, listed, meaning⟩⟩
    · obtain ⟨declaration, member, found⟩ :=
        mem_defaults_mergeImports.mpr ⟨source, inside, same, isDefault⟩
      exact ⟨declaration, member, .inl ⟨found, meaning⟩⟩
    · obtain ⟨declaration, member, found⟩ :=
        mem_named_mergeImports.mpr ⟨source, inside, same, listed⟩
      exact ⟨declaration, member, .inr ⟨entry, found, meaning⟩⟩

/-- Coalescing keeps which local names are bound, and what they stand for. -/
theorem importsBind_coalesceImports {imports : List Import} {localName origin module : String}
    {typeOnly : Bool} :
    ImportsBind (coalesceImports imports) localName origin module typeOnly ↔
      ImportsBind imports localName origin module typeOnly := by
  refine Iff.trans ?_ mergeImports_bind_iff
  constructor
  · rintro ⟨declaration, member, same, binds⟩
    obtain ⟨key, -, merged⟩ := List.mem_flatMap.mp member
    have key_eq : key = module := (module_of_mem_mergeImports merged).symm.trans same
    rw [key_eq] at merged
    exact ⟨declaration, merged, binds⟩
  · rintro ⟨declaration, merged, binds⟩
    have named : module ∈ distinctAscending (imports.map (·.module)) := by
      obtain ⟨source, inside, same, -⟩ := mergeImports_bind_iff.mp ⟨declaration, merged, binds⟩
      rw [mem_distinctAscending, ← same]
      exact List.mem_map_of_mem inside
    exact ⟨declaration, List.mem_flatMap.mpr ⟨module, named, merged⟩,
      module_of_mem_mergeImports merged, binds⟩

/-- Coalescing keeps which modules are imported, for their bindings or for their effect. -/
theorem mem_modules_coalesceImports {imports : List Import} {module : String} :
    module ∈ (coalesceImports imports).map (·.module) ↔ module ∈ imports.map (·.module) := by
  constructor
  · intro member
    obtain ⟨declaration, kept, rfl⟩ := List.mem_map.mp member
    obtain ⟨key, listed, merged⟩ := List.mem_flatMap.mp kept
    rw [module_of_mem_mergeImports merged]
    exact mem_distinctAscending.mp listed
  · intro member
    have listed := mem_distinctAscending.mpr member
    have merged : (mergeImports module imports).head (List.cons_ne_nil _ _) ∈
        mergeImports module imports := List.head_mem _
    exact List.mem_map.mpr ⟨_, List.mem_flatMap.mpr ⟨module, listed, merged⟩,
      module_of_mem_mergeImports merged⟩

/-! ## Names that are bound once -/

/-- The local names that a declaration binds, each as often as it binds it. -/
def Import.localNames (declaration : Import) : List String :=
  declaration.defaultName.toList ++ declaration.named.map (·.name)

/-- The local names that some imports bind, each as often as they bind it. -/
def localNames (imports : List Import) : List String :=
  imports.flatMap Import.localNames

/-- The local names of an import are those it binds. -/
theorem Import.mem_localNames_iff {declaration : Import} {localName : String} :
    localName ∈ declaration.localNames ↔
      ∃ origin typeOnly, declaration.Binds localName origin typeOnly := by
  rw [localNames, List.mem_append, Option.mem_toList, List.mem_map]
  constructor
  · rintro (isDefault | ⟨entry, listed, named⟩)
    · exact ⟨"default", false, .inl ⟨isDefault, rfl, rfl⟩⟩
    · exact ⟨entry.origin, entry.typeOnly, .inr ⟨entry, listed, named, rfl, rfl⟩⟩
  · rintro ⟨origin, typeOnly, ⟨isDefault, -⟩ | ⟨entry, listed, named, -⟩⟩
    · exact .inl isDefault
    · exact .inr ⟨entry, listed, named⟩

/-- The same for several imports. -/
theorem mem_localNames_iff {imports : List Import} {localName : String} :
    localName ∈ localNames imports ↔
      ∃ origin module typeOnly, ImportsBind imports localName origin module typeOnly := by
  simp only [localNames, List.mem_flatMap, Import.mem_localNames_iff]
  constructor
  · rintro ⟨declaration, listed, origin, typeOnly, binds⟩
    exact ⟨origin, declaration.module, typeOnly, declaration, listed, rfl, binds⟩
  · rintro ⟨origin, module, typeOnly, declaration, listed, -, binds⟩
    exact ⟨declaration, listed, origin, typeOnly, binds⟩

theorem nodup_eraseDups (texts : List String) : texts.eraseDups.Nodup := by
  match texts with
  | [] => exact List.nodup_nil
  | first :: rest =>
      rw [List.eraseDups_cons]
      refine List.nodup_cons.mpr ⟨fun again => ?_, nodup_eraseDups _⟩
      simpa using (List.mem_filter.mp (List.mem_eraseDups.mp again)).2
termination_by texts.length
decreasing_by
  exact Nat.lt_succ_of_le (List.length_filter_le _ _)

/-- A list without repeats stays as it is. -/
theorem eraseDups_of_nodup {texts : List String} (distinct : texts.Nodup) :
    texts.eraseDups = texts := by
  induction texts with
  | nil => rfl
  | cons first rest ih =>
      obtain ⟨fresh, others⟩ := List.nodup_cons.mp distinct
      have kept : rest.filter (fun text => !text == first) = rest := by
        apply List.filter_eq_self.mpr
        intro text listed
        have differs : text ≠ first := fun same => fresh (same ▸ listed)
        simpa using differs
      rw [List.eraseDups_cons, kept, ih others]

/-- The names of some imports are their default names and the names of their entries. -/
theorem localNames_perm (imports : List Import) :
    (localNames imports).Perm (imports.filterMap (·.defaultName) ++
      (imports.flatMap (·.named)).map (·.name)) := by
  rw [List.filterMap_eq_flatMap_toList, List.map_flatMap]
  exact (List.flatMap_append_perm imports _ _).symm

/-- Imports of one default each have the defaults as their local names. -/
theorem localNames_map_default (names : List String) (module : String) (assertion : Option String) :
    localNames (names.map fun name => ⟨some name, [], module, assertion⟩) = names := by
  induction names with
  | nil => rfl
  | cons name rest ih =>
      rw [List.map_cons, localNames, List.flatMap_cons]
      exact congrArg (List.cons name) ih

/-- Merged imports of a module bind its default names and the names of its entries. -/
theorem localNames_mergeImports_perm (module : String) (imports : List Import) :
    let those := imports.filter (·.module = module)
    (localNames (mergeImports module imports)).Perm
      ((those.filterMap (·.defaultName)).eraseDups ++
        (dropRepeats (sortBy ImportEntry.order (those.flatMap (·.named)))).map (·.name)) := by
  intro those
  rw [mergeImports, localNames, List.flatMap_cons]
  show (_ ++ localNames _).Perm _
  rw [localNames_map_default, Import.localNames]
  cases (those.filterMap (·.defaultName)).eraseDups with
  | nil => simp [those]
  | cons first others => simpa using List.perm_append_comm

/-- Merging imports of distinct names binds each of them once. -/
theorem nodup_localNames_mergeImports {module : String} {imports : List Import}
    (distinct : (localNames imports).Nodup) : (localNames (mergeImports module imports)).Nodup := by
  have thoseDistinct : (localNames (imports.filter (·.module = module))).Nodup :=
    distinct.sublist (List.filter_sublist.flatMap _)
  obtain ⟨defaults, entries, apart⟩ :=
    List.nodup_append.mp ((localNames_perm _).nodup thoseDistinct)
  have sorted : ((sortBy ImportEntry.order
      ((imports.filter (·.module = module)).flatMap (·.named))).map (·.name)).Nodup :=
    ((List.mergeSort_perm _ _).map _).symm.nodup entries
  refine (localNames_mergeImports_perm module imports).symm.nodup ?_
  rw [eraseDups_of_nodup defaults]
  refine List.nodup_append.mpr ⟨defaults, sorted.sublist ((dropRepeats_sublist _).map _), ?_⟩
  intro first listed second member
  obtain ⟨entry, kept, rfl⟩ := List.mem_map.mp member
  exact apart first listed _ (List.mem_map_of_mem (mem_sortBy.mp (mem_dropRepeats.mp kept)))

/-- Imports that bind distinct names bind each of them once when they are coalesced. -/
theorem nodup_localNames_coalesceImports {imports : List Import}
    (distinct : (localNames imports).Nodup) : (localNames (coalesceImports imports)).Nodup := by
  have apart := (List.nodup_flatMap.mp distinct).2
  have gathered : localNames (coalesceImports imports) =
      (distinctAscending (imports.map (·.module))).flatMap fun module =>
        localNames (mergeImports module imports) := List.flatMap_assoc
  rw [gathered, List.nodup_flatMap]
  refine ⟨fun module _ => nodup_localNames_mergeImports distinct, ?_⟩
  -- A name that two modules give would be bound by two imports, one of each module.
  refine (nodup_distinctAscending _).imp fun {first second} differs localName left right => ?_
  have source {module : String} (bound : localName ∈ localNames (mergeImports module imports)) :
      ∃ declaration ∈ imports, declaration.module = module ∧ localName ∈ declaration.localNames := by
    obtain ⟨merged, listed, named⟩ := List.mem_flatMap.mp bound
    obtain ⟨origin, typeOnly, binds⟩ := Import.mem_localNames_iff.mp named
    obtain ⟨declaration, inside, same, meaning⟩ :=
      mergeImports_bind_iff.mp ⟨merged, listed, binds⟩
    exact ⟨declaration, inside, same, Import.mem_localNames_iff.mpr ⟨origin, typeOnly, meaning⟩⟩
  obtain ⟨one, oneListed, rfl, oneBinds⟩ := source left
  obtain ⟨other, otherListed, rfl, otherBinds⟩ := source right
  have two : one ≠ other := fun same => differs (congrArg Import.module same)
  have : Std.Symm (Function.onFun List.Disjoint Import.localNames) :=
    ⟨fun _ _ => List.disjoint_symm⟩
  exact apart.forall oneListed otherListed two oneBinds otherBinds

/-- Coalescing imports of distinct names rearranges the names. -/
theorem localNames_coalesceImports_perm {imports : List Import}
    (distinct : (localNames imports).Nodup) :
    (localNames (coalesceImports imports)).Perm (localNames imports) := by
  rw [List.perm_ext_iff_of_nodup (nodup_localNames_coalesceImports distinct) distinct]
  intro name
  simp only [mem_localNames_iff, importsBind_coalesceImports]

/-- Some imports bind a local name exactly once, as a value, to a name of a module. -/
structure BoundOnce (imports : List Import) (localName origin module : String) : Prop where
  once : (localNames imports).count localName = 1
  binds : ImportsBind imports localName origin module false

/-- What imports of distinct names bind as a value is bound exactly once when they are coalesced. -/
theorem boundOnce_coalesceImports {imports : List Import} {localName origin module : String}
    (distinct : (localNames imports).Nodup)
    (binds : ImportsBind imports localName origin module false) :
    BoundOnce (coalesceImports imports) localName origin module := by
  have kept : ImportsBind (coalesceImports imports) localName origin module false :=
    importsBind_coalesceImports.mpr binds
  refine ⟨?_, kept⟩
  apply List.count_eq_one_of_mem (nodup_localNames_coalesceImports distinct)
  exact mem_localNames_iff.mpr ⟨origin, module, false, kept⟩

end BarrelSynthesis.Synthesis
