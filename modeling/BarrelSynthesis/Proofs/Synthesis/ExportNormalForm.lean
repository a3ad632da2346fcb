/-
# The normal form of a list of exports

Coalescing is a normal form. What comes out depends on three things only: which modules are exported
from, which entries are listed for each of them, and which assert clause. The declarations come out one
for each module, in strictly ascending order, with entries in strictly ascending order, and such a list is
determined by its elements. So neither the order of the declarations nor that of their entries matters, and
doing it again changes nothing, because nothing that matters has changed.

This needs entries that are plain. One entry can repeat its name, `a as a`, and another leave it out, and then
they stand on one level and stay in the order in which they came.
-/
import BarrelSynthesis.Proofs.Synthesis.Ordering
import Mathlib.Data.List.Forall2

namespace BarrelSynthesis.Synthesis

/-! ## What exports state -/

/-- An entry is listed for a module. -/
def ListsEntry (exports : List Export) (module : String) (entry : ExportEntry) : Prop :=
  ∃ declaration ∈ exports, declaration.module = module ∧ entry ∈ declaration.entries

/-- A kind is asserted for a module. -/
def ListsAssertion (exports : List Export) (module kind : String) : Prop :=
  ∃ declaration ∈ exports, declaration.module = module ∧ declaration.assertion = some kind

/-- No entry repeats its name as the name it is taken from. -/
def HasPlainEntries (exports : List Export) : Prop :=
  ∀ declaration ∈ exports, ∀ entry ∈ declaration.entries, entry.IsPlain

/-- The assert clauses given for one module are equal. There may be declarations without one. -/
def AgreesOnAssertions (exports : List Export) : Prop :=
  ∀ module kind other,
    ListsAssertion exports module kind → ListsAssertion exports module other → kind = other

/-- Two lists of exports name the same modules, and for each of them the same entries and kinds. -/
structure StatesSame (first second : List Export) : Prop where
  modules : ∀ module, module ∈ first.map (·.module) ↔ module ∈ second.map (·.module)
  entries : ∀ module entry, ListsEntry first module entry ↔ ListsEntry second module entry
  assertions : ∀ module kind, ListsAssertion first module kind ↔ ListsAssertion second module kind

/-- Coalescing names the modules of its input and no others. -/
theorem mem_modules_coalesceExports {exports : List Export} {module : String} :
    module ∈ (coalesceExports exports).map (·.module) ↔ module ∈ exports.map (·.module) := by
  rw [map_module_coalesceExports, mem_distinctAscending]

/-- What is merged from the exports of a module is one of the coalesced exports. -/
theorem mergeExports_mem_coalesceExports {exports : List Export} {declaration : Export}
    (listed : declaration ∈ exports) :
    mergeExports declaration.module exports ∈ coalesceExports exports :=
  List.mem_map_of_mem (mem_distinctAscending.mpr (List.mem_map_of_mem listed))

/-- Each coalesced statement is the merge of every input statement of its module. -/
theorem eq_mergeExports_of_mem {exports : List Export} {merged : Export}
    (member : merged ∈ coalesceExports exports) : merged = mergeExports merged.module exports := by
  obtain ⟨module, -, rfl⟩ := List.mem_map.mp member
  rfl

/-- Coalescing lists the same entries from the same modules. -/
theorem listsEntry_coalesceExports {exports : List Export} {module : String} {entry : ExportEntry} :
    ListsEntry (coalesceExports exports) module entry ↔ ListsEntry exports module entry := by
  constructor
  · rintro ⟨merged, member, rfl, listed⟩
    rw [eq_mergeExports_of_mem member] at listed
    exact mem_entries_mergeExports.mp listed
  · rintro ⟨declaration, member, rfl, listed⟩
    exact ⟨_, mergeExports_mem_coalesceExports member, rfl,
      mem_entries_mergeExports.mpr ⟨declaration, member, rfl, listed⟩⟩

/-- The assert clause of merged exports is the one that is given for their module, if any is. -/
theorem assertion_mergeExports_eq_some_iff {exports : List Export} (agree : AgreesOnAssertions exports)
    {module kind : String} :
    (mergeExports module exports).assertion = some kind ↔ ListsAssertion exports module kind := by
  have given {found : String} (first : (mergeExports module exports).assertion = some found) :
      ListsAssertion exports module found := by
    obtain ⟨declaration, member, stated⟩ := List.exists_of_findSome?_eq_some first
    obtain ⟨listed, same⟩ := List.mem_filter.mp member
    exact ⟨declaration, listed, of_decide_eq_true same, stated⟩
  refine ⟨given, fun stated => ?_⟩
  obtain ⟨declaration, listed, same, here⟩ := stated
  have someone : (mergeExports module exports).assertion.isSome := by
    apply List.findSome?_isSome_iff.mpr
    exact ⟨declaration, List.mem_filter.mpr ⟨listed, decide_eq_true same⟩, by rw [here]; rfl⟩
  obtain ⟨found, first⟩ := Option.isSome_iff_exists.mp someone
  rw [first, agree module kind found ⟨declaration, listed, same, here⟩ (given first)]

/-- The coalesced statement of a module carries the assertion of that module, if the input agrees on one. -/
theorem listsAssertion_coalesceExports {exports : List Export} (agree : AgreesOnAssertions exports)
    {module kind : String} :
    ListsAssertion (coalesceExports exports) module kind ↔ ListsAssertion exports module kind := by
  constructor
  · rintro ⟨merged, member, rfl, stated⟩
    rw [eq_mergeExports_of_mem member] at stated
    exact (assertion_mergeExports_eq_some_iff agree).mp stated
  · rintro ⟨declaration, member, rfl, stated⟩
    exact ⟨_, mergeExports_mem_coalesceExports member, rfl,
      (assertion_mergeExports_eq_some_iff agree).mpr ⟨declaration, member, rfl, stated⟩⟩

/-- Coalescing keeps everything that exports state. -/
theorem statesSame_coalesceExports {exports : List Export} (agree : AgreesOnAssertions exports) :
    StatesSame exports (coalesceExports exports) where
  modules _ := mem_modules_coalesceExports.symm
  entries _ _ := listsEntry_coalesceExports.symm
  assertions _ _ := (listsAssertion_coalesceExports agree).symm

/-! ## The normal form is determined by what is stated -/

/-- No statement holds a namespace or default entry exactly when no listed entry is one, so the condition
speaks of contents alone. -/
theorem hasPlainEntries_iff {exports : List Export} :
    HasPlainEntries exports ↔ ∀ module entry, ListsEntry exports module entry → entry.IsPlain := by
  constructor
  · rintro plain module entry ⟨declaration, listed, -, member⟩
    exact plain declaration listed entry member
  · intro plain declaration listed entry member
    exact plain declaration.module entry ⟨declaration, listed, rfl, member⟩

namespace StatesSame

variable {first second : List Export}

/-- Whether the entries are plain depends on what is stated, not on how. -/
theorem hasPlainEntries (same : StatesSame first second) (plain : HasPlainEntries first) :
    HasPlainEntries second :=
  hasPlainEntries_iff.mpr fun module entry listed =>
    hasPlainEntries_iff.mp plain module entry ((same.entries module entry).mpr listed)

/-- So does agreement on the assertions. -/
theorem agreesOnAssertions (same : StatesSame first second) (agree : AgreesOnAssertions first) :
    AgreesOnAssertions second := fun module kind other one another =>
  agree module kind other ((same.assertions module kind).mpr one)
    ((same.assertions module other).mpr another)

end StatesSame

/-- The entries of merged exports stand in strictly ascending order. -/
theorem pairwise_entries_mergeExports {exports : List Export} (plain : HasPlainEntries exports)
    (module : String) :
    (mergeExports module exports).entries.Pairwise fun a b => ExportEntry.order a b = .lt := by
  have isPlain {entry : ExportEntry} (member : entry ∈ sortBy ExportEntry.order
      ((exports.filter (·.module = module)).flatMap (·.entries))) : entry.IsPlain := by
    obtain ⟨declaration, kept, listed⟩ := List.mem_flatMap.mp (mem_sortBy.mp member)
    exact plain declaration (List.mem_filter.mp kept).1 entry listed
  apply pairwise_dropRepeats ExportEntry.order _ (pairwise_sortBy ExportEntry.order _)
  exact fun one listed other member => (isPlain listed).eq_of_order_eq (isPlain member)

/-- Exports that state the same are coalesced into the same. -/
theorem StatesSame.coalesceExports_eq {first second : List Export} (same : StatesSame first second)
    (plain : HasPlainEntries first) (agree : AgreesOnAssertions first) :
    coalesceExports first = coalesceExports second := by
  rw [coalesceExports, coalesceExports, distinctAscending_congr same.modules]
  refine List.map_congr_left fun module _ => ?_
  have entries : (mergeExports module first).entries = (mergeExports module second).entries := by
    apply eq_of_strictly_ascending (pairwise_entries_mergeExports plain module)
      (pairwise_entries_mergeExports (same.hasPlainEntries plain) module)
    intro entry
    rw [mem_entries_mergeExports, mem_entries_mergeExports]
    exact same.entries module entry
  have assertion : (mergeExports module first).assertion = (mergeExports module second).assertion := by
    apply Option.ext
    intro kind
    rw [assertion_mergeExports_eq_some_iff agree,
      assertion_mergeExports_eq_some_iff (same.agreesOnAssertions agree)]
    exact same.assertions module kind
  calc mergeExports module first
      = ⟨(mergeExports module first).entries, module, (mergeExports module first).assertion⟩ := rfl
    _ = ⟨(mergeExports module second).entries, module, (mergeExports module second).assertion⟩ := by
        rw [entries, assertion]
    _ = mergeExports module second := rfl

/-! ## Rearranged exports -/

/-- Two exports that differ in the order of their entries at most. -/
structure Export.SameUpToOrder (first second : Export) : Prop where
  module : first.module = second.module
  assertion : first.assertion = second.assertion
  entries : first.entries.Perm second.entries

/-- The same exports in another order, each with its entries in another order. -/
def Rearranged (first second : List Export) : Prop :=
  ∃ middle, first.Perm middle ∧ List.Forall₂ Export.SameUpToOrder middle second

/-- Every export of a list has one in another list that differs from it in the order of the entries at
most. -/
def CoveredBy (first second : List Export) : Prop :=
  ∀ declaration ∈ first, ∃ other ∈ second, declaration.SameUpToOrder other

/-- Statements that agree pairwise up to the order of their entries state the same. -/
theorem coveredBy_of_forall₂ {first second : List Export}
    (same : List.Forall₂ Export.SameUpToOrder first second) : CoveredBy first second := by
  intro declaration listed
  induction same with
  | nil => cases listed
  | cons here rest ih =>
      rcases List.mem_cons.mp listed with rfl | listed
      · exact ⟨_, List.mem_cons_self, here⟩
      · obtain ⟨other, member, same⟩ := ih listed
        exact ⟨other, List.mem_cons_of_mem _ member, same⟩

namespace CoveredBy

variable {first second : List Export}

/-- A covered list names no module beyond the covering one. -/
theorem modules (covered : CoveredBy first second) {module : String}
    (named : module ∈ first.map (·.module)) : module ∈ second.map (·.module) := by
  obtain ⟨declaration, listed, rfl⟩ := List.mem_map.mp named
  obtain ⟨other, member, same⟩ := covered declaration listed
  exact List.mem_map.mpr ⟨other, member, same.module.symm⟩

/-- A covered list has no entry beyond the covering one. -/
theorem entries (covered : CoveredBy first second) {module : String} {entry : ExportEntry}
    (inside : ListsEntry first module entry) : ListsEntry second module entry := by
  obtain ⟨declaration, listed, rfl, inside⟩ := inside
  obtain ⟨other, member, same⟩ := covered declaration listed
  exact ⟨other, member, same.module.symm, same.entries.mem_iff.mp inside⟩

/-- A covered list has no assertion beyond the covering one. -/
theorem assertions (covered : CoveredBy first second) {module kind : String}
    (stated : ListsAssertion first module kind) : ListsAssertion second module kind := by
  obtain ⟨declaration, listed, rfl, stated⟩ := stated
  obtain ⟨other, member, same⟩ := covered declaration listed
  exact ⟨other, member, same.module.symm, same.assertion.symm.trans stated⟩

end CoveredBy

/-- Rearranging the statements and their entries changes nothing that is stated. -/
theorem Rearranged.coveredBy {first second : List Export} (rearranged : Rearranged first second) :
    CoveredBy first second ∧ CoveredBy second first := by
  obtain ⟨middle, perm, same⟩ := rearranged
  have back : List.Forall₂ Export.SameUpToOrder second middle :=
    (same.imp fun _ _ alike => ⟨alike.module.symm, alike.assertion.symm, alike.entries.symm⟩).flip
  constructor
  · exact fun declaration listed => coveredBy_of_forall₂ same declaration (perm.mem_iff.mp listed)
  · intro declaration listed
    obtain ⟨other, member, alike⟩ := coveredBy_of_forall₂ back declaration listed
    exact ⟨other, perm.mem_iff.mpr member, alike⟩

/-- Rearranging changes nothing that is stated. -/
theorem Rearranged.statesSame {first second : List Export} (rearranged : Rearranged first second) :
    StatesSame first second := by
  obtain ⟨forth, back⟩ := rearranged.coveredBy
  exact ⟨fun _ => ⟨forth.modules, back.modules⟩, fun _ _ => ⟨forth.entries, back.entries⟩,
    fun _ _ => ⟨forth.assertions, back.assertions⟩⟩

/-- Coalescing is a normal form of exports with plain entries whose assert clauses agree. There is one
declaration for each module, in strictly ascending order, and its entries are the distinct ones given for
the module, strictly ascending too. Exports in another order, with entries in another order, come to the
same, and what has been coalesced stays as it is. -/
theorem coalesceExports_normal_form (exports : List Export) (plain : HasPlainEntries exports)
    (agree : AgreesOnAssertions exports) :
    ((coalesceExports exports).map (·.module)).Pairwise (· < ·) ∧
    (∀ module, module ∈ (coalesceExports exports).map (·.module) ↔
      module ∈ exports.map (·.module)) ∧
    (∀ merged ∈ coalesceExports exports,
      merged.entries.Pairwise (fun a b => ExportEntry.order a b = .lt) ∧
      (∀ entry, entry ∈ merged.entries ↔ ListsEntry exports merged.module entry) ∧
      ∀ kind, merged.assertion = some kind ↔ ListsAssertion exports merged.module kind) ∧
    (∀ others, Rearranged exports others → coalesceExports others = coalesceExports exports) ∧
    coalesceExports (coalesceExports exports) = coalesceExports exports := by
  refine ⟨?_, fun module => mem_modules_coalesceExports, fun merged member => ?_,
    fun others rearranged => ?_, ?_⟩
  · rw [map_module_coalesceExports]
    exact pairwise_distinctAscending _
  · rw [eq_mergeExports_of_mem member]
    refine ⟨pairwise_entries_mergeExports plain _, fun entry => mem_entries_mergeExports, fun kind => ?_⟩
    exact assertion_mergeExports_eq_some_iff agree
  · exact (rearranged.statesSame.coalesceExports_eq plain agree).symm
  · exact ((statesSame_coalesceExports agree).coalesceExports_eq plain agree).symm

/-- Three exports of two modules, one entry given twice, and the same in another order. -/
theorem coalesceExports_of_two_modules :
    let exports : List Export := [
      ⟨[⟨none, "b"⟩, ⟨none, "a"⟩], "./m", none⟩,
      ⟨[⟨some "default", "d"⟩], "./j.json", some "json"⟩,
      ⟨[⟨none, "A"⟩, ⟨none, "b"⟩], "./m", none⟩]
    let others : List Export := [
      ⟨[⟨none, "b"⟩, ⟨none, "A"⟩], "./m", none⟩,
      ⟨[⟨none, "a"⟩, ⟨none, "b"⟩], "./m", none⟩,
      ⟨[⟨some "default", "d"⟩], "./j.json", some "json"⟩]
    HasPlainEntries exports ∧ AgreesOnAssertions exports ∧ Rearranged exports others ∧
      (coalesceExports exports).map (·.module) = ["./j.json", "./m"] ∧
      coalesceExports others = coalesceExports exports ∧
      coalesceExports (coalesceExports exports) = coalesceExports exports := by
  intro exports others
  have plain : HasPlainEntries exports := by
    simp [HasPlainEntries, exports, ExportEntry.IsPlain]
  have agree : AgreesOnAssertions exports := by
    simp +contextual [AgreesOnAssertions, ListsAssertion, exports]
  have rearranged : Rearranged exports others := by
    refine ⟨[_, _, _], @List.perm_append_comm _ [_, _] [_], ?_⟩
    refine .cons ⟨rfl, rfl, .swap _ _ _⟩ (.cons ⟨rfl, rfl, .swap _ _ _⟩ (.cons ⟨rfl, rfl, .refl _⟩ .nil))
  obtain ⟨-, -, -, unmoved, again⟩ := coalesceExports_normal_form exports plain agree
  refine ⟨plain, agree, rearranged, ?_, unmoved others rearranged, again⟩
  rw [map_module_coalesceExports]
  apply (pairwise_distinctAscending _).eq_of_mem_iff (by decide)
  simp [mem_distinctAscending, exports, or_comm]

end BarrelSynthesis.Synthesis
