/-
# What the statements of a barrel export

The barrel of a folder starts from one export for every entity of its manifest. Coalescing brings those of
one module together, sorts their entries and drops an entry that equals the one before it. As the keys of
a manifest are distinct, no two of the entries are equal, so nothing is dropped: every key is exported by one
entry of one statement, and nothing else is. The modules come out strictly ascending, which makes it one
statement for each of them.

A barrel without statements is printed as the empty module, and every other one ends in a line break, so
the text alone tells whether anything is exported.
-/
import BarrelSynthesis.Proofs.Barrel.Calculation
import BarrelSynthesis.Proofs.Synthesis.Coalesce

namespace BarrelSynthesis

open Synthesis

/-! ## The empty module -/

/-- Only a module without statements is printed as the empty module. -/
theorem Synthesis.printModule_eq_emptyModule_iff {statements : List Synthesis.Statement} :
    printModule statements = emptyModule ↔ statements = [] := by
  constructor
  · intro same
    rcases List.eq_nil_or_concat statements with none | ⟨front, last, rfl⟩
    · exact none
    · -- The empty module ends in a semicolon, and the last statement in a line break.
      have ended := congrArg (fun text => text.toList.getLast?) same
      rw [List.concat_eq_append] at ended
      simp [printModule, emptyModule, String.join_append, String.toList_append] at ended
  · rintro rfl
    rfl

namespace Barrel

/-- The entry by which a barrel exports an entity, with the module it is taken from. -/
def givenBy (options : CompilerOptions) (entity : Entity) : String × ExportEntry :=
  (Specifier.origin "." entity options,
    ⟨if entity.isDefaultExport then some "default" else none, entity.identifier⟩)

theorem flatMap_given_exportOf (options : CompilerOptions) (entities : List Entity) :
    (entities.map (exportOf options)).flatMap Export.given = entities.map (givenBy options) := by
  rw [List.flatMap_map]
  exact List.map_eq_flatMap.symm

variable {options : CompilerOptions} {manifest : Manifest}

/-- The exports whose printed form is the barrel of a manifest. -/
def exports (options : CompilerOptions) (manifest : Manifest) : List Export :=
  coalesceExports (manifest.entities.map (exportOf options))

/-- A barrel exports each name once: they are the keys of its manifest. -/
theorem nodup_names_givenBy (options : CompilerOptions) (keyed : manifest.IsKeyed) :
    ((manifest.entities.map (givenBy options)).map (·.2.name)).Nodup := by
  rw [List.map_map]
  exact keyed.map_identifier ▸ manifest.nodup_keys

/-- So no entry is given twice. -/
theorem nodup_givenBy (options : CompilerOptions) (keyed : manifest.IsKeyed) :
    (manifest.entities.map (givenBy options)).Nodup :=
  (nodup_names_givenBy options keyed).of_map

/-- The statements of a barrel give the entries of the entities, rearranged. -/
theorem given_exports_perm (options : CompilerOptions) (keyed : manifest.IsKeyed) :
    ((exports options manifest).flatMap Export.given).Perm
      (manifest.entities.map (givenBy options)) := by
  have spelled := flatMap_given_exportOf options manifest.entities
  have distinct := nodup_givenBy options keyed
  rw [← spelled] at distinct ⊢
  exact given_coalesceExports_perm distinct

/-- Under the name of an entity, the statements of a barrel give the entry of this entity alone. -/
theorem filter_given_exports (keyed : manifest.IsKeyed) {key : String} {entity : Entity}
    (found : manifest.get? key = some entity) :
    ((exports options manifest).flatMap Export.given).filter (fun given => given.2.name = key) =
      [givenBy options entity] := by
  have perm := given_exports_perm options keyed
  have named : entity.identifier = key := keyed _ (Manifest.get?_eq_some_iff.mp found)
  rw [← List.perm_singleton, List.perm_ext_iff_of_nodup
    ((perm.symm.nodup (nodup_givenBy options keyed)).filter _) (List.nodup_singleton _)]
  intro given
  rw [List.mem_filter, perm.mem_iff, List.mem_map, List.mem_singleton, decide_eq_true_iff]
  constructor
  · rintro ⟨⟨other, member, rfl⟩, same⟩
    have under : manifest.get? key = some other := same ▸ keyed.get?_identifier member
    rw [Option.some.inj (under.symm.trans found)]
  · rintro rfl
    exact ⟨⟨entity, List.mem_map_of_mem (Manifest.get?_eq_some_iff.mp found), rfl⟩, named⟩

/-- The statements of a barrel name the modules of its entities, each in its place and once. -/
theorem map_module_exports (options : CompilerOptions) (manifest : Manifest) :
    (exports options manifest).map (·.module) =
      distinctAscending (manifest.entities.map fun entity => Specifier.origin "." entity options) := by
  rw [exports, map_module_coalesceExports, List.map_map]
  rfl

/-- The modules of the statements are the origins of the entities. -/
theorem mem_modules_exports_iff {module : String} :
    module ∈ (exports options manifest).map (·.module) ↔
      ∃ entity ∈ manifest.entities, Specifier.origin "." entity options = module := by
  rw [map_module_exports, mem_distinctAscending, List.mem_map]

/-- A barrel has no statements exactly when its manifest has no key. -/
theorem exports_eq_nil_iff : exports options manifest = [] ↔ manifest.keys = [] := by
  constructor
  · intro none
    rw [List.eq_nil_iff_forall_not_mem]
    intro key listed
    obtain ⟨entry, inside, -⟩ := List.mem_map.mp listed
    have module : Specifier.origin "." entry.2 options ∈
        (exports options manifest).map (·.module) :=
      mem_modules_exports_iff.mpr ⟨entry.2, List.mem_map_of_mem inside, rfl⟩
    rw [none] at module
    cases module
  · intro none
    have blank : manifest.entities = [] := by
      rw [Manifest.entities, List.map_eq_nil_iff]
      exact List.map_eq_nil_iff.mp none
    rw [← List.map_eq_nil_iff (f := (·.module)), List.eq_nil_iff_forall_not_mem]
    intro module listed
    obtain ⟨entity, inside, -⟩ := mem_modules_exports_iff.mp listed
    rw [blank] at inside
    cases inside

/-- The statements of the barrel of a folder export its manifest and nothing else. Every key is exported by
one entry of one statement, from the module of the file its entity comes from, and from the default export
of this module exactly when the entity is one. There is one statement for each of these modules, in
strictly ascending order. The text is the empty module exactly when there is no key. -/
theorem statements_export_manifest (host : FileSystem) (options : CompilerOptions) (folder : Path) :
    let barrel := (calculate host options folder).barrel
    ∃ exports : List Export,
      barrel.statements = exports.map .exportFrom ∧
      (∀ key entity, barrel.manifest.get? key = some entity →
        (exports.flatMap Export.given).filter (fun given => given.2.name = key) =
          [(Specifier.origin "." entity options,
            ⟨if entity.isDefaultExport then some "default" else none, key⟩)]) ∧
      (∀ given ∈ exports.flatMap Export.given, given.2.name ∈ barrel.manifest.keys) ∧
      (exports.map (·.module)).Pairwise (· < ·) ∧
      (∀ module, module ∈ exports.map (·.module) ↔
        ∃ entity ∈ barrel.manifest.entities, Specifier.origin "." entity options = module) ∧
      (barrel.text = emptyModule ↔ barrel.manifest.keys = []) := by
  intro barrel
  have keyed : barrel.manifest.IsKeyed := isKeyed_calculate host options folder
  refine ⟨exports options barrel.manifest, rfl, ?_, ?_, ?_, fun module => mem_modules_exports_iff, ?_⟩
  · intro key entity found
    have named : entity.identifier = key := keyed _ (Manifest.get?_eq_some_iff.mp found)
    rw [filter_given_exports keyed found, givenBy, named]
  · intro given member
    obtain ⟨entity, listed, rfl⟩ := List.mem_map.mp ((given_exports_perm options keyed).mem_iff.mp member)
    rw [← keyed.map_identifier]
    exact List.mem_map_of_mem listed
  · rw [map_module_exports]
    exact pairwise_distinctAscending _
  · have text : barrel.text = printModule ((exports options barrel.manifest).map .exportFrom) := rfl
    rw [text, printModule_eq_emptyModule_iff, List.map_eq_nil_iff, exports_eq_nil_iff]

end Barrel

end BarrelSynthesis
