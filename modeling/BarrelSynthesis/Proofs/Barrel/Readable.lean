/-
# Which barrels can be read

The text of a barrel is read back as its statements if names are what they seem to be: every exported name is
an identifier name, no file name holds a line break, and no kind is asserted. Names are printed as they are, also
those that a file can only export as string literals, and of the characters of a file name only quotes and
backslashes are escaped. So one such name is enough to make the barrel of its folder another module, or none. The
clause by which the kind of a data file is asserted, where the options ask for one, is no part of the grammar.
-/
import BarrelSynthesis.Disk.Flat
import BarrelSynthesis.Proofs.Barrel.Listing
import BarrelSynthesis.Proofs.Barrel.Provenance
import BarrelSynthesis.Proofs.Barrel.Statements
import BarrelSynthesis.Proofs.Synthesis.ReadingPrinted

namespace BarrelSynthesis

open Synthesis Synthesis.Reading Text

/-! ## The exports of a manifest -/

namespace Barrel

variable {options : CompilerOptions} {manifest : Manifest}

/-- A barrel exports no name twice. -/
theorem nodup_exportedNames (options : CompilerOptions) (keyed : manifest.IsKeyed) :
    (exportedNames (exports options manifest)).Nodup := by
  have spelled : exportedNames (exports options manifest) =
      ((exports options manifest).flatMap Export.given).map (·.2.name) := by
    rw [exportedNames, List.map_flatMap]
    exact List.flatMap_congr fun declaration _ => by rw [Export.given, List.map_map]; rfl
  rw [spelled]
  exact ((given_exports_perm options keyed).map _).symm.nodup (nodup_names_givenBy options keyed)

/-- The names in the statements of a barrel are those of the entities, and the name of default exports. -/
theorem named_exports_iff (keyed : manifest.IsKeyed) :
    (∀ declaration ∈ exports options manifest, ∀ name ∈ (Statement.exportFrom declaration).names,
        IsIdentifierName name) ↔
      ∀ entity ∈ manifest.entities, IsIdentifierName entity.identifier := by
  have perm := given_exports_perm options keyed
  constructor
  · intro named entity listed
    have given := perm.symm.mem_iff.mp (List.mem_map_of_mem (f := givenBy options) listed)
    obtain ⟨declaration, member, inside⟩ := List.mem_flatMap.mp given
    obtain ⟨entry, entered, same⟩ := List.mem_map.mp inside
    have identifier : entry.name = entity.identifier := congrArg (·.2.name) same
    rw [← identifier]
    exact named declaration member _ (List.mem_flatMap.mpr ⟨entry, entered, by simp [ExportEntry.names]⟩)
  · intro named declaration member name listed
    obtain ⟨entry, entered, part⟩ := List.mem_flatMap.mp listed
    have given := perm.mem_iff.mp
      (List.mem_flatMap.mpr ⟨declaration, member, List.mem_map_of_mem entered⟩)
    obtain ⟨entity, inside, same⟩ := List.mem_map.mp given
    have spelled : (⟨if entity.isDefaultExport then some "default" else none, entity.identifier⟩ :
        ExportEntry) = entry := congrArg (·.2) same
    have isName : IsIdentifierName "default" := by decide
    rw [← spelled] at part
    rcases List.mem_append.mp part with property | own
    · split at property
      · rwa [List.mem_singleton.mp property]
      · cases property
    · rw [List.mem_singleton.mp own]
      exact named entity inside

/-- The module of an entity stands in one line if the name of its file does. -/
theorem oneLine_origin_iff (options : CompilerOptions) (entity : Entity) :
    OneLine (Specifier.origin "." entity options).toList ↔ OneLine entity.fileName.toList := by
  have behind {front back : List Char} (clean : OneLine back) :
      OneLine (front ++ back) ↔ OneLine front := by
    simp only [OneLine, List.mem_append, not_or, clean.1, clean.2, not_false_iff, and_true]
  have before (text : List Char) : OneLine ('.' :: '/' :: text) ↔ OneLine text := by
    simp [OneLine]
  have outputs : ∀ extension ∈ Extension.emitted, OneLine extension.toList := by
    unfold OneLine
    decide
  have origin : (Specifier.origin "." entity options).toList =
      '.' :: '/' :: (Specifier.originName entity options).toList := by
    have here : Specifier.withoutTrailingSeparators "." = "." := by decide
    simp [Specifier.origin, here]
  rw [origin, before, Specifier.originName]
  split
  · rfl
  · next code =>
      split
      · rw [String.toList_append]
        have isCode : Extension.isCode entity.extension = true := by
          simpa [Entity.isExternal] using code
        exact behind (outputs _ (Extension.output_mem_emitted options isCode))
      · rfl

theorem oneLine_exports_iff :
    (∀ declaration ∈ exports options manifest, OneLine declaration.module.toList) ↔
      ∀ entity ∈ manifest.entities, OneLine entity.fileName.toList := by
  constructor
  · intro clean entity listed
    have named : Specifier.origin "." entity options ∈
        (exports options manifest).map (·.module) :=
      mem_modules_exports_iff.mpr ⟨entity, listed, rfl⟩
    obtain ⟨declaration, member, module⟩ := List.mem_map.mp named
    exact (oneLine_origin_iff options entity).mp (module ▸ clean declaration member)
  · intro clean declaration member
    obtain ⟨entity, listed, module⟩ := mem_modules_exports_iff.mp (List.mem_map_of_mem member)
    exact module ▸ (oneLine_origin_iff options entity).mpr (clean entity listed)

/-- The kinds that a barrel asserts are those of its entities. -/
theorem exists_assertionOf_of_mem_exports {declaration : Export}
    (member : declaration ∈ exports options manifest) {kind : String}
    (asserted : declaration.assertion = some kind) :
    ∃ entity ∈ manifest.entities, Specifier.assertionOf entity options = some kind := by
  obtain ⟨module, -, rfl⟩ := List.mem_map.mp member
  obtain ⟨given, kept, states⟩ := List.exists_of_findSome?_eq_some asserted
  obtain ⟨entity, listed, rfl⟩ := List.mem_map.mp (List.mem_filter.mp kept).1
  exact ⟨entity, listed, states⟩

/-- A barrel asserts no kind when it has none of an entity to assert. -/
theorem plain_exports_iff :
    (∀ declaration ∈ exports options manifest, declaration.assertion = none) ↔
      ∀ entity ∈ manifest.entities, Specifier.assertionOf entity options = none := by
  constructor
  · intro plain entity listed
    have named : Specifier.origin "." entity options ∈ (exports options manifest).map (·.module) :=
      mem_modules_exports_iff.mpr ⟨entity, listed, rfl⟩
    obtain ⟨declaration, member, module⟩ := List.mem_map.mp named
    obtain ⟨_, -, rfl⟩ := List.mem_map.mp member
    -- The export of the entity is one of those that were merged, and none of them states a kind.
    have merged := List.findSome?_eq_none_iff.mp (plain _ member)
    exact merged (exportOf options entity)
      (List.mem_filter.mpr ⟨List.mem_map_of_mem listed, decide_eq_true module.symm⟩)
  · intro plain declaration member
    by_contra asserted
    obtain ⟨kind, states⟩ := Option.ne_none_iff_exists'.mp asserted
    obtain ⟨entity, listed, of⟩ := exists_assertionOf_of_mem_exports member states
    rw [plain entity listed] at of
    cases of

/-- Only data files are asserted to be of a kind. -/
theorem kind_of_assertionOf {host : FileSystem} {folder : Path} {entity : Entity}
    (listed : entity ∈ (calculate host options folder).barrel.manifest.entities) {kind : String}
    (asserted : Specifier.assertionOf entity options = some kind) : kind = "json" := by
  obtain ⟨before, file, after, files, inside, -⟩ :=
    exists_file_of_get?_calculate (mem_entities_calculate_iff.mp listed)
  have member : file ∈ Folder.files host options folder := by simp [files]
  obtain ⟨name, extension, -, named, known, supported⟩ := Folder.exists_name_of_mem_files member
  obtain ⟨ending, -⟩ := Contribution.origin_of_mem_entitiesOf named known inside
  rw [Specifier.assertionOf] at asserted
  obtain ⟨external, states⟩ := Option.ite_none_right_eq_some.mp asserted
  have data : Extension.isCode extension = false := by
    rw [Bool.and_eq_true, Entity.isExternal, ending, Bool.not_eq_true'] at external
    exact external.1
  rw [ending, Extension.eq_json_of_mem_supported supported data] at states
  exact (Option.some.inj states).symm.trans (by decide)

/-- The text of a barrel is a module that is read as its statements exactly when every exported name is an
identifier name, no name of an exporting file holds a raw line break, and no kind is asserted of a file. -/
theorem text_read_as_statements_iff (host : FileSystem) (options : CompilerOptions) (folder : Path) :
    let barrel := (calculate host options folder).barrel
    (module? barrel.text).map (·.map Statement.exportFrom) = some barrel.statements ↔
      ∀ entity ∈ barrel.manifest.entities, IsIdentifierName entity.identifier ∧
        ('\n' ∉ entity.fileName.toList ∧ '\r' ∉ entity.fileName.toList) ∧
        Specifier.assertionOf entity options = none := by
  intro barrel
  have keyed : barrel.manifest.IsKeyed := isKeyed_calculate host options folder
  have quoted : ∀ declaration ∈ exports options barrel.manifest, ∀ kind ∈ declaration.assertion,
      StandsInQuotes kind := by
    intro declaration member kind asserts
    obtain ⟨entity, listed, of⟩ := exists_assertionOf_of_mem_exports member asserts
    obtain rfl := kind_of_assertionOf listed of
    exact ⟨by decide, by decide, by decide⟩
  have distinct : Function.Injective (List.map Statement.exportFrom) :=
    List.map_injective_iff.mpr fun _ _ => Statement.exportFrom.inj
  have read : (module? barrel.text).map (·.map Statement.exportFrom) = some barrel.statements ↔
      module? (printModule ((exports options barrel.manifest).map .exportFrom)) =
        some (exports options barrel.manifest) :=
    (Option.map_injective distinct).eq_iff (b := some (exports options barrel.manifest))
  rw [read, module?_printModule_iff (nodup_exportedNames options keyed) quoted, forall₂_and,
    forall₂_and, forall₂_and, forall₂_and, named_exports_iff keyed, oneLine_exports_iff,
    plain_exports_iff]
  rfl

/-- A file whose name holds a quote and a backslash: its barrel is read back. -/
theorem text_of_quoted_file_name_is_read :
    let files : Disk := .ofList [(⟨"c/a\"\\.ts"⟩, "export default class v \x7b\x7d")] []
    let barrel := (calculate files.fileSystem {} ⟨"c"⟩).barrel
    barrel.statements = [.exportFrom ⟨[⟨some "default", "v"⟩], "./a\"\\", none⟩] ∧
      (module? barrel.text).map (·.map Statement.exportFrom) = some barrel.statements := by
  intro files barrel
  have read := (text_read_as_statements_iff files.fileSystem {} ⟨"c"⟩).mpr (by decide +kernel)
  exact ⟨by decide +kernel, read⟩

/-- An export that is called by a string literal: its name loses its quotes, and the barrel is no module. -/
theorem text_of_string_literal_name_is_no_module :
    let files : Disk := .ofList [(⟨"c/a.ts"⟩, "const v = 1; export \x7b v as 'a-b' \x7d")] []
    let barrel := (calculate files.fileSystem {} ⟨"c"⟩).barrel
    barrel.statements = [.exportFrom ⟨[⟨none, "a-b"⟩], "./a", none⟩] ∧
      barrel.text = "export \x7b a-b \x7d from \"./a\";\n" ∧ module? barrel.text = none := by
  decide +kernel

end Barrel

end BarrelSynthesis
