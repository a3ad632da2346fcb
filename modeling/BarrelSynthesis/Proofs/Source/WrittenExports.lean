/-
# Exports as they are written

An export at the top level of a module is written in one of four ways: on a declaration, as an entry of an
export list, by default, or with a star. How it is written decides under which public name it is
extracted, if any, whether it counts as the default export, and whether it is a type. The extraction
itself knows occurrences only, in which this is settled already.

An entity stands for all exports that are written under its public name. It takes its place, its default
flag and its span from the first of them, and is a type if each of them is one. An export without a public
name is warned about at its place.
-/
import BarrelSynthesis.Proofs.Barrel.Manifest
import BarrelSynthesis.Proofs.Synthesis.Coalesce
import BarrelSynthesis.Source.Exports

namespace BarrelSynthesis

open Source

/-- An export as it is written at the top level of a module. -/
inductive WrittenExport
  /-- A name that an exported declaration introduces. -/
  | declared (declaration : Declaration) (name : DeclaredName)
  /-- An entry of an export list, with the specifier of the module the list names from, if it does. -/
  | listed (specifier : ExportSpecifier) (source : Option String) (typeOnly : Bool)
  | byDefault (value : DefaultExport) (span : Span)
  /-- Everything another module exports, under one name or as it is. -/
  | star (exportedAs : Option String) (source : String) (typeOnly : Bool) (span : Span)
  deriving Repr, DecidableEq

/-- The exports that a top-level statement writes. -/
def Source.Statement.writtenExports : Statement → List WrittenExport
  | .exportDeclaration exported => exported.declaredNames.map (.declared exported)
  | .exportList specifiers source typeOnly =>
    specifiers.map fun specifier => .listed specifier source typeOnly
  | .exportDefault value span => [.byDefault value span]
  | .exportAll exportedAs source typeOnly span => [.star exportedAs source typeOnly span]
  | _ => []

/-- The exports of a module in the order in which they are written. -/
def Source.Module.writtenExports (module : Module) : List WrittenExport :=
  module.statements.flatMap Statement.writtenExports

/-- The name of what is exported by default. -/
def Source.DefaultExport.name? : DefaultExport → Option String
  | .function name => name
  | .class name => name
  | .interface name => some name
  | .reference name => some name
  | .expression => none

namespace WrittenExport

/-- The name under which an export is extracted. What is exported by default keeps its local name. -/
def publicName? : WrittenExport → Option String
  | declared _ name => some name.name
  | listed specifier _ _ =>
    if specifier.exported = "default" then
      if specifier.localName = "default" then none else some specifier.localName
    else some specifier.exported
  | byDefault value _ => value.name?
  | star exportedAs _ _ _ => exportedAs

/-- Whether an export is extracted as the default export. -/
def isDefault : WrittenExport → Bool
  | declared _ _ => false
  | listed specifier _ _ => specifier.exported = "default"
  | byDefault _ _ => true
  | star _ _ _ _ => false

/-- The place of an export. -/
def span : WrittenExport → Span
  | declared _ name => name.span
  | listed specifier _ _ => specifier.span
  | byDefault _ span => span
  | star _ _ _ span => span

/-- Whether an export is extracted as a type. -/
def isType (module : Module) : WrittenExport → Bool
  | declared _ name => name.isType
  | listed specifier source typeOnly =>
    typeOnly || specifier.typeOnly || (!source.isSome && module.isTypeName specifier.localName)
  | byDefault (.interface _) _ => true
  | byDefault (.reference name) _ => module.isTypeName name
  | byDefault _ _ => false
  | star _ _ typeOnly _ => typeOnly

/-- What the extraction sees of an export. -/
def occurrence (module : Module) (written : WrittenExport) : ExportOccurrence :=
  match written.publicName? with
  | some name => .named name written.span written.isDefault (written.isType module)
  | none => .anonymous written.span

end WrittenExport

/-- The extraction sees the exports that a statement writes, in their order. -/
theorem ExportOccurrence.ofStatement_eq (module : Module) (statement : Statement) :
    ofStatement module statement =
      statement.writtenExports.map (WrittenExport.occurrence module) := by
  cases statement with
  | exportDeclaration declaration =>
      rw [ofStatement, Statement.writtenExports, List.map_map]
      rfl
  | exportList specifiers source typeOnly =>
      rw [ofStatement, Statement.writtenExports, List.map_map]
      refine List.map_congr_left fun specifier _ => ?_
      simp only [ofSpecifier, Function.comp_apply, WrittenExport.occurrence,
        WrittenExport.publicName?, WrittenExport.isDefault, WrittenExport.isType,
        WrittenExport.span]
      by_cases toDefault : specifier.exported = "default"
      · by_cases fromDefault : specifier.localName = "default"
        · simp [toDefault, fromDefault]
        · simp [toDefault, fromDefault]
      · simp [toDefault]
  | exportDefault value span =>
      rcases value with (_ | name) | (_ | name) | name | name | _ <;> rfl
  | exportAll exportedAs source typeOnly span => cases exportedAs <;> rfl
  | _ => rfl

/-- A statement that exports something makes a module of its text. -/
theorem Source.Statement.isModuleSyntax_of_mem_writtenExports {statement : Statement}
    {written : WrittenExport} (member : written ∈ statement.writtenExports) :
    statement.isModuleSyntax = true := by
  cases statement with
  | exportDeclaration => rfl
  | exportList => rfl
  | exportDefault => rfl
  | exportAll => rfl
  | _ => cases member

/-- The extraction sees the exports of a module as they are written, each in its place. -/
theorem Source.Module.exportOccurrences_eq (module : Module) :
    module.exportOccurrences = module.writtenExports.map (WrittenExport.occurrence module) := by
  have all : module.statements.flatMap (ExportOccurrence.ofStatement module) =
      module.writtenExports.map (WrittenExport.occurrence module) := by
    rw [writtenExports, List.map_flatMap]
    exact List.flatMap_congr fun statement _ => ExportOccurrence.ofStatement_eq module statement
  rw [exportOccurrences, all]
  by_cases isModule : module.statements.any Statement.isModuleSyntax = true
  · rw [if_pos isModule]
  · rw [if_neg isModule, eq_comm, List.map_eq_nil_iff, List.eq_nil_iff_forall_not_mem]
    intro written member
    obtain ⟨statement, listed, inside⟩ := List.mem_flatMap.mp member
    exact isModule (List.any_eq_true.mpr
      ⟨statement, listed, Statement.isModuleSyntax_of_mem_writtenExports inside⟩)

/-! ## Merging the occurrences of a name -/

namespace Entity

/-- The entity that several entities of one name amount to. -/
def merged? : List Entity → Option Entity
  | [] => none
  | first :: rest =>
    some { first with isTypeExport := first.isTypeExport && rest.all (·.isTypeExport) }

/-- One more entity of a name leaves the first in place, as a type if both are. -/
theorem merged?_append_singleton (entities : List Entity) (last : Entity) :
    merged? (entities ++ [last]) =
      some (match merged? entities with
        | some entity => { entity with isTypeExport := entity.isTypeExport && last.isTypeExport }
        | none => last) := by
  cases entities with
  | nil => simp [merged?]
  | cons first rest => simp [merged?, List.all_append, Bool.and_assoc]

/-- Adding an entity merges it with the one of its name, or puts it behind the others. -/
theorem find?_addTo (entity : Entity) (entities : List Entity) (name : String) :
    (entity.addTo entities).find? (·.identifier = name) =
      if entity.identifier = name then
        some (match entities.find? (·.identifier = name) with
          | some other => { other with isTypeExport := other.isTypeExport && entity.isTypeExport }
          | none => entity)
      else entities.find? (·.identifier = name) := by
  induction entities with
  | nil => by_cases same : entity.identifier = name <;> simp [addTo, same]
  | cons other rest ih =>
      rw [addTo]
      by_cases here : other.identifier = entity.identifier
      · by_cases same : entity.identifier = name <;> simp [here, same]
      · by_cases found : other.identifier = name
        · have differs : entity.identifier ≠ name := fun same => here (found.trans same.symm)
          rw [if_neg here, if_neg differs, List.find?_cons_of_pos (by simpa using found),
            List.find?_cons_of_pos (by simpa using found)]
        · rw [if_neg here, List.find?_cons_of_neg (by simpa using found), ih,
            List.find?_cons_of_neg (by simpa using found)]

/-- Under a name stands what all entities of the name amount to. -/
theorem find?_foldl_addTo (entities : List Entity) (name : String) :
    (entities.foldl (fun table entity => entity.addTo table) []).find? (·.identifier = name) =
      merged? (entities.filter (·.identifier = name)) := by
  induction entities using List.reverseRecOn with
  | nil => rfl
  | append_singleton front last ih =>
      rw [List.foldl_append, List.foldl_cons, List.foldl_nil, find?_addTo, List.filter_append, ih]
      by_cases same : last.identifier = name
      · rw [if_pos same, List.filter_cons_of_pos (by simpa using same), List.filter_nil,
          merged?_append_singleton]
      · rw [if_neg same, List.filter_cons_of_neg (by simpa using same), List.filter_nil,
          List.append_nil]

/-- Merging an occurrence of a name adds the name behind the others, unless it is there. -/
theorem map_identifier_addTo (entity : Entity) (entities : List Entity) :
    (entity.addTo entities).map (·.identifier) =
      if entity.identifier ∈ entities.map (·.identifier) then entities.map (·.identifier)
      else entities.map (·.identifier) ++ [entity.identifier] := by
  induction entities with
  | nil => rfl
  | cons other rest ih =>
      rw [addTo]
      by_cases same : other.identifier = entity.identifier
      · simp [same]
      · rw [if_neg same, List.map_cons, ih, List.map_cons]
        by_cases known : entity.identifier ∈ rest.map (·.identifier)
        · rw [if_pos known, if_pos (List.mem_cons_of_mem _ known)]
        · rw [if_neg known, if_neg, List.cons_append]
          rw [List.mem_cons, not_or]
          exact ⟨Ne.symm same, known⟩

/-- Of entities with distinct names, the one that a name finds is the one that has it. -/
theorem mem_iff_find? {entities : List Entity} (distinct : (entities.map (·.identifier)).Nodup)
    {entity : Entity} :
    entity ∈ entities ↔ entities.find? (·.identifier = entity.identifier) = some entity := by
  refine ⟨fun member => ?_, List.mem_of_find?_eq_some⟩
  cases found : entities.find? (·.identifier = entity.identifier) with
  | none =>
      have absent := List.find?_eq_none.mp found entity member
      exact absurd (decide_eq_true rfl) absent
  | some other =>
      have same : other.identifier = entity.identifier := by simpa using List.find?_some found
      rw [List.inj_on_of_nodup_map distinct (List.mem_of_find?_eq_some found) member same]

end Entity

namespace ModuleExports

variable (path : Path) (extension source : String)

/-- The names that the occurrences in a file amount to, each where it comes first. -/
theorem map_identifier_ofOccurrences (occurrences : List ExportOccurrence) :
    (ofOccurrences path extension source occurrences).entities.map (·.identifier) =
      ((occurrences.filterMap (entityOf? path extension)).map (·.identifier)).eraseDups :=
  keys_foldl_eq_eraseDups (fun table entity => Entity.map_identifier_addTo entity table) rfl _

/-- The names that the occurrences in a file amount to are distinct. -/
theorem nodup_ofOccurrences (occurrences : List ExportOccurrence) :
    ((ofOccurrences path extension source occurrences).entities.map (·.identifier)).Nodup := by
  rw [map_identifier_ofOccurrences]
  exact Synthesis.nodup_eraseDups _

/-! ## What a file is found to export -/

/-- What is extracted from a parsed file. -/
def ofModule (module : Module) : ModuleExports :=
  ofOccurrences path extension source module.exportOccurrences

variable {path extension source}

/-- From code that is parsed the exports of its module are taken. -/
theorem ofSource?_of_parses {module : Module} (known : Extension.ofPath? path = some extension)
    (code : Extension.isCode extension = true)
    (parses : Module.parse? (Language.ofPath path) source = some module) :
    ofSource? path source = some (ofModule path extension source module) := by
  simp only [ofSource?, known, code, if_true, parses]
  rfl

/-- The entity that one export alone would give under a name. -/
def entityNamed (path : Path) (extension : String) (module : Module) (name : String)
    (written : WrittenExport) : Entity :=
  ⟨name, Extension.stem path, extension, written.isDefault, written.isType module, some written.span⟩

/-- An export that has a name gives the entity of that name. -/
theorem entityOf?_occurrence (module : Module) (written : WrittenExport) :
    entityOf? path extension (written.occurrence module) =
      written.publicName?.map fun name => entityNamed path extension module name written := by
  rw [WrittenExport.occurrence]
  cases written.publicName? <;> rfl

/-- One without a name is warned about instead. -/
theorem warningOf?_occurrence (module : Module) (written : WrittenExport) :
    warningOf? path source (written.occurrence module) =
      if written.publicName?.isNone then some (.missingIdentifier path source written.span)
      else none := by
  rw [WrittenExport.occurrence]
  cases written.publicName? <;> rfl

/-- The entities of one name come from the exports written under it. -/
theorem filter_entities (module : Module) (name : String) (exports : List WrittenExport) :
    ((exports.map (WrittenExport.occurrence module)).filterMap (entityOf? path extension)).filter
        (·.identifier = name) =
      (exports.filter (·.publicName? = some name)).map
        (entityNamed path extension module name) := by
  induction exports with
  | nil => rfl
  | cons written rest ih =>
      rw [List.map_cons, List.filterMap_cons, entityOf?_occurrence, List.filter_cons]
      cases named : written.publicName? with
      | none => simpa using ih
      | some other =>
          rw [Option.map_some, List.filter_cons, ih]
          by_cases same : other = name
          · subst same
            simp [entityNamed]
          · simp [entityNamed, same]

/-- The public names of a module come out in the order in which they are first written. -/
theorem map_identifier_ofModule (module : Module) :
    (ofModule path extension source module).entities.map (·.identifier) =
      (module.writtenExports.filterMap (·.publicName?)).eraseDups := by
  rw [ofModule, map_identifier_ofOccurrences, module.exportOccurrences_eq, List.filterMap_map,
    List.map_filterMap]
  congr 1
  refine List.filterMap_congr fun written _ => ?_
  rw [Function.comp_apply, entityOf?_occurrence, Option.map_map]
  exact Option.map_id'

/-- The entities of a module: each stands for the exports of its name, with the default flag and the place of
the first one, and is a type if all of them are. -/
theorem mem_ofModule_iff {module : Module} {entity : Entity} :
    entity ∈ (ofModule path extension source module).entities ↔
      ∃ first rest,
        module.writtenExports.filter (·.publicName? = some entity.identifier) = first :: rest ∧
        entity = { entityNamed path extension module entity.identifier first with
          isTypeExport := (first :: rest).all (·.isType module) } := by
  rw [ofModule, Entity.mem_iff_find? (nodup_ofOccurrences ..), ofOccurrences, Entity.find?_foldl_addTo,
    module.exportOccurrences_eq, filter_entities]
  cases module.writtenExports.filter (·.publicName? = some entity.identifier) with
  | nil => simp [Entity.merged?]
  | cons first rest =>
      rw [List.map_cons, Entity.merged?, List.all_map, Option.some.injEq, eq_comm]
      constructor
      · intro same
        exact ⟨first, rest, rfl, same⟩
      · rintro ⟨_, _, same, meaning⟩
        obtain ⟨rfl, rfl⟩ := List.cons.inj same
        exact meaning

/-- An entity has the default flag and the place of the export that is written first under its name. -/
theorem exists_first_of_mem {module : Module} {entity : Entity}
    (member : entity ∈ (ofModule path extension source module).entities) :
    ∃ first, module.writtenExports.find? (·.publicName? = some entity.identifier) = some first ∧
      entity.isDefaultExport = first.isDefault ∧ entity.span = some first.span := by
  obtain ⟨first, rest, under, meaning⟩ := mem_ofModule_iff.mp member
  refine ⟨first, ?_, ?_, ?_⟩
  · rw [← List.head?_filter, under, List.head?_cons]
  · rw [meaning]
    rfl
  · rw [meaning]
    rfl

/-- Every name that an export is written under has an entity. -/
theorem exists_mem_of_publicName (path : Path) (extension source : String) {module : Module}
    {written : WrittenExport} {name : String}
    (listed : written ∈ module.writtenExports) (named : written.publicName? = some name) :
    ∃ entity ∈ (ofModule path extension source module).entities, entity.identifier = name := by
  have all : name ∈ (ofModule path extension source module).entities.map (·.identifier) := by
    rw [map_identifier_ofModule, List.mem_eraseDups, List.mem_filterMap]
    exact ⟨written, listed, named⟩
  exact List.mem_map.mp all

/-- The exported names, each with whether it is exported as a type. -/
def typedNames (exports : ModuleExports) : List (String × Bool) :=
  exports.entities.map fun entity => (entity.identifier, entity.isTypeExport)

/-- No name is told twice. -/
theorem nodup_typedNames (path : Path) (extension source : String) (module : Module) :
    (ofModule path extension source module).typedNames.Nodup := by
  have names : ((ofModule path extension source module).typedNames.map (·.1)).Nodup := by
    rw [typedNames, List.map_map]
    exact nodup_ofOccurrences path extension source _
  exact names.of_map

/-- A name is exported if an export is written under it, and as a type if all those exports are types. -/
theorem mem_typedNames_iff {module : Module} {name : String} {isType : Bool} :
    (name, isType) ∈ (ofModule path extension source module).typedNames ↔
      (∃ written ∈ module.writtenExports, written.publicName? = some name) ∧
        (isType = true ↔ ∀ written ∈ module.writtenExports,
          written.publicName? = some name → written.isType module = true) := by
  have all : (module.writtenExports.filter (·.publicName? = some name)).all (·.isType module) = true ↔
      ∀ written ∈ module.writtenExports,
        written.publicName? = some name → written.isType module = true := by
    simp only [List.all_eq_true, List.mem_filter, decide_eq_true_eq, and_imp]
  rw [← all, typedNames, List.mem_map]
  constructor
  · rintro ⟨entity, member, same⟩
    obtain ⟨rfl, rfl⟩ := Prod.mk.inj same
    obtain ⟨first, rest, under, meaning⟩ := mem_ofModule_iff.mp member
    have here : first ∈ module.writtenExports.filter (·.publicName? = some entity.identifier) :=
      under ▸ List.mem_cons_self
    obtain ⟨listed, named⟩ := List.mem_filter.mp here
    refine ⟨⟨first, listed, of_decide_eq_true named⟩, ?_⟩
    rw [under, meaning]
  · rintro ⟨⟨written, listed, named⟩, meaning⟩
    have here : written ∈ module.writtenExports.filter (·.publicName? = some name) :=
      List.mem_filter.mpr ⟨listed, decide_eq_true named⟩
    obtain ⟨first, rest, under⟩ := List.exists_cons_of_ne_nil (List.ne_nil_of_mem here)
    refine ⟨{ entityNamed path extension module name first with
      isTypeExport := (first :: rest).all (·.isType module) }, ?_, ?_⟩
    · exact mem_ofModule_iff.mpr ⟨first, rest, under, rfl⟩
    · rw [under] at meaning
      exact congrArg (Prod.mk name) (Bool.eq_iff_iff.mpr meaning).symm

/-- The exports without a public name are warned about, each in its place. -/
theorem diagnostics_ofModule (module : Module) :
    (ofModule path extension source module).diagnostics =
      (module.writtenExports.filter (·.publicName?.isNone)).map fun written =>
        .missingIdentifier path source written.span := by
  have found : (ofModule path extension source module).diagnostics =
      (module.writtenExports.map (WrittenExport.occurrence module)).filterMap
        (warningOf? path source) := by
    rw [← module.exportOccurrences_eq]
    rfl
  rw [found]
  induction module.writtenExports with
  | nil => rfl
  | cons written rest ih =>
      rw [List.map_cons, List.filterMap_cons, warningOf?_occurrence, ih, List.filter_cons]
      by_cases nameless : written.publicName?.isNone = true
      · rw [if_pos nameless, if_pos nameless, List.map_cons]
      · rw [if_neg nameless, if_neg nameless]

end ModuleExports

end BarrelSynthesis
