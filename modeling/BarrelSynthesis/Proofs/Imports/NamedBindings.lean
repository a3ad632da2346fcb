/-
# Named imports bind what the barrel gives

A barrel and a redirected import reach the same symbols on two ways. The barrel is printed from export
statements that were coalesced from one export per entity; the import of a barrel is replaced by imports
that were coalesced from one direct import per binding. Both ways name an entity and its origin by the
same two rules, `Entity.exportedName` and `Specifier.originName`, and coalescing keeps the meaning of
either list. A named import in a TypeScript file therefore binds exactly what the statements of the
calculated barrel give, and as a type exactly where the import says so.

Default names in the clause of an import bind nothing after redirecting; assert clauses are not part of
the meaning that is compared here.
-/
import BarrelSynthesis.Disk.Flat
import BarrelSynthesis.Imports.Redirection
import BarrelSynthesis.Proofs.Barrel.Calculation
import BarrelSynthesis.Proofs.Synthesis.Coalesce

namespace BarrelSynthesis

open Source Synthesis

/-- The name by which the file of an entity exports it. -/
def Entity.exportedName (entity : Entity) : String :=
  if entity.isDefaultExport then "default" else entity.identifier

/-- The statements of a barrel export a name, taken from a name of a module. -/
def Barrel.Gives (barrel : Barrel) (name origin module : String) : Prop :=
  ∃ declaration, Synthesis.Statement.exportFrom declaration ∈ barrel.statements ∧
    declaration.module = module ∧ declaration.Gives name origin

/-- Seen from its own folder, a file is reached by its name behind `./`. -/
theorem Specifier.origin_here (entity : Entity) (options : CompilerOptions) :
    Specifier.origin "." entity options = "./" ++ Specifier.originName entity options := rfl

namespace Barrel

/-- An entity is given under its identifier, taken from its exported name. -/
theorem exportOf_gives_iff {options : CompilerOptions} {entity : Entity} {name origin : String} :
    (exportOf options entity).Gives name origin ↔
      entity.identifier = name ∧ entity.exportedName = origin := by
  simp only [Export.Gives, exportOf, List.mem_singleton, exists_eq_left, ExportEntry.origin,
    Entity.exportedName]
  cases entity.isDefaultExport <;> simp

/-- What the barrel of a manifest gives: every entity under its own name, from the module that holds
it. -/
theorem ofManifest_gives_iff {options : CompilerOptions} {manifest : Manifest}
    {name origin module : String} :
    (ofManifest options manifest).Gives name origin module ↔
      ∃ entity ∈ manifest.entities, entity.identifier = name ∧ entity.exportedName = origin ∧
        Specifier.origin "." entity options = module := by
  have printed : (ofManifest options manifest).Gives name origin module ↔
      ExportsGive (coalesceExports (manifest.entities.map (exportOf options))) name origin
        module := by
    simp only [Gives, ofManifest, ExportsGive, List.mem_map, Statement.exportFrom.injEq,
      exists_eq_right]
  rw [printed, exportsGive_coalesceExports]
  constructor
  · rintro ⟨declaration, member, same, gives⟩
    obtain ⟨entity, listed, rfl⟩ := List.mem_map.mp member
    obtain ⟨named, exported⟩ := exportOf_gives_iff.mp gives
    exact ⟨entity, listed, named, exported, same⟩
  · rintro ⟨entity, listed, named, exported, same⟩
    exact ⟨exportOf options entity, List.mem_map_of_mem listed, same,
      exportOf_gives_iff.mpr ⟨named, exported⟩⟩

end Barrel

namespace Redirection

/-- The imports that replace an import of a barrel. -/
def replacingImports (settings : Settings) (manifest : Manifest) (declaration : ImportDeclaration) :
    List Synthesis.Import :=
  coalesceImports (expandImport settings manifest declaration)

/-- A direct import reaches the module of its entity. -/
theorem directImport_module (settings : Settings) (base : String) (entity : Entity)
    (localName : String) (typeOnly : Bool) :
    (directImport settings base entity localName typeOnly).module =
      Specifier.origin base entity settings.options := by
  rw [directImport]
  split <;> rfl

/-- A direct import binds its local name to the name by which the origin exports the entity. -/
theorem directImport_binds_iff {settings : Settings} {base : String} {entity : Entity}
    {localName other origin : String} {typeOnly isType : Bool} :
    (directImport settings base entity localName typeOnly).Binds other origin isType ↔
      localName = other ∧ entity.exportedName = origin ∧ typeOnly = isType := by
  rw [directImport, Import.Binds, Entity.exportedName]
  cases isDefault : entity.isDefaultExport with
  | true =>
      cases typeOnly with
      | true => simp [ImportEntry.origin]
      | false => simp [eq_comm]
  | false =>
      by_cases same : entity.identifier = localName
      · simp [same, ImportEntry.origin]
      · simp [same, ImportEntry.origin]

/-- What a named import of a barrel expands to in a TypeScript file: one direct import for every binding
that the manifest knows. -/
theorem mem_expandImport_iff {settings : Settings} {manifest : Manifest}
    {declaration : ImportDeclaration} {bindings : List ImportBinding} {direct : Synthesis.Import}
    (keepsTypes : settings.stripTypes = false) (clause : declaration.bindings = some bindings)
    (isNamed : namespaceOf? bindings = none) :
    direct ∈ expandImport settings manifest declaration ↔
      ∃ imported localName mark entity, .named imported localName mark ∈ bindings ∧
        manifest.get? imported = some entity ∧
        directImport settings (Specifier.barrelBase declaration.specifier) entity localName
          (declaration.typeOnly || mark) = direct := by
  rw [expandImport, clause]
  simp only [isNamed, List.mem_filterMap]
  constructor
  · rintro ⟨binding, member, expanded⟩
    cases binding with
    | default localName => simp [expandBinding] at expanded
    | whole localName => simp [expandBinding] at expanded
    | named imported localName mark =>
        rw [expandBinding] at expanded
        cases found : manifest.get? imported with
        | none => simp [found] at expanded
        | some entity =>
            simp only [found, keepsTypes, Bool.false_and, Bool.false_eq_true, if_false,
              Option.some.injEq] at expanded
            exact ⟨imported, localName, mark, entity, member, found, expanded⟩
  · rintro ⟨imported, localName, mark, entity, member, found, rfl⟩
    exact ⟨.named imported localName mark, member, by simp [expandBinding, found, keepsTypes]⟩

/-- Redirecting a file that can be parsed succeeds. -/
theorem redirectImports_of_parses {file : Path} {code : String} {options : CompilerOptions}
    {module : Module} (barrelOf : String → Option Manifest)
    (parses : Module.parse? (Language.ofPath file) code = some module) :
    redirectImports file code options barrelOf =
      .ok (module.redirect ⟨options, !(Language.ofPath file).typeScript⟩ barrelOf code) := by
  unfold redirectImports
  simp only [parses]

/-- A named import of the barrel of a folder, in a TypeScript file, is replaced by imports that bind
exactly what the statements of the barrel give: a local name stands for a name of a module below the
folder of the specifier if and only if the import has it for a name that the barrel takes from there.
It is bound as a type exactly when the import or its entry says so. -/
theorem named_import_binds_what_barrel_gives (host : FileSystem) (options : CompilerOptions)
    (folder file : Path) (barrelOf : String → Option Manifest) (declaration : ImportDeclaration)
    (bindings : List ImportBinding) (typeScript : (Language.ofPath file).typeScript = true)
    (clause : declaration.bindings = some bindings) (isNamed : namespaceOf? bindings = none)
    (isBarrel : barrelOf declaration.specifier =
      some (Barrel.calculate host options folder).barrel.manifest) :
    let barrel := (Barrel.calculate host options folder).barrel
    let settings : Settings := ⟨options, !(Language.ofPath file).typeScript⟩
    let imports := replacingImports settings barrel.manifest declaration
    replacementOf? settings barrelOf (.importDeclaration declaration) =
        some ⟨declaration.span,
          "\n".intercalate (imports.map (Import.print declaration.quote))⟩ ∧
      ∀ localName origin module typeOnly,
        ImportsBind imports localName origin module typeOnly ↔
          ∃ imported mark rest, .named imported localName mark ∈ bindings ∧
            barrel.Gives imported origin ("./" ++ rest) ∧
            module = Specifier.withoutTrailingSeparators
              (Specifier.barrelBase declaration.specifier) ++ "/" ++ rest ∧
            typeOnly = (declaration.typeOnly || mark) := by
  intro barrel settings imports
  have keepsTypes : settings.stripTypes = false := by simp [settings, typeScript]
  refine ⟨by simp only [replacementOf?, isBarrel, Option.map_some]; rfl, ?_⟩
  intro localName origin module typeOnly
  rw [show imports = coalesceImports (expandImport settings barrel.manifest declaration) from rfl,
    importsBind_coalesceImports]
  constructor
  · rintro ⟨direct, member, same, binds⟩
    obtain ⟨imported, own, mark, entity, listed, found, rfl⟩ :=
      (mem_expandImport_iff keepsTypes clause isNamed).mp member
    obtain ⟨rfl, exported, isType⟩ := directImport_binds_iff.mp binds
    have named := Barrel.identifier_of_get?_calculate found
    have inside : entity ∈ barrel.manifest.entities :=
      Barrel.mem_entities_calculate_iff.mpr (by rw [named]; exact found)
    refine ⟨imported, mark, Specifier.originName entity options, listed, ?_, ?_, isType.symm⟩
    · exact Barrel.ofManifest_gives_iff.mpr ⟨entity, inside, named, exported,
        Specifier.origin_here entity options⟩
    · rw [← same, directImport_module]
      rfl
  · rintro ⟨imported, mark, rest, listed, gives, rfl, rfl⟩
    obtain ⟨entity, inside, named, exported, below⟩ := Barrel.ofManifest_gives_iff.mp gives
    have found := Barrel.mem_entities_calculate_iff.mp inside
    rw [named] at found
    rw [Specifier.origin_here] at below
    have rest_eq : Specifier.originName entity options = rest :=
      (String.append_right_inj _).mp below
    refine ⟨_, (mem_expandImport_iff keepsTypes clause isNamed).mpr
      ⟨imported, localName, mark, entity, listed, found, rfl⟩, ?_,
      directImport_binds_iff.mpr ⟨rfl, exported, rfl⟩⟩
    rw [directImport_module, Specifier.origin, rest_eq]

/-- Two files of one folder and an import with a renamed and a type entry. -/
theorem named_import_of_two_files_binds :
    let files : Disk := .ofList
      [(⟨"/p/c/a.ts"⟩, "export const value = 1;"),
       (⟨"/p/c/b.ts"⟩, "export default function f() \x7b\x7d")] []
    let declaration : ImportDeclaration :=
      ⟨some [.named "value" "v" false, .named "f" "f" true], "./c/", '"', false, ⟨0, 44⟩⟩
    let barrel := (Barrel.calculate files.fileSystem {} ⟨"/p/c"⟩).barrel
    ∀ localName origin module typeOnly,
      ImportsBind (replacingImports ⟨{}, false⟩ barrel.manifest declaration) localName origin module
          typeOnly ↔
        ∃ imported mark rest,
          .named imported localName mark ∈
            [ImportBinding.named "value" "v" false, .named "f" "f" true] ∧
          barrel.Gives imported origin ("./" ++ rest) ∧
          module = Specifier.withoutTrailingSeparators (Specifier.barrelBase "./c/") ++ "/" ++ rest ∧
          typeOnly = (false || mark) := by
  intro files declaration barrel
  exact (named_import_binds_what_barrel_gives files.fileSystem {} ⟨"/p/c"⟩ ⟨"/p/main.ts"⟩
    (fun _ => some barrel.manifest) declaration _ (by decide +kernel) rfl rfl rfl).2

end Redirection

end BarrelSynthesis
