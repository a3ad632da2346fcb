/-
# Which names outlive the import that bound them

An import of a barrel is taken out of a module, and the names it bound have to be bound by what is put in.
A named binding that the barrel knows gets a direct import of its own. The name of a namespace gets an
object, whose properties are the values of the barrel: each of them is a name that the imports in the place
of the declaration bind. A type import of a namespace gets imports for every key but no object, so its name
is left unbound unless another namespace of that name is imported as a value.
-/
import BarrelSynthesis.Proofs.Imports.TopLevelNames

namespace BarrelSynthesis

open Source Synthesis

namespace Redirection

variable {settings : Settings} {barrelOf : String → Option Manifest} {module : Module}
  {manifest : Manifest} {declaration : ImportDeclaration} {name : String}

/-- An import of a barrel is replaced as a whole by the expanded imports. -/
theorem mem_replacements_of_barrel
    (listed : .importDeclaration declaration ∈ module.references)
    (isBarrel : barrelOf declaration.specifier = some manifest) :
    ⟨declaration.span, importText settings manifest declaration⟩ ∈
      replacements settings barrelOf module := by
  have found : ⟨declaration.span, importText settings manifest declaration⟩ ∈
      module.references.filterMap (replacementOf? settings barrelOf) := by
    refine List.mem_filterMap.mpr ⟨_, listed, ?_⟩
    simp only [replacementOf?, isBarrel, Option.map_some]
  rw [replacements]
  split
  · exact found
  · exact List.mem_append_left _ found

/-! ## Named bindings -/

/-- Every named binding of a declaration that the barrel knows is bound in its place, to the export of the
entity that the barrel has under the imported name. -/
def KeepsNamed (settings : Settings) (manifest : Manifest) (declaration : ImportDeclaration) : Prop :=
  ∀ imported localName mark entity,
    .named imported localName mark ∈ declaration.bindings.getD [] →
    manifest.get? imported = some entity →
    ImportsBind (replacingImports settings manifest declaration) localName entity.exportedName
      (Specifier.origin (Specifier.barrelBase declaration.specifier) entity settings.options)
      (declaration.typeOnly || mark)

/-- Where types are kept, an import without a namespace keeps all its named bindings. -/
theorem keepsNamed_of_named (keepsTypes : settings.stripTypes = false)
    (isNamed : namespaceOf? (declaration.bindings.getD []) = none) :
    KeepsNamed settings manifest declaration := by
  intro imported localName mark entity listed found
  cases clause : declaration.bindings with
  | none =>
      rw [clause] at listed
      cases listed
  | some bindings =>
      rw [clause] at listed isNamed
      apply importsBind_coalesceImports.mpr
      refine ⟨_, (mem_expandImport_iff keepsTypes clause isNamed).mpr
        ⟨imported, localName, mark, entity, listed, found, rfl⟩, ?_,
        directImport_binds_iff.mpr ⟨rfl, rfl, rfl⟩⟩
      exact directImport_module ..

/-! ## Names of namespaces -/

/-- A declaration binds a name to a whole barrel, and not as a type. -/
structure BindsNamespace (barrelOf : String → Option Manifest) (declaration : ImportDeclaration)
    (name : String) : Prop where
  isBarrel : (barrelOf declaration.specifier).isSome = true
  isWhole : namespaceOf? (declaration.bindings.getD []) = some name
  isValueImport : declaration.typeOnly = false

/-- A value import of a whole barrel needs the object of its namespace. -/
theorem objectOf?_importDeclaration (isBarrel : barrelOf declaration.specifier = some manifest)
    (isWhole : namespaceOf? (declaration.bindings.getD []) = some name)
    (isValueImport : declaration.typeOnly = false) :
    objectOf? barrelOf (.importDeclaration declaration) = some (namespaceObject manifest name) := by
  simp only [objectOf?, isValueImport, isBarrel, isWhole, Bool.false_eq_true, if_false]

/-- The references that need an object of a name are the declarations that bind a namespace of it. -/
theorem objectOf?_named_iff {reference : Reference} :
    (∃ object, objectOf? barrelOf reference = some object ∧ object.name = name) ↔
      ∃ declaration, reference = .importDeclaration declaration ∧
        BindsNamespace barrelOf declaration name := by
  constructor
  · rintro ⟨object, needs, rfl⟩
    cases reference with
    | importDeclaration declaration =>
        obtain ⟨isValueImport, found⟩ := Option.ite_none_left_eq_some.mp needs
        split at found
        · next manifest name isBarrel isWhole =>
            obtain rfl := Option.some.inj found
            refine ⟨declaration, rfl, ?_, isWhole, Bool.eq_false_iff.mpr isValueImport⟩
            rw [isBarrel, Option.isSome_some]
        · cases found
    | _ => cases needs
  · rintro ⟨declaration, rfl, binds⟩
    obtain ⟨manifest, isBarrel⟩ := Option.isSome_iff_exists.mp binds.isBarrel
    exact ⟨namespaceObject manifest name,
      objectOf?_importDeclaration isBarrel binds.isWhole binds.isValueImport, rfl⟩

/-- A module gets objects for the names of the namespaces of barrels that it imports as values. -/
theorem mem_names_namespaceObjects_iff :
    name ∈ (namespaceObjects barrelOf module).map (·.name) ↔
      ∃ declaration, .importDeclaration declaration ∈ module.references ∧
        BindsNamespace barrelOf declaration name := by
  rw [map_name_namespaceObjects, List.mem_eraseDups, List.mem_map]
  simp only [List.mem_filterMap]
  constructor
  · rintro ⟨object, ⟨reference, listed, needs⟩, named⟩
    obtain ⟨declaration, rfl, binds⟩ := objectOf?_named_iff.mp ⟨object, needs, named⟩
    exact ⟨declaration, listed, binds⟩
  · rintro ⟨declaration, listed, binds⟩
    obtain ⟨object, needs, named⟩ := objectOf?_named_iff.mpr ⟨declaration, rfl, binds⟩
    exact ⟨object, ⟨_, listed, needs⟩, named⟩

/-- The object of a namespace is put into the module, and leads to every value of the barrel. Under each
key stands a name that the imports in the place of the declaration bind once, to the export of the
entity. -/
structure KeepsMembers (settings : Settings) (barrelOf : String → Option Manifest) (module : Module)
    (manifest : Manifest) (declaration : ImportDeclaration) (object : NamespaceObject) : Prop where
  injected : Injected settings barrelOf module object
  reaches : ∀ key entity, (key, entity) ∈ manifest.entries → entity.isTypeExport = false →
    ∃ localName, (key, localName) ∈ object.properties ∧
      BoundOnce (replacingImports settings manifest declaration) localName entity.exportedName
        (Specifier.origin (Specifier.barrelBase declaration.specifier) entity settings.options)

/-- The last namespace of a name keeps its members. -/
theorem keepsMembers_of_last {before after : List Reference}
    (isBarrel : barrelOf declaration.specifier = some manifest)
    (isWhole : namespaceOf? (declaration.bindings.getD []) = some name)
    (isValueImport : declaration.typeOnly = false)
    (stands : module.references = before ++ .importDeclaration declaration :: after)
    (last : ∀ other, .importDeclaration other ∈ after → ¬ BindsNamespace barrelOf other name) :
    KeepsMembers settings barrelOf module manifest declaration (namespaceObject manifest name) := by
  have expanded : expandImport settings manifest declaration =
      expandNamespace settings (Specifier.barrelBase declaration.specifier) manifest false name := by
    cases clause : declaration.bindings with
    | none =>
        rw [clause] at isWhole
        cases isWhole
    | some bindings =>
        rw [clause, Option.getD_some] at isWhole
        simp only [expandImport, clause, isWhole, isValueImport]
  refine ⟨?_, ?_⟩
  · apply injected_of_last stands (objectOf?_importDeclaration isBarrel isWhole isValueImport)
    intro later listed other needs named
    obtain ⟨_, rfl, binds⟩ := objectOf?_named_iff.mp ⟨other, needs, named⟩
    exact last _ listed binds
  · intro key entity listed isValue
    refine ⟨namespacedName name key, ?_, ?_⟩
    · exact List.mem_filterMap.mpr ⟨_, listed, if_neg (Bool.eq_false_iff.mp isValue)⟩
    · apply boundOnce_coalesceImports
      · rw [expanded]
        exact nodup_localNames_expandNamespace settings _ manifest false name
      · rw [expanded]
        exact expandNamespace_binds_entry listed isValue

/-! ## All names of a module -/

/-- Redirecting a TypeScript file that can be parsed puts imports in the place of every import of a
barrel. A clause binds names or a whole module. The imports in the place of named bindings bind those that
the barrel knows. The name of a namespace is taken by an object exactly when some namespace of this name is
imported as a value; a namespace that is, and is not followed by another of its name, keeps its
members. -/
theorem names_of_barrel_imports_survive_iff (file : Path) (code : String) (options : CompilerOptions)
    (barrelOf : String → Option Manifest) (module : Module)
    (typeScript : (Language.ofPath file).typeScript = true)
    (parses : Module.parse? (Language.ofPath file) code = some module) :
    let settings : Settings := ⟨options, false⟩
    redirectImports file code options barrelOf = .ok (module.redirect settings barrelOf code) ∧
      ∀ declaration manifest, .importDeclaration declaration ∈ module.references →
        barrelOf declaration.specifier = some manifest →
        ⟨declaration.span, importText settings manifest declaration⟩ ∈
            replacements settings barrelOf module ∧
          (namespaceOf? (declaration.bindings.getD []) = none →
            KeepsNamed settings manifest declaration) ∧
          ∀ name, namespaceOf? (declaration.bindings.getD []) = some name →
            ((∃ object, Injected settings barrelOf module object ∧ object.name = name) ↔
              ∃ other, .importDeclaration other ∈ module.references ∧
                BindsNamespace barrelOf other name) ∧
            (declaration.typeOnly = false →
              ∀ before after, module.references = before ++ .importDeclaration declaration :: after →
                (∀ other, .importDeclaration other ∈ after → ¬ BindsNamespace barrelOf other name) →
                KeepsMembers settings barrelOf module manifest declaration
                  (namespaceObject manifest name)) := by
  intro settings
  refine ⟨?_, ?_⟩
  · rw [redirectImports_of_parses barrelOf parses, typeScript]
    rfl
  · intro declaration manifest listed isBarrel
    refine ⟨mem_replacements_of_barrel listed isBarrel, keepsNamed_of_named rfl, ?_⟩
    intro name isWhole
    refine ⟨?_, ?_⟩
    · rw [← mem_names_namespaceObjects_iff, List.mem_map]
      constructor
      · rintro ⟨object, injected, named⟩
        exact ⟨object, injected.mem, named⟩
      · rintro ⟨object, inside, named⟩
        exact ⟨object, injected_of_mem inside, named⟩
    · intro isValueImport before after stands last
      exact keepsMembers_of_last isBarrel isWhole isValueImport stands last

/-- A renamed binding and a namespace of one barrel. -/
theorem renamed_binding_and_namespace_survive :
    let manifest : Manifest := .ofList [("v", ⟨"v", "a", ".ts", false, false, none⟩)]
    let barrelOf := fun _ : String => some manifest
    let renamed : ImportDeclaration :=
      ⟨some [.named "v" "w" false], "./c", '\'', false, ⟨0, 24⟩⟩
    let whole : ImportDeclaration := ⟨some [.whole "n"], "./c", '\'', false, ⟨24, 46⟩⟩
    ∃ module,
      Module.parse? (Language.ofPath ⟨"m.ts"⟩) "import\x7bv as w\x7dfrom'./c';import*as n from'./c';" =
          some module ∧
        module.references = [.importDeclaration renamed, .importDeclaration whole] ∧
        ImportsBind (replacingImports ⟨{}, false⟩ manifest renamed) "w" "v" "./c/a" false ∧
        KeepsMembers ⟨{}, false⟩ barrelOf module manifest whole (namespaceObject manifest "n") := by
  intro manifest barrelOf renamed whole
  have reading : (Module.parse? (Language.ofPath ⟨"m.ts"⟩)
        "import\x7bv as w\x7dfrom'./c';import*as n from'./c';").map (·.references) =
      some [.importDeclaration renamed, .importDeclaration whole] := by
    decide +kernel
  obtain ⟨module, parses, references⟩ := Option.map_eq_some_iff.mp reading
  obtain ⟨-, survive⟩ := names_of_barrel_imports_survive_iff ⟨"m.ts"⟩ _ {} barrelOf module
    (by decide +kernel) parses
  obtain ⟨-, keepsNamed, -⟩ := survive renamed manifest (by rw [references]; simp) rfl
  obtain ⟨-, -, keepsNamespace⟩ := survive whole manifest (by rw [references]; simp) rfl
  refine ⟨module, parses, references, ?_, ?_⟩
  · have kept := keepsNamed rfl "v" "w" false ⟨"v", "a", ".ts", false, false, none⟩
      (List.mem_singleton_self _) (by decide +kernel)
    have origin : Specifier.origin (Specifier.barrelBase renamed.specifier)
        ⟨"v", "a", ".ts", false, false, none⟩ {} = "./c/a" := by
      decide +kernel
    rw [origin] at kept
    exact kept
  · apply (keepsNamespace "n" rfl).2 rfl [.importDeclaration renamed] [] references
    intro other listed
    cases listed

/-- A type import of a namespace leaves its name unbound. -/
theorem type_namespace_is_left_unbound :
    let manifest : Manifest := .ofList [("v", ⟨"v", "a", ".ts", false, false, none⟩)]
    ∃ module redirected again,
      Module.parse? (Language.ofPath ⟨"m.ts"⟩) "import type*as n from'./c'" = some module ∧
        module.boundNames = ["n"] ∧
        redirectImports ⟨"m.ts"⟩ "import type*as n from'./c'" {} (fun _ => some manifest) =
          .ok redirected ∧
        redirected.code = "import \x7b type v as nv \x7d from './c/a';" ∧
        Module.parse? (Language.ofPath ⟨"m.ts"⟩) redirected.code = some again ∧
        again.boundNames = ["nv"] ∧ "n" ∉ again.boundNames := by
  intro manifest
  have reading : (Module.parse? (Language.ofPath ⟨"m.ts"⟩) "import type*as n from'./c'").map
      (·.boundNames) = some ["n"] := by
    decide +kernel
  have readingAgain : (Module.parse? (Language.ofPath ⟨"m.ts"⟩)
      "import \x7b type v as nv \x7d from './c/a';").map (·.boundNames) = some ["nv"] := by
    decide +kernel
  have written : (redirectImports ⟨"m.ts"⟩ "import type*as n from'./c'" {}
      fun _ => some manifest).toOption.map (·.code) =
        some "import \x7b type v as nv \x7d from './c/a';" := by
    decide +kernel
  obtain ⟨module, parses, names⟩ := Option.map_eq_some_iff.mp reading
  obtain ⟨again, parsesAgain, namesAgain⟩ := Option.map_eq_some_iff.mp readingAgain
  have succeeds : redirectImports ⟨"m.ts"⟩ "import type*as n from'./c'" {} (fun _ => some manifest) = _ :=
    redirectImports_of_parses (fun _ => some manifest) parses
  rw [succeeds] at written
  have code := Option.some.inj written
  refine ⟨module, _, again, parses, names, succeeds, code, ?_, namesAgain, ?_⟩
  · exact (congrArg _ code).trans parsesAgain
  · rw [namesAgain]
    decide

end Redirection

end BarrelSynthesis
