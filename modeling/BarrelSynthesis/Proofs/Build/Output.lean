/-
# Which barrels written files refer to

Barrels are not written, so a written file should not refer to one. Redirecting sees to that for import
declarations and for plain calls of `require`: each of them gives way to references to the files behind
the barrel. Every other reference stays as it is, and nothing keeps the file behind a barrel from having
a specifier that names a barrel itself. These two are the only ways in which a written file comes to
refer to a barrel.

That reading a redirected text finds the references that were left in it, and those that were put into
it, is the business of the parser. `ReadsBack` says it of one text.
-/
import BarrelSynthesis.Build
import BarrelSynthesis.Disk.Flat
import BarrelSynthesis.Proofs.Imports.NamedBindings

namespace BarrelSynthesis

open Source Synthesis

/-- Whether redirecting replaces a reference of this form when it names a barrel. -/
def Source.Reference.isReplaceable : Reference → Bool
  | .importDeclaration _ => true
  | .requireCall _ => true
  | _ => false

namespace Redirection

variable {settings : Settings} {manifest : Manifest} {barrelOf : String → Option Manifest}

/-- An entity of a barrel to whose file an import or a `require` of the barrel is redirected. Types are
never loaded, and are not imported where the code cannot carry them. -/
def Reaches (settings : Settings) (manifest : Manifest) : Reference → Entity → Prop
  | .importDeclaration declaration, entity =>
    match declaration.bindings with
    | none => entity ∈ manifest.entities ∧ entity.isTypeExport = false
    | some bindings =>
      match namespaceOf? bindings with
      | some _ =>
        entity ∈ manifest.entities ∧
          (settings.stripTypes && (declaration.typeOnly || entity.isTypeExport)) = false
      | none =>
        ∃ imported localName mark, .named imported localName mark ∈ bindings ∧
          manifest.get? imported = some entity ∧
          (settings.stripTypes && (declaration.typeOnly || mark || entity.isTypeExport)) = false
  | .requireCall _, entity => entity ∈ manifest.entities ∧ entity.isTypeExport = false
  | _, _ => False

/-- The specifiers by which the text in the place of a reference names modules. -/
def writtenSpecifiers (settings : Settings) (barrelOf : String → Option Manifest) :
    Reference → List String
  | .importDeclaration declaration =>
    match barrelOf declaration.specifier with
    | some manifest => (replacingImports settings manifest declaration).map (·.module)
    | none => [declaration.specifier]
  | .requireCall call =>
    match barrelOf call.specifier with
    | some manifest =>
      (requireObject settings manifest call.specifier).properties.map (·.module)
    | none => [call.specifier]
  | reference => [reference.specifier]

/-- Reading the redirected text of a module gives the references that were left and those that were put
in the place of others. -/
def ReadsBack (settings : Settings) (barrelOf : String → Option Manifest) (module again : Module) :
    Prop :=
  ∀ specifier, specifier ∈ again.references.map (·.specifier) ↔
    specifier ∈ module.references.flatMap (writtenSpecifiers settings barrelOf)

/-! ## What is put in the place of a reference -/

/-- A side-effect import names the origins of the values. -/
theorem mem_modules_expandSideEffect {base specifier : String} :
    specifier ∈ (expandSideEffect settings base manifest).map (·.module) ↔
      ∃ entity, (entity ∈ manifest.entities ∧ entity.isTypeExport = false) ∧
        Specifier.origin base entity settings.options = specifier := by
  rw [expandSideEffect, List.map_map, List.mem_map]
  simp only [List.mem_filter, Bool.not_eq_true']
  rfl

/-- A namespace import names the origins of all that it does not strip. -/
theorem mem_modules_expandNamespace {base name specifier : String} {typeOnly : Bool} :
    specifier ∈ (expandNamespace settings base manifest typeOnly name).map (·.module) ↔
      ∃ entity, (entity ∈ manifest.entities ∧
          (settings.stripTypes && (typeOnly || entity.isTypeExport)) = false) ∧
        Specifier.origin base entity settings.options = specifier := by
  rw [List.mem_map]
  constructor
  · rintro ⟨direct, member, rfl⟩
    obtain ⟨⟨identifier, entity⟩, listed, expanded⟩ := List.mem_filterMap.mp member
    simp only at expanded
    split at expanded
    · cases expanded
    · next kept =>
        obtain rfl := Option.some.inj expanded
        exact ⟨entity, ⟨List.mem_map_of_mem listed, Bool.eq_false_iff.mpr kept⟩,
          (directImport_module ..).symm⟩
  · rintro ⟨entity, ⟨member, kept⟩, rfl⟩
    obtain ⟨⟨identifier, _⟩, listed, rfl⟩ := List.mem_map.mp member
    refine ⟨_, List.mem_filterMap.mpr ⟨_, listed, if_neg ?_⟩, directImport_module ..⟩
    exact Bool.eq_false_iff.mp kept

/-- An import by name names the origins of the known entities that it does not strip. -/
theorem mem_modules_expandBindings {base specifier : String} {typeOnly : Bool}
    {bindings : List ImportBinding} :
    specifier ∈ (bindings.filterMap (expandBinding settings base manifest typeOnly)).map
        (·.module) ↔
      ∃ entity, (∃ imported localName mark, .named imported localName mark ∈ bindings ∧
          manifest.get? imported = some entity ∧
          (settings.stripTypes && (typeOnly || mark || entity.isTypeExport)) = false) ∧
        Specifier.origin base entity settings.options = specifier := by
  rw [List.mem_map]
  constructor
  · rintro ⟨direct, member, rfl⟩
    obtain ⟨binding, listed, expanded⟩ := List.mem_filterMap.mp member
    cases binding with
    | default localName => cases expanded
    | whole localName => cases expanded
    | named imported localName mark =>
        rw [expandBinding] at expanded
        split at expanded
        · next entity found =>
            simp only at expanded
            split at expanded
            · cases expanded
            · next kept =>
                obtain rfl := Option.some.inj expanded
                exact ⟨entity, ⟨imported, localName, mark, listed, found,
                  Bool.eq_false_iff.mpr kept⟩, (directImport_module ..).symm⟩
        · cases expanded
  · rintro ⟨entity, ⟨imported, localName, mark, listed, found, kept⟩, rfl⟩
    refine ⟨directImport settings base entity localName (typeOnly || mark),
      List.mem_filterMap.mpr ⟨_, listed, ?_⟩, directImport_module ..⟩
    rw [expandBinding, found]
    exact if_neg (Bool.eq_false_iff.mp kept)

/-- An import of a barrel is replaced by imports of the files it reaches, and of no others. -/
theorem mem_modules_replacingImports {declaration : ImportDeclaration} {specifier : String} :
    specifier ∈ (replacingImports settings manifest declaration).map (·.module) ↔
      ∃ entity, Reaches settings manifest (.importDeclaration declaration) entity ∧
        Specifier.origin (Specifier.barrelBase declaration.specifier) entity settings.options =
          specifier := by
  rw [replacingImports, mem_modules_coalesceImports, expandImport]
  simp only [Reaches]
  cases declaration.bindings with
  | none => exact mem_modules_expandSideEffect
  | some bindings =>
      simp only
      cases namespaceOf? bindings with
      | some name => exact mem_modules_expandNamespace
      | none => exact mem_modules_expandBindings

/-- A `require` of a barrel is replaced by an object that requires the files it reaches, and no
others. -/
theorem mem_modules_requireObject {call : RequireCall} {specifier : String} :
    specifier ∈ (requireObject settings manifest call.specifier).properties.map (·.module) ↔
      ∃ entity, Reaches settings manifest (.requireCall call) entity ∧
        Specifier.origin (Specifier.barrelBase call.specifier) entity settings.options =
          specifier := by
  rw [requireObject, List.mem_map]
  simp only [Reaches]
  constructor
  · rintro ⟨property, member, rfl⟩
    obtain ⟨⟨identifier, entity⟩, listed, kept⟩ := List.mem_filterMap.mp member
    simp only at kept
    split at kept
    · cases kept
    · next isValue =>
        obtain rfl := Option.some.inj kept
        exact ⟨entity, ⟨List.mem_map_of_mem listed, Bool.eq_false_iff.mpr isValue⟩, rfl⟩
  · rintro ⟨entity, ⟨member, isValue⟩, rfl⟩
    obtain ⟨⟨identifier, _⟩, listed, rfl⟩ := List.mem_map.mp member
    exact ⟨_, List.mem_filterMap.mpr ⟨_, listed, if_neg (Bool.eq_false_iff.mp isValue)⟩, rfl⟩

/-- What is written in the place of a reference to a barrel are the files it reaches. -/
theorem mem_writtenSpecifiers_iff {reference : Reference} {specifier : String}
    (replaceable : reference.isReplaceable = true)
    (isBarrel : barrelOf reference.specifier = some manifest) :
    specifier ∈ writtenSpecifiers settings barrelOf reference ↔
      ∃ entity, Reaches settings manifest reference entity ∧
        Specifier.origin (Specifier.barrelBase reference.specifier) entity settings.options =
          specifier := by
  cases reference with
  | importDeclaration declaration =>
      have named : barrelOf declaration.specifier = some manifest := isBarrel
      rw [writtenSpecifiers, named]
      exact mem_modules_replacingImports
  | requireCall call =>
      have named : barrelOf call.specifier = some manifest := isBarrel
      rw [writtenSpecifiers, named]
      exact mem_modules_requireObject
  | exportFrom _ _ => cases replaceable
  | dynamicImport _ _ => cases replaceable
  | looseRequire _ _ => cases replaceable

/-- A reference that names no barrel, or has a form that is not replaced, is left as it is. -/
theorem writtenSpecifiers_of_left {reference : Reference}
    (left : reference.isReplaceable = true → barrelOf reference.specifier = none) :
    writtenSpecifiers settings barrelOf reference = [reference.specifier] := by
  cases reference with
  | importDeclaration declaration =>
      have named : barrelOf declaration.specifier = none := left rfl
      rw [writtenSpecifiers, named]
      rfl
  | requireCall call =>
      have named : barrelOf call.specifier = none := left rfl
      rw [writtenSpecifiers, named]
      rfl
  | exportFrom _ _ => rfl
  | dynamicImport _ _ => rfl
  | looseRequire _ _ => rfl

/-- Nothing that is written names a barrel exactly when no reference of another form does, and no file
behind a replaced reference has a specifier that does. -/
theorem writtenSpecifiers_name_no_barrel_iff {references : List Reference} :
    (∀ specifier ∈ references.flatMap (writtenSpecifiers settings barrelOf),
        barrelOf specifier = none) ↔
      (∀ reference ∈ references, reference.isReplaceable = false →
        barrelOf reference.specifier = none) ∧
      ∀ reference ∈ references, reference.isReplaceable = true →
        ∀ manifest, barrelOf reference.specifier = some manifest →
          ∀ entity, Reaches settings manifest reference entity →
            barrelOf (Specifier.origin (Specifier.barrelBase reference.specifier) entity
              settings.options) = none := by
  constructor
  · intro clean
    refine ⟨fun reference listed other => ?_, ?_⟩
    · apply clean
      refine List.mem_flatMap.mpr ⟨reference, listed, ?_⟩
      rw [writtenSpecifiers_of_left fun replaceable => absurd replaceable (by simp [other])]
      exact List.mem_singleton_self _
    · intro reference listed replaceable manifest isBarrel entity reached
      apply clean
      exact List.mem_flatMap.mpr ⟨reference, listed,
        (mem_writtenSpecifiers_iff replaceable isBarrel).mpr ⟨entity, reached, rfl⟩⟩
  · rintro ⟨others, behind⟩ specifier member
    obtain ⟨reference, listed, written⟩ := List.mem_flatMap.mp member
    cases named : barrelOf reference.specifier with
    | none =>
        rw [writtenSpecifiers_of_left fun _ => named, List.mem_singleton] at written
        rw [written, named]
    | some manifest =>
        cases replaceable : reference.isReplaceable with
        | false => rw [others reference listed replaceable] at named; cases named
        | true =>
            obtain ⟨entity, reached, rfl⟩ :=
              (mem_writtenSpecifiers_iff replaceable named).mp written
            exact behind reference listed replaceable manifest named entity reached

/-- Where nothing is replaced, no import declaration and no plain `require` names a barrel. -/
theorem barrelOf_of_replacements_eq_nil {module : Module}
    (untouched : replacements settings barrelOf module = []) :
    ∀ reference ∈ module.references, reference.isReplaceable = true →
      barrelOf reference.specifier = none := by
  have found : module.references.filterMap (replacementOf? settings barrelOf) = [] := by
    rw [replacements] at untouched
    split at untouched
    · exact untouched
    · exact (List.append_eq_nil_iff.mp untouched).1
  intro reference listed replaceable
  have kept := List.filterMap_eq_nil_iff.mp found reference listed
  cases reference with
  | importDeclaration declaration => exact Option.map_eq_none_iff.mp kept
  | requireCall call => exact Option.map_eq_none_iff.mp kept
  | exportFrom _ _ => cases replaceable
  | dynamicImport _ _ => cases replaceable
  | looseRequire _ _ => cases replaceable

/-- A text in which nothing is replaced reads back without further ado. -/
theorem readsBack_of_untouched {module : Module}
    (untouched : replacements settings barrelOf module = []) :
    ReadsBack settings barrelOf module module := by
  intro specifier
  have left := barrelOf_of_replacements_eq_nil untouched
  rw [List.mem_map, List.mem_flatMap]
  constructor
  · rintro ⟨reference, listed, rfl⟩
    refine ⟨reference, listed, ?_⟩
    rw [writtenSpecifiers_of_left (left reference listed)]
    exact List.mem_singleton_self _
  · rintro ⟨reference, listed, written⟩
    rw [writtenSpecifiers_of_left (left reference listed), List.mem_singleton] at written
    exact ⟨reference, listed, written.symm⟩

end Redirection

/-! ## Written files -/

namespace BuildHost

open Redirection

/-- A specifier names a barrel, seen from a source file: it resolves to one that the host keeps. -/
def NamesBarrel (host : BuildHost) (source : Path) (specifier : String) : Prop :=
  ∃ path, host.resolve specifier source = some path ∧ host.store.contains path = true

/-- A specifier is no barrel exactly when it names none. -/
theorem barrelOf_eq_none_iff {host : BuildHost} {source : Path} {specifier : String} :
    host.barrelOf source specifier = none ↔ ¬ host.NamesBarrel source specifier := by
  rw [barrelOf, NamesBarrel]
  cases host.resolve specifier source with
  | none => simp
  | some path =>
      have kept : host.store.manifest? path = none ↔ ¬ host.store.contains path = true := by
        rw [BarrelStore.manifest?, Option.map_eq_none_iff, BarrelStore.get?, BarrelStore.contains,
          PathMap.get?, PathMap.contains, Option.map_eq_none_iff, List.find?_eq_none]
        simp
      simpa using kept

/-- What redirecting an emitted file depends on. -/
def settings (host : BuildHost) (file : Path) : Settings :=
  ⟨host.options, !(Language.ofPath file).typeScript⟩

/-- What is written for a file that is not a barrel and whose text parses. -/
theorem writtenText?_of_parses {host : BuildHost} {file source : Path} {more : List Path}
    {text : String} {module : Module} (transforms : host.transformImports = true)
    (ordinary : host.store.contains source = false)
    (parses : Module.parse? (Language.ofPath file) text = some module) :
    host.writtenText? file text (source :: more) =
      some (module.redirect (host.settings file) (host.barrelOf source) text).code := by
  have redirected : redirectImports file text host.options (host.barrelOf source) =
      .ok (module.redirect (host.settings file) (host.barrelOf source) text) :=
    redirectImports_of_parses (host.barrelOf source) parses
  unfold writtenText?
  rw [transforms]
  show (if host.store.contains source then _ else _) = _
  rw [ordinary, if_neg Bool.false_ne_true]
  unfold redirectOutput
  rw [redirected]

/-- When a written file refers to no barrel: exactly when no reference of a form that is not replaced
names one, and no file that is reached through a replaced reference has a specifier that does. -/
theorem written_file_refers_to_no_barrel_iff (host : BuildHost) (file source : Path)
    (more : List Path) (text : String) (module : Module)
    (transforms : host.transformImports = true) (ordinary : host.store.contains source = false)
    (parses : Module.parse? (Language.ofPath file) text = some module) :
    ∃ written, host.writtenText? file text (source :: more) = some written ∧
      ∀ again, Module.parse? (Language.ofPath file) written = some again →
        (replacements (host.settings file) (host.barrelOf source) module ≠ [] →
          ReadsBack (host.settings file) (host.barrelOf source) module again) →
        ((∀ reference ∈ again.references, ¬ host.NamesBarrel source reference.specifier) ↔
          (∀ reference ∈ module.references, reference.isReplaceable = false →
            ¬ host.NamesBarrel source reference.specifier) ∧
          ∀ reference ∈ module.references, reference.isReplaceable = true →
            ∀ manifest, host.barrelOf source reference.specifier = some manifest →
              ∀ entity, Reaches (host.settings file) manifest reference entity →
                ¬ host.NamesBarrel source
                  (Specifier.origin (Specifier.barrelBase reference.specifier) entity
                    host.options)) := by
  refine ⟨_, writtenText?_of_parses transforms ordinary parses, ?_⟩
  intro again parsesAgain readsBack
  have reads : ReadsBack (host.settings file) (host.barrelOf source) module again := by
    by_cases untouched : replacements (host.settings file) (host.barrelOf source) module = []
    · have same : (module.redirect (host.settings file) (host.barrelOf source) text).code = text := by
        rw [Module.redirect, untouched]
        rfl
      rw [same, parses] at parsesAgain
      obtain rfl := Option.some.inj parsesAgain
      exact readsBack_of_untouched untouched
    · exact readsBack untouched
  have found : (∀ reference ∈ again.references, ¬ host.NamesBarrel source reference.specifier) ↔
      ∀ specifier ∈ module.references.flatMap
          (writtenSpecifiers (host.settings file) (host.barrelOf source)),
        host.barrelOf source specifier = none := by
    simp only [← reads _, List.forall_mem_map, barrelOf_eq_none_iff]
  rw [found, writtenSpecifiers_name_no_barrel_iff]
  simp only [barrelOf_eq_none_iff]
  rfl

/-- A written file whose import of a barrel became an import of the file behind it. -/
theorem written_import_refers_to_no_barrel :
    let disk : Disk := .ofList [(⟨"c/a.ts"⟩, "export const v = 1")] []
    let program : Program := ⟨[⟨"c/a.ts"⟩], { module := .esNext }, fun _ => []⟩
    let host := (program.transform disk.fileSystem true).2
    ∃ again,
      host.writtenText? ⟨"m.js"⟩ "import\x7bv\x7dfrom'./c'" [⟨"m.ts"⟩] =
          some "import \x7b v \x7d from './c/a';" ∧
        Module.parse? (Language.ofPath ⟨"m.js"⟩) "import \x7b v \x7d from './c/a';" =
          some again ∧
        ∀ reference ∈ again.references, ¬ host.NamesBarrel ⟨"m.ts"⟩ reference.specifier := by
  intro disk program host
  have reading : (Module.parse? (Language.ofPath ⟨"m.js"⟩) "import\x7bv\x7dfrom'./c'").map
      (·.references) =
        some [.importDeclaration ⟨some [.named "v" "v" false], "./c", '\'', false, ⟨0, 18⟩⟩] := by
    decide +kernel
  have readingAgain : (Module.parse? (Language.ofPath ⟨"m.js"⟩)
      "import \x7b v \x7d from './c/a';").map (·.references.map (·.specifier)) =
        some ["./c/a"] := by
    decide +kernel
  obtain ⟨module, parses, references⟩ := Option.map_eq_some_iff.mp reading
  obtain ⟨again, parsesAgain, specifiers⟩ := Option.map_eq_some_iff.mp readingAgain
  have put : module.references.flatMap
      (writtenSpecifiers (host.settings ⟨"m.js"⟩) (host.barrelOf ⟨"m.ts"⟩)) = ["./c/a"] := by
    rw [references]
    decide +kernel
  have writes : host.writtenText? ⟨"m.js"⟩ "import\x7bv\x7dfrom'./c'" [⟨"m.ts"⟩] =
      some "import \x7b v \x7d from './c/a';" := by
    decide +kernel
  obtain ⟨written, writesToo, refers⟩ := written_file_refers_to_no_barrel_iff host
    ⟨"m.js"⟩ ⟨"m.ts"⟩ [] "import\x7bv\x7dfrom'./c'" module
    (by decide +kernel) (by decide +kernel) parses
  obtain rfl := Option.some.inj (writes.symm.trans writesToo)
  refine ⟨again, writes, parsesAgain, (refers again parsesAgain fun _ specifier => ?_).mpr ?_⟩
  · rw [specifiers, put]
  · have clean : ∀ specifier ∈ module.references.flatMap
        (writtenSpecifiers (host.settings ⟨"m.js"⟩) (host.barrelOf ⟨"m.ts"⟩)),
          host.barrelOf ⟨"m.ts"⟩ specifier = none := by
      rw [put]
      decide +kernel
    have condition := writtenSpecifiers_name_no_barrel_iff.mp clean
    simp only [barrelOf_eq_none_iff] at condition
    exact condition

/-- An export from a barrel is written as it is, and still names the barrel. -/
theorem written_export_names_barrel :
    let text := "export\x7bv\x7dfrom'./c'"
    let disk : Disk := .ofList [(⟨"m.ts"⟩, text), (⟨"c/a.ts"⟩, "export const v = 1")] []
    let program : Program := ⟨[⟨"m.ts"⟩, ⟨"c/a.ts"⟩], { module := .esNext }, fun _ => []⟩
    let host := (program.transform disk.fileSystem true).2
    host.store.contains ⟨"m.ts"⟩ = false ∧
      host.writtenText? ⟨"m.js"⟩ text [⟨"m.ts"⟩] = some text ∧
      ∃ module, Module.parse? (Language.ofPath ⟨"m.js"⟩) text = some module ∧
        ∃ reference ∈ module.references, host.NamesBarrel ⟨"m.ts"⟩ reference.specifier := by
  intro text disk program host
  have reading : (Module.parse? (Language.ofPath ⟨"m.js"⟩) text).map (·.references) =
      some [.exportFrom "./c" ⟨0, 18⟩] := by
    decide +kernel
  obtain ⟨module, parses, references⟩ := Option.map_eq_some_iff.mp reading
  refine ⟨by decide +kernel, by decide +kernel, module, parses,
    .exportFrom "./c" ⟨0, 18⟩, ?_, ⟨"c/index.ts"⟩, ?_, ?_⟩
  · rw [references]
    exact List.mem_singleton_self _
  · decide +kernel
  · decide +kernel

end BuildHost

end BarrelSynthesis
