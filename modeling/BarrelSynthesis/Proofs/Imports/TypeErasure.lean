/-
# Types do not reach JavaScript

Types have no meaning in a JavaScript file, and none of the forms in which a barrel is imported lets them
through. Named imports and `import * as` leave types out when the file cannot carry them; imports for
their effect, the objects behind the imports and `require` leave them out of every file. So the output of
a JavaScript file is a function of the values of the barrels: it stays the same, byte for byte, when every
manifest loses its types.

A manifest without types has the same values under the same keys in the same order. Each form is shown to
read no more of a manifest than that, and the module follows from its references.
-/
import BarrelSynthesis.Proofs.Barrel.Manifest
import BarrelSynthesis.Proofs.Imports.NamedBindings

namespace BarrelSynthesis

open Source Synthesis

namespace Manifest

/-- The manifest of the values alone. -/
def withoutTypes (manifest : Manifest) : Manifest :=
  ⟨manifest.entries.filter fun entry => !entry.2.isTypeExport, manifest.distinct.filter _⟩

/-- A key is left without the type exports exactly when its entity is a value. -/
theorem get?_withoutTypes (manifest : Manifest) (key : String) :
    manifest.withoutTypes.get? key =
      (manifest.get? key).filter fun entity => !entity.isTypeExport := by
  ext entity
  rw [get?_eq_some_iff, Option.filter_eq_some_iff, get?_eq_some_iff]
  exact List.mem_filter

/-- What is made of the entries without regard to types is made of the values. -/
theorem filterMap_withoutTypes {α : Type} (manifest : Manifest)
    {make : String × Entity → Option α}
    (drops : ∀ entry : String × Entity, entry.2.isTypeExport = true → make entry = none) :
    manifest.withoutTypes.entries.filterMap make = manifest.entries.filterMap make := by
  show (manifest.entries.filter _).filterMap make = _
  rw [List.filterMap_filter]
  apply List.filterMap_congr
  intro entry _
  cases isType : entry.2.isTypeExport with
  | true => simp [drops entry isType]
  | false => simp

/-- The entities of the manifest without types are its values. -/
theorem entities_withoutTypes (manifest : Manifest) :
    manifest.withoutTypes.entities =
      manifest.entities.filter fun entity => !entity.isTypeExport := by
  rw [entities, entities, List.filter_map]
  rfl

end Manifest

namespace Redirection

variable {settings : Settings} {barrelOf : String → Option Manifest}

/-- A resolver that gives every barrel without its types. -/
def withoutTypes (barrelOf : String → Option Manifest) (specifier : String) : Option Manifest :=
  (barrelOf specifier).map Manifest.withoutTypes

/-! ## Each form reads the values only -/

/-- With types stripped, a named binding of a type export expands to nothing, as one of a missing key does.
-/
theorem expandBinding_withoutTypes (stripsTypes : settings.stripTypes = true) (base : String)
    (manifest : Manifest) (typeOnly : Bool) (binding : ImportBinding) :
    expandBinding settings base manifest.withoutTypes typeOnly binding =
      expandBinding settings base manifest typeOnly binding := by
  cases binding with
  | default localName => rfl
  | whole localName => rfl
  | named imported localName mark =>
      rw [expandBinding, expandBinding, Manifest.get?_withoutTypes]
      cases found : manifest.get? imported with
      | none => rfl
      | some entity =>
          cases isType : entity.isTypeExport with
          | true => simp [Option.filter, isType, stripsTypes]
          | false => simp [Option.filter, isType]

/-- With types stripped, a namespace import expands over the value exports only. -/
theorem expandNamespace_withoutTypes (stripsTypes : settings.stripTypes = true) (base : String)
    (manifest : Manifest) (typeOnly : Bool) (name : String) :
    expandNamespace settings base manifest.withoutTypes typeOnly name =
      expandNamespace settings base manifest typeOnly name := by
  apply manifest.filterMap_withoutTypes
  intro entry isType
  simp [stripsTypes, isType]

/-- A side-effect import reaches only the modules of value exports, whether or not types are stripped. -/
theorem expandSideEffect_withoutTypes (settings : Settings) (base : String) (manifest : Manifest) :
    expandSideEffect settings base manifest.withoutTypes = expandSideEffect settings base manifest := by
  rw [expandSideEffect, expandSideEffect, Manifest.entities_withoutTypes, List.filter_filter]
  simp only [Bool.and_self]

/-- The object that stands for a namespace has no property for a type export. -/
theorem namespaceObject_withoutTypes (manifest : Manifest) (name : String) :
    namespaceObject manifest.withoutTypes name = namespaceObject manifest name := by
  rw [namespaceObject, namespaceObject, NamespaceObject.mk.injEq]
  refine ⟨rfl, ?_⟩
  apply manifest.filterMap_withoutTypes
  exact fun entry isType => if_pos isType

/-- Nor has the object that stands for a required barrel. -/
theorem requireObject_withoutTypes (settings : Settings) (manifest : Manifest) (specifier : String) :
    requireObject settings manifest.withoutTypes specifier =
      requireObject settings manifest specifier := by
  rw [requireObject, requireObject, RequireObject.mk.injEq]
  apply manifest.filterMap_withoutTypes
  exact fun entry isType => if_pos isType

/-- An import declaration expands to the same imports over the manifest without its types. -/
theorem expandImport_withoutTypes (stripsTypes : settings.stripTypes = true) (manifest : Manifest)
    (declaration : ImportDeclaration) :
    expandImport settings manifest.withoutTypes declaration =
      expandImport settings manifest declaration := by
  rw [expandImport, expandImport]
  cases declaration.bindings with
  | none => exact expandSideEffect_withoutTypes settings _ manifest
  | some bindings =>
      cases isNamespace : namespaceOf? bindings with
      | some name =>
          simp only [isNamespace]
          exact expandNamespace_withoutTypes stripsTypes _ manifest _ name
      | none =>
          simp only [isNamespace]
          exact List.filterMap_congr fun binding _ =>
            expandBinding_withoutTypes stripsTypes _ manifest _ binding

/-! ## A module reads the values only -/

/-- Every reference to a barrel, import or require, is replaced by the same text. -/
theorem replacementOf?_withoutTypes (stripsTypes : settings.stripTypes = true)
    (reference : Reference) :
    replacementOf? settings (withoutTypes barrelOf) reference =
      replacementOf? settings barrelOf reference := by
  cases reference with
  | importDeclaration declaration =>
      simp only [replacementOf?, withoutTypes, Option.map_map]
      congr 1
      funext manifest
      simp only [Function.comp_apply, importText, expandImport_withoutTypes stripsTypes]
  | requireCall call =>
      simp only [replacementOf?, withoutTypes, Option.map_map]
      congr 1
      funext manifest
      simp only [Function.comp_apply, requireObject_withoutTypes]
  | exportFrom _ _ => rfl
  | dynamicImport _ _ => rfl
  | looseRequire _ _ => rfl

/-- The object injected for a reference is the same as well. -/
theorem objectOf?_withoutTypes (reference : Reference) :
    objectOf? (withoutTypes barrelOf) reference = objectOf? barrelOf reference := by
  cases reference with
  | importDeclaration declaration =>
      rw [objectOf?, objectOf?, withoutTypes]
      cases barrelOf declaration.specifier with
      | none => rfl
      | some manifest =>
          cases namespaceOf? (declaration.bindings.getD []) with
          | none => rfl
          | some name => simp only [Option.map_some, namespaceObject_withoutTypes]
  | _ => rfl

/-- So all replacements of a module agree, which is what the rewritten text is computed from. -/
theorem replacements_withoutTypes (stripsTypes : settings.stripTypes = true) (module : Module) :
    replacements settings (withoutTypes barrelOf) module = replacements settings barrelOf module := by
  have found : replacementOf? settings (withoutTypes barrelOf) = replacementOf? settings barrelOf :=
    funext fun reference => replacementOf?_withoutTypes stripsTypes reference
  have objects : objectOf? (withoutTypes barrelOf) = objectOf? barrelOf :=
    funext fun reference => objectOf?_withoutTypes reference
  rw [replacements, replacements, namespaceObjects, namespaceObjects, found, objects]

/-! ## Value imports only -/

/-- Where types are left out, a direct import for a binding binds a value. -/
theorem value_of_expandBinding (stripsTypes : settings.stripTypes = true) {base : String}
    {manifest : Manifest} {typeOnly : Bool} {binding : ImportBinding} {direct : Synthesis.Import}
    (kept : expandBinding settings base manifest typeOnly binding = some direct) :
    ∃ entity localName, direct = directImport settings base entity localName false := by
  cases binding with
  | default localName => cases kept
  | whole localName => cases kept
  | named imported localName mark =>
      rw [expandBinding] at kept
      cases found : manifest.get? imported with
      | none => simp [found] at kept
      | some entity =>
          simp only [found, stripsTypes, Bool.true_and] at kept
          obtain ⟨isValue, made⟩ := Option.ite_none_left_eq_some.mp kept
          have noMark : (typeOnly || mark) = false := by
            cases marked : typeOnly || mark with
            | true => simp [marked] at isValue
            | false => rfl
          rw [noMark] at made
          exact ⟨entity, localName, (Option.some.inj made).symm⟩

/-- Where types are left out, every import that a namespace expands to binds a value. -/
theorem value_of_mem_expandNamespace (stripsTypes : settings.stripTypes = true) {base : String}
    {manifest : Manifest} {typeOnly : Bool} {name : String} {direct : Synthesis.Import}
    (member : direct ∈ expandNamespace settings base manifest typeOnly name) :
    ∃ entity localName, direct = directImport settings base entity localName false := by
  obtain ⟨⟨identifier, entity⟩, -, kept⟩ := List.mem_filterMap.mp member
  simp only [stripsTypes, Bool.true_and] at kept
  obtain ⟨isValue, made⟩ := Option.ite_none_left_eq_some.mp kept
  rw [Bool.eq_false_iff.mpr isValue] at made
  exact ⟨entity, namespacedName name identifier, (Option.some.inj made).symm⟩

/-- Where types are left out, an import of a barrel is replaced by value imports, whichever form it
has. -/
theorem not_importsBind_type (stripsTypes : settings.stripTypes = true) (manifest : Manifest)
    (declaration : ImportDeclaration) (localName origin module : String) :
    ¬ ImportsBind (replacingImports settings manifest declaration) localName origin module true := by
  rw [replacingImports, importsBind_coalesceImports]
  rintro ⟨direct, member, -, binds⟩
  have isValue : direct.named = [] ∨
      ∃ base entity other, direct = directImport settings base entity other false := by
    rw [expandImport] at member
    cases clause : declaration.bindings with
    | none =>
        rw [clause] at member
        obtain ⟨entity, -, rfl⟩ := List.mem_map.mp member
        exact .inl rfl
    | some bindings =>
        rw [clause] at member
        cases isNamespace : namespaceOf? bindings with
        | some name =>
            simp only [isNamespace] at member
            exact .inr ⟨_, value_of_mem_expandNamespace stripsTypes member⟩
        | none =>
            simp only [isNamespace] at member
            obtain ⟨binding, -, kept⟩ := List.mem_filterMap.mp member
            exact .inr ⟨_, value_of_expandBinding stripsTypes kept⟩
  obtain noEntries | ⟨base, entity, other, rfl⟩ := isValue
  · rcases binds with ⟨-, -, isDefault⟩ | ⟨entry, listed, -⟩
    · cases isDefault
    · rw [noEntries] at listed
      cases listed
  · cases (directImport_binds_iff.mp binds).2.2

/-! ## The output of a file -/

/-- Redirecting a JavaScript file that can be parsed gives the same code and the same flag when every
barrel loses its types, and none of the imports that it writes in the place of an import of a barrel
carries a type mark. -/
theorem javaScript_output_depends_on_values (file : Path) (code : String) (options : CompilerOptions)
    (barrelOf : String → Option Manifest) (module : Module)
    (javaScript : (Language.ofPath file).typeScript = false)
    (parses : Module.parse? (Language.ofPath file) code = some module) :
    ∃ redirected,
      redirectImports file code options barrelOf = .ok redirected ∧
      redirectImports file code options (withoutTypes barrelOf) = .ok redirected ∧
      redirected = module.redirect ⟨options, true⟩ barrelOf code ∧
      ∀ declaration manifest, barrelOf declaration.specifier = some manifest →
        let imports := replacingImports ⟨options, true⟩ manifest declaration
        replacementOf? ⟨options, true⟩ barrelOf (.importDeclaration declaration) =
            some ⟨declaration.span,
              "\n".intercalate (imports.map (Import.print declaration.quote))⟩ ∧
          ∀ direct ∈ imports, ∀ entry ∈ direct.named, entry.typeOnly = false := by
  refine ⟨module.redirect ⟨options, true⟩ barrelOf code, ?_, ?_, rfl, ?_⟩
  · rw [redirectImports_of_parses barrelOf parses, javaScript]
    rfl
  · rw [redirectImports_of_parses (withoutTypes barrelOf) parses, javaScript]
    show Except.ok (module.redirect ⟨options, true⟩ _ code) = _
    rw [Module.redirect, Module.redirect, replacements_withoutTypes rfl]
  · intro declaration manifest isBarrel imports
    refine ⟨by simp only [replacementOf?, isBarrel, Option.map_some]; rfl, ?_⟩
    intro direct member entry listed
    cases marked : entry.typeOnly with
    | false => rfl
    | true =>
        have binds : ImportsBind imports entry.name entry.origin direct.module true :=
          ⟨direct, member, rfl, .inr ⟨entry, listed, rfl, rfl, marked⟩⟩
        exact absurd binds (not_importsBind_type rfl manifest declaration _ _ _)

/-- A barrel with a value and a type, both imported by a JavaScript file. -/
theorem javaScript_output_of_value_and_type :
    let manifest : Manifest := .ofList
      [("v", ⟨"v", "a", ".ts", false, false, none⟩), ("T", ⟨"T", "b", ".ts", false, true, none⟩)]
    let code := "import\x7bv,T\x7dfrom'./c'"
    manifest.withoutTypes ≠ manifest ∧
      ∃ redirected,
        redirectImports ⟨"m.js"⟩ code {} (fun _ => some manifest) = .ok redirected ∧
        redirectImports ⟨"m.js"⟩ code {} (withoutTypes fun _ => some manifest) = .ok redirected ∧
        redirected.code = "import \x7b v \x7d from './c/a';" := by
  intro manifest code
  have parsed : (Module.parse? (Language.ofPath ⟨"m.js"⟩) code).isSome = true := by decide +kernel
  have written : (redirectImports ⟨"m.js"⟩ code {} fun _ => some manifest).toOption.map (·.code) =
      some "import \x7b v \x7d from './c/a';" := by
    decide +kernel
  obtain ⟨module, parses⟩ := Option.isSome_iff_exists.mp parsed
  obtain ⟨redirected, full, valuesOnly, -⟩ := javaScript_output_depends_on_values ⟨"m.js"⟩ code {}
    (fun _ => some manifest) module (by decide +kernel) parses
  rw [full] at written
  exact ⟨by decide +kernel, redirected, full, valuesOnly, Option.some.inj written⟩

end Redirection

end BarrelSynthesis
