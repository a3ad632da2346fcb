/-
# Two objects for one barrel

A whole barrel is imported in two forms. `import * as` is replaced by direct imports, each under a local
name of its own, and an object of these names is put behind the imports; a `require` is replaced by an
object of getters. Both objects are read off the same manifest: they have its values as their keys, in
its order, and leave its types out. This module shows that they also hold the same things: the local name
under a key is bound once by the imports, after coalescing has sorted and merged them, and it is bound to
what the getter of that key reads.

A manifest is assumed to be keyed by the identifiers of its entities and to have assets as default exports
only. Calculated barrels have such manifests.
-/
import BarrelSynthesis.Proofs.Barrel.Provenance
import BarrelSynthesis.Proofs.Imports.NamedBindings

namespace BarrelSynthesis

open Source Synthesis

/-! ## The values of a manifest -/

namespace Manifest

/-- The entities of a manifest that are values, in its order. -/
def values (manifest : Manifest) : List Entity :=
  manifest.entities.filter fun entity => !entity.isTypeExport

/-- Every asset is a default export. -/
def HasDefaultAssets (manifest : Manifest) : Prop :=
  ∀ entity ∈ manifest.entities, entity.isExternal = true → entity.isDefaultExport = true

/-- The values of a manifest are its entities that are no type exports. -/
theorem mem_values_iff {manifest : Manifest} {entity : Entity} :
    entity ∈ manifest.values ↔ entity ∈ manifest.entities ∧ entity.isTypeExport = false := by
  rw [values, List.mem_filter, Bool.not_eq_true']

/-- What is made of the values among the entries stands in the order of the values. -/
theorem IsKeyed.filterMap_values {α : Type} {manifest : Manifest} (keyed : manifest.IsKeyed)
    (make : String → Entity → α) :
    (manifest.entries.filterMap fun entry =>
        if entry.2.isTypeExport then none else some (make entry.1 entry.2)) =
      manifest.values.map fun entity => make entity.identifier entity := by
  rw [keyed.entries_eq, List.filterMap_map, values, ← List.filterMap_eq_map, List.filterMap_filter]
  apply List.filterMap_congr
  intro entity _
  cases isType : entity.isTypeExport <;> simp [isType]

end Manifest

namespace Contribution

/-- What a file adds is code of the file, or the one default export that stands for an asset. -/
theorem isDefaultExport_of_mem_entitiesOf {host : FileSystem} {file : Path} {entity : Entity}
    (member : entity ∈ entitiesOf host file) (isAsset : entity.isExternal = true) :
    entity.isDefaultExport = true := by
  rw [entitiesOf] at member
  cases text : host.fileText file with
  | none => simp [text] at member
  | some source =>
      simp only [text, Option.map_some, Option.getD_some, ofSource] at member
      cases read : ModuleExports.ofSource? file source with
      | none =>
          rw [read, Option.getD_none] at member
          obtain rfl := List.mem_singleton.mp member
          rfl
      | some exports =>
          rw [read, Option.getD_some] at member
          rw [ModuleExports.ofSource?] at read
          split at read
          · next extension known =>
              split at read
              · next isCode =>
                  split at read
                  · obtain rfl := Option.some.inj read
                    have ending := (ModuleExports.mem_ofOccurrences member).2
                    simp [Entity.isExternal, ending, isCode] at isAsset
                  · obtain rfl := Option.some.inj read
                    cases member
              · cases read
          · cases read

end Contribution

namespace Barrel

/-- In a barrel that has been calculated every asset is a default export. -/
theorem hasDefaultAssets_calculate (host : FileSystem) (options : CompilerOptions) (folder : Path) :
    (calculate host options folder).barrel.manifest.HasDefaultAssets := by
  intro entity listed isAsset
  have found := mem_entities_calculate_iff.mp listed
  rw [calculate_manifest] at found
  obtain ⟨file, -, inside⟩ := List.mem_flatMap.mp (Manifest.mem_of_get?_writeAll found).1
  exact Contribution.isDefaultExport_of_mem_entitiesOf inside isAsset

end Barrel

namespace Redirection

variable {settings : Settings} {manifest : Manifest}

/-! ## The imports of a namespace -/

/-- A direct import binds its one local name. -/
theorem localNames_directImport (settings : Settings) (base : String) (entity : Entity)
    (localName : String) (typeOnly : Bool) :
    (directImport settings base entity localName typeOnly).localNames = [localName] := by
  rw [directImport]
  split <;> rfl

/-- The imports of a namespace bind the names made of its keys, each at most once. -/
theorem localNames_expandNamespace_sublist (settings : Settings) (base : String)
    (manifest : Manifest) (typeOnly : Bool) (name : String) :
    (localNames (expandNamespace settings base manifest typeOnly name)).Sublist
      (manifest.keys.map (namespacedName name)) := by
  rw [expandNamespace, Manifest.keys]
  induction manifest.entries with
  | nil => exact .refl _
  | cons entry rest ih =>
      rw [List.filterMap_cons]
      split
      · exact .cons _ ih
      · next direct kept =>
          have named : direct.localNames = [namespacedName name entry.1] := by
            obtain ⟨-, made⟩ := Option.ite_none_left_eq_some.mp kept
            rw [← Option.some.inj made, localNames_directImport]
          rw [localNames, List.flatMap_cons, named]
          exact .cons_cons _ ih

/-- No two keys of a manifest give the same name. -/
theorem nodup_namespacedNames (manifest : Manifest) (name : String) :
    (manifest.keys.map (namespacedName name)).Nodup :=
  manifest.nodup_keys.map fun _ _ same => (String.append_right_inj name).mp same

/-- A namespace expands to imports that bind no name twice. -/
theorem nodup_localNames_expandNamespace (settings : Settings) (base : String)
    (manifest : Manifest) (typeOnly : Bool) (name : String) :
    (localNames (expandNamespace settings base manifest typeOnly name)).Nodup :=
  (nodup_namespacedNames manifest name).sublist
    (localNames_expandNamespace_sublist settings base manifest typeOnly name)

/-- Every value of a barrel is imported under the name made of its key. -/
theorem expandNamespace_binds_entry {base name key : String} {entity : Entity}
    (listed : (key, entity) ∈ manifest.entries) (isValue : entity.isTypeExport = false) :
    ImportsBind (expandNamespace settings base manifest false name) (namespacedName name key)
      entity.exportedName (Specifier.origin base entity settings.options) false := by
  refine ⟨directImport settings base entity (namespacedName name key) false, ?_,
    directImport_module settings base entity _ false, directImport_binds_iff.mpr ⟨rfl, rfl, rfl⟩⟩
  exact List.mem_filterMap.mpr ⟨_, listed, by simp [isValue]⟩

/-- Where the keys are the identifiers, every value is imported under the name made of its identifier. -/
theorem expandNamespace_binds_value {base name : String} {entity : Entity}
    (keyed : manifest.IsKeyed) (isValue : entity ∈ manifest.values) :
    ImportsBind (expandNamespace settings base manifest false name)
      (namespacedName name entity.identifier) entity.exportedName
      (Specifier.origin base entity settings.options) false := by
  obtain ⟨listed, notType⟩ := Manifest.mem_values_iff.mp isValue
  have entry : (entity.identifier, entity) ∈ manifest.entries := by
    rw [keyed.entries_eq]
    exact List.mem_map_of_mem listed
  exact expandNamespace_binds_entry entry notType

/-! ## The two objects -/

/-- The object of a namespace has a property for each value, in the order of the manifest. -/
theorem namespaceObject_properties (keyed : manifest.IsKeyed) (name : String) :
    (namespaceObject manifest name).properties =
      manifest.values.map fun entity =>
        (entity.identifier, namespacedName name entity.identifier) :=
  keyed.filterMap_values fun key _ => (key, namespacedName name key)

/-- The object of a required barrel has a getter for each value, in the order of the manifest, which reads
it from its origin. -/
theorem requireObject_properties (keyed : manifest.IsKeyed) (settings : Settings)
    (specifier : String) :
    (requireObject settings manifest specifier).properties =
      manifest.values.map fun entity =>
        ⟨entity.identifier,
          Specifier.origin (Specifier.barrelBase specifier) entity settings.options,
          if entity.isExternal then none else some entity.exportedName⟩ := by
  simp only [Entity.exportedName, apply_ite some]
  exact keyed.filterMap_values fun key entity =>
    RequireProperty.mk key
      (Specifier.origin (Specifier.barrelBase specifier) entity settings.options)
      (if entity.isExternal then none
        else if entity.isDefaultExport then some "default" else some entity.identifier)

/-! ## The objects of a module -/

/-- Adding an object puts its name behind the others, unless it is there. -/
theorem map_name_addObject (objects : List NamespaceObject) (object : NamespaceObject) :
    (addObject object objects).map (·.name) =
      if object.name ∈ objects.map (·.name) then objects.map (·.name)
      else objects.map (·.name) ++ [object.name] := by
  induction objects with
  | nil => rfl
  | cons other rest ih =>
      rw [addObject]
      split
      · next same => simp [same]
      · next differs =>
          rw [List.map_cons, ih, List.map_cons]
          by_cases listed : object.name ∈ rest.map (·.name) <;>
            simp [listed, Ne.symm differs]

/-- The objects of a module stand in the order in which their names first appear. -/
theorem map_name_namespaceObjects (barrelOf : String → Option Manifest) (module : Module) :
    (namespaceObjects barrelOf module).map (·.name) =
      ((module.references.filterMap (objectOf? barrelOf)).map (·.name)).eraseDups :=
  keys_foldl_eq_eraseDups map_name_addObject rfl _

/-- The objects of a name among those of a module. -/
def objectsNamed (name : String) (objects : List NamespaceObject) : List NamespaceObject :=
  objects.filter (·.name = name)

/-- Adding an object leaves those of other names alone. -/
theorem objectsNamed_addObject_of_ne {name : String} {object : NamespaceObject}
    (differs : object.name ≠ name) (objects : List NamespaceObject) :
    objectsNamed name (addObject object objects) = objectsNamed name objects := by
  rw [objectsNamed, objectsNamed]
  induction objects with
  | nil => simp [addObject, differs]
  | cons other rest ih =>
      rw [addObject]
      split
      · next same => simp [differs, same]
      · rw [List.filter_cons, List.filter_cons, ih]

/-- Adding an object where at most one has its name leaves it as the only one of its name. -/
theorem objectsNamed_addObject_self {object : NamespaceObject} {objects : List NamespaceObject}
    (atMostOne : (objectsNamed object.name objects).length ≤ 1) :
    objectsNamed object.name (addObject object objects) = [object] := by
  rw [objectsNamed] at atMostOne ⊢
  induction objects with
  | nil => simp [addObject]
  | cons other rest ih =>
      rw [addObject]
      split
      · next same =>
          have none : rest.filter (fun other => other.name = object.name) = [] := by
            simpa [List.filter_cons, same] using atMostOne
          simp [none]
      · next differs =>
          simp only [List.filter_cons, differs, decide_false, Bool.false_eq_true, if_false]
            at atMostOne ⊢
          exact ih atMostOne

/-- However objects are added, no two have the same name. -/
theorem length_objectsNamed_foldl (name : String) {found objects : List NamespaceObject}
    (atMostOne : (objectsNamed name objects).length ≤ 1) :
    (objectsNamed name
      (found.foldl (fun objects object => addObject object objects) objects)).length ≤ 1 := by
  induction found generalizing objects with
  | nil => exact atMostOne
  | cons object rest ih =>
      apply ih
      by_cases same : object.name = name
      · subst same
        rw [objectsNamed_addObject_self atMostOne]
        exact Nat.le_refl 1
      · rw [objectsNamed_addObject_of_ne same]
        exact atMostOne

/-- At most one object of each name is injected. -/
theorem length_objectsNamed_le_one (name : String) (barrelOf : String → Option Manifest)
    (module : Module) : (objectsNamed name (namespaceObjects barrelOf module)).length ≤ 1 :=
  length_objectsNamed_foldl name (Nat.zero_le 1)

/-- The last object of a name is the one that a module gets. -/
theorem objectsNamed_namespaceObjects {barrelOf : String → Option Manifest} {module : Module}
    {before after : List Reference} {reference : Reference} {object : NamespaceObject}
    (stands : module.references = before ++ reference :: after)
    (needs : objectOf? barrelOf reference = some object)
    (last : ∀ later ∈ after, ∀ other, objectOf? barrelOf later = some other →
      other.name ≠ object.name) :
    objectsNamed object.name (namespaceObjects barrelOf module) = [object] := by
  have untouched : ∀ (found objects : List NamespaceObject),
      (∀ other ∈ found, other.name ≠ object.name) →
        objectsNamed object.name
            (found.foldl (fun objects object => addObject object objects) objects) =
          objectsNamed object.name objects := by
    intro found
    induction found with
    | nil => exact fun _ _ => rfl
    | cons first rest ih =>
        intro objects differ
        rw [List.foldl_cons, ih _ fun other member => differ other (List.mem_cons_of_mem _ member)]
        exact objectsNamed_addObject_of_ne (differ first List.mem_cons_self) objects
  rw [namespaceObjects, stands, List.filterMap_append, List.filterMap_cons_some needs,
    List.foldl_append, List.foldl_cons, untouched]
  · apply objectsNamed_addObject_self
    exact length_objectsNamed_foldl _ (Nat.zero_le 1)
  · intro other member
    obtain ⟨later, listed, found⟩ := List.mem_filterMap.mp member
    exact last later listed other found

/-- An object is put into a module: it is the only one of its name, and the text that is added behind the
last import is that of all objects. -/
structure Injected (settings : Settings) (barrelOf : String → Option Manifest) (module : Module)
    (object : NamespaceObject) : Prop where
  only : objectsNamed object.name (namespaceObjects barrelOf module) = [object]
  printed : ⟨⟨lastImportEnd module, lastImportEnd module⟩,
      objectsText (namespaceObjects barrelOf module)⟩ ∈ replacements settings barrelOf module

/-- An injected object is among the objects of the module. -/
theorem Injected.mem {barrelOf : String → Option Manifest} {module : Module}
    {object : NamespaceObject} (injected : Injected settings barrelOf module object) :
    object ∈ namespaceObjects barrelOf module := by
  have named : object ∈ objectsNamed object.name (namespaceObjects barrelOf module) := by
    rw [injected.only]
    exact List.mem_singleton_self object
  exact (List.mem_filter.mp named).1

/-- Every object that a module needs is put into it. -/
theorem injected_of_mem {barrelOf : String → Option Manifest} {module : Module}
    {object : NamespaceObject} (inside : object ∈ namespaceObjects barrelOf module) :
    Injected settings barrelOf module object := by
  refine ⟨?_, ?_⟩
  · have named : object ∈ objectsNamed object.name (namespaceObjects barrelOf module) :=
      List.mem_filter.mpr ⟨inside, decide_eq_true rfl⟩
    obtain ⟨other, single⟩ := List.length_eq_one_iff.mp
      (Nat.le_antisymm (length_objectsNamed_le_one ..) (List.length_pos_of_mem named))
    rw [single] at named ⊢
    rw [List.mem_singleton.mp named]
  · rw [replacements, if_neg fun empty => List.ne_nil_of_mem inside (List.isEmpty_iff.mp empty)]
    exact List.mem_append_right _ (List.mem_singleton_self _)

/-- The object of a reference is injected if no later reference needs another of the same name. -/
theorem injected_of_last {barrelOf : String → Option Manifest} {module : Module}
    {before after : List Reference} {reference : Reference} {object : NamespaceObject}
    (stands : module.references = before ++ reference :: after)
    (needs : objectOf? barrelOf reference = some object)
    (last : ∀ later ∈ after, ∀ other, objectOf? barrelOf later = some other →
      other.name ≠ object.name) :
    Injected settings barrelOf module object := by
  have only := objectsNamed_namespaceObjects stands needs last
  have named : object ∈ objectsNamed object.name (namespaceObjects barrelOf module) := by
    rw [only]
    exact List.mem_singleton_self object
  exact injected_of_mem (List.mem_filter.mp named).1

/-- The object that stands for `import * as` of a barrel and the object that stands for a `require` of it
have the same keys in the same order, the values of the manifest. Under each key the one holds a local
name that the imports bind exactly once, to the export of the entity in its module, and the other has a
getter that reads this export of this module, or the whole module where the import takes the default of
an asset. This holds whether type imports are left out, as in a JavaScript file, or not. -/
theorem namespace_object_agrees_with_require (settings : Settings)
    (barrelOf : String → Option Manifest) (manifest : Manifest) (declaration : ImportDeclaration)
    (bindings : List ImportBinding) (name : String)
    (keyed : manifest.IsKeyed) (assets : manifest.HasDefaultAssets)
    (isValueImport : declaration.typeOnly = false) (clause : declaration.bindings = some bindings)
    (isWhole : namespaceOf? bindings = some name)
    (isBarrel : barrelOf declaration.specifier = some manifest) :
    let imports := replacingImports settings manifest declaration
    let origin := fun entity =>
      Specifier.origin (Specifier.barrelBase declaration.specifier) entity settings.options
    replacementOf? settings barrelOf (.importDeclaration declaration) =
        some ⟨declaration.span, "\n".intercalate (imports.map (Import.print declaration.quote))⟩ ∧
      (∃ (object : NamespaceObject) (localName : Entity → String),
        objectOf? barrelOf (.importDeclaration declaration) = some object ∧
        object.name = name ∧
        object.properties = manifest.values.map (fun entity =>
          (entity.identifier, localName entity)) ∧
        (∀ entity ∈ manifest.values,
          BoundOnce imports (localName entity) entity.exportedName (origin entity)) ∧
        ∀ module before after,
          module.references = before ++ .importDeclaration declaration :: after →
          (∀ later ∈ after, ∀ other, objectOf? barrelOf later = some other → other.name ≠ name) →
          Injected settings barrelOf module object) ∧
      ∀ call, barrelOf call.specifier = some manifest →
        Specifier.barrelBase call.specifier = Specifier.barrelBase declaration.specifier →
        ∃ object : RequireObject,
          replacementOf? settings barrelOf (.requireCall call) =
            some ⟨call.span, object.print call.quote⟩ ∧
          object.properties = manifest.values.map (fun entity =>
            ⟨entity.identifier, origin entity,
              if entity.isExternal then none else some entity.exportedName⟩) ∧
          ∀ entity ∈ manifest.values, entity.isExternal = true →
            entity.exportedName = "default" := by
  intro imports origin
  have expanded : expandImport settings manifest declaration =
      expandNamespace settings (Specifier.barrelBase declaration.specifier) manifest false name := by
    simp only [expandImport, clause, isWhole, isValueImport]
  refine ⟨by simp only [replacementOf?, isBarrel, Option.map_some]; rfl,
    ⟨namespaceObject manifest name, fun entity => namespacedName name entity.identifier, ?_, rfl,
      namespaceObject_properties keyed name, ?_, ?_⟩, ?_⟩
  · simp [objectOf?, isValueImport, isBarrel, clause, isWhole]
  · intro entity isValue
    apply boundOnce_coalesceImports
    · rw [expanded]
      exact nodup_localNames_expandNamespace settings _ manifest false name
    · rw [expanded]
      exact expandNamespace_binds_value keyed isValue
  · intro module before after stands last
    refine injected_of_last stands ?_ last
    simp [objectOf?, isValueImport, isBarrel, clause, isWhole]
  · intro call calledBarrel sameBase
    refine ⟨requireObject settings manifest call.specifier, ?_, ?_, ?_⟩
    · simp only [replacementOf?, calledBarrel, Option.map_some]
    · rw [requireObject_properties keyed, sameBase]
    · intro entity isValue isAsset
      have isDefault := assets entity (Manifest.mem_values_iff.mp isValue).1 isAsset
      rw [Entity.exportedName, if_pos isDefault]

/-- The namespace of a barrel with a value, a type and an asset, in a JavaScript file. -/
theorem namespace_object_of_value_and_asset :
    let manifest : Manifest := .ofList
      [("value", ⟨"value", "a", ".ts", false, false, none⟩),
       ("T", ⟨"T", "a", ".ts", false, true, none⟩),
       ("bJson", ⟨"bJson", "b.json", ".json", true, false, none⟩)]
    let declaration : ImportDeclaration := ⟨some [.whole "ns"], "./c/index", '"', false, ⟨0, 34⟩⟩
    manifest.values.map (·.identifier) = ["value", "bJson"] ∧
      ∃ (object : NamespaceObject) (localName : Entity → String),
        objectOf? (fun _ => some manifest) (.importDeclaration declaration) = some object ∧
        object.properties = manifest.values.map (fun entity =>
          (entity.identifier, localName entity)) ∧
        ∀ entity ∈ manifest.values,
          BoundOnce (replacingImports ⟨{}, true⟩ manifest declaration) (localName entity)
            entity.exportedName (Specifier.origin "./c" entity {}) := by
  intro manifest declaration
  have keyed : manifest.IsKeyed := by
    unfold Manifest.IsKeyed
    decide +kernel
  have assets : manifest.HasDefaultAssets := by
    unfold Manifest.HasDefaultAssets
    decide +kernel
  have base : Specifier.barrelBase declaration.specifier = "./c" := by decide
  have agreement := namespace_object_agrees_with_require ⟨{}, true⟩ (fun _ => some manifest) manifest
    declaration [.whole "ns"] "ns" keyed assets rfl rfl rfl rfl
  rw [base] at agreement
  obtain ⟨-, ⟨object, localName, needed, -, properties, bound, -⟩, -⟩ := agreement
  exact ⟨by decide +kernel, object, localName, needed, properties, bound⟩

end Redirection

end BarrelSynthesis
