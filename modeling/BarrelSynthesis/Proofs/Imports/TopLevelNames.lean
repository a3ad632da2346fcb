/-
# Names at the top level of a redirected module

The imports that are put into a module share its scope with everything that stays there. An import by name
binds what it bound before, as far as the barrel knows it. An `import * as` gives way to one name for
every key of the barrel, the name of the namespace followed by the key, and an object takes the name of
the namespace. A joint name is made of two names alone, and no other name in the scope is looked at. So the
names of a redirected module are distinct exactly when no joint name happens to be another name of the
scope.

That reading the redirected text finds the names that were left in it, and those that were put into it, is
the business of the parser, and is assumed of one text where it is needed.
-/
import BarrelSynthesis.Proofs.Imports.NamespaceObject
import BarrelSynthesis.Source.Exports

namespace BarrelSynthesis

open Source Synthesis

/-! ## The names of a module -/

/-- The names that an import declaration binds. -/
def Source.ImportDeclaration.localNames (declaration : ImportDeclaration) : List String :=
  (declaration.bindings.getD []).map fun binding => binding.localName.1

/-- The name that a default export declares. -/
def Source.DefaultExport.declaredName? : DefaultExport → Option String
  | .function name => name
  | .class name => name
  | .interface name => some name
  | .reference _ => none
  | .expression => none

/-- The names that a top-level statement binds. -/
def Source.Statement.boundNames : Source.Statement → List String
  | .importDeclaration imported => imported.localNames
  | .exportDeclaration declared => declared.declaredNames.map (·.name)
  | .declaration declared => declared.declaredNames.map (·.name)
  | .exportDefault value _ => value.declaredName?.toList
  | _ => []

/-- The names that are bound at the top level of a module, each as often as it is bound. -/
def Source.Module.boundNames (module : Module) : List String :=
  module.statements.flatMap Statement.boundNames

namespace Manifest

/-- The local names of an import by name that a manifest knows. -/
def knownNames (manifest : Manifest) (bindings : List ImportBinding) : List String :=
  bindings.filterMap fun
    | .named imported localName _ => if (manifest.get? imported).isSome then some localName else none
    | _ => none

/-- The known names are some of the imported ones, in their order. -/
theorem knownNames_sublist (manifest : Manifest) (bindings : List ImportBinding) :
    (manifest.knownNames bindings).Sublist (bindings.map fun binding => binding.localName.1) := by
  induction bindings with
  | nil => exact .refl _
  | cons binding rest ih =>
      rw [knownNames, List.filterMap_cons]
      split
      · exact .cons _ ih
      · next name known =>
          have same : name = binding.localName.1 := by
            cases binding with
            | default _ => cases known
            | whole _ => cases known
            | named imported localName mark =>
                simp only [Option.ite_none_right_eq_some] at known
                exact (Option.some.inj known.2).symm
          rw [List.map_cons, ← same]
          exact .cons_cons _ ih

end Manifest

namespace Redirection

variable {settings : Settings} {barrelOf : String → Option Manifest} {module : Module}

/-! ## What a statement keeps, and what it gets -/

/-- The namespace that a statement binds of a barrel, together with the manifest of the barrel. -/
def barrelNamespace? (barrelOf : String → Option Manifest) :
    Source.Statement → Option (String × Manifest)
  | .importDeclaration declaration =>
    match barrelOf declaration.specifier, namespaceOf? (declaration.bindings.getD []) with
    | some manifest, some name => some (name, manifest)
    | _, _ => none
  | _ => none

/-- The namespaces of barrels that a module binds at its top level. -/
def barrelNamespaces (barrelOf : String → Option Manifest) (module : Module) :
    List (String × Manifest) :=
  module.statements.filterMap (barrelNamespace? barrelOf)

/-- The names under which a namespace is imported, one for every key. -/
def jointNames (binding : String × Manifest) : List String :=
  binding.2.keys.map (namespacedName binding.1)

/-- The names that a statement keeps: all of them, unless it is an import of a barrel. -/
def keptNames (barrelOf : String → Option Manifest) : Source.Statement → List String
  | .importDeclaration declaration =>
    match barrelOf declaration.specifier with
    | none => declaration.localNames
    | some manifest =>
      match namespaceOf? (declaration.bindings.getD []) with
      | some _ => []
      | none => manifest.knownNames (declaration.bindings.getD [])
  | statement => statement.boundNames

/-- The names that are bound in the place of a statement. -/
def putNames (settings : Settings) (barrelOf : String → Option Manifest) :
    Source.Statement → List String
  | .importDeclaration declaration =>
    match barrelOf declaration.specifier with
    | none => declaration.localNames
    | some manifest => localNames (replacingImports settings manifest declaration)
  | statement => statement.boundNames

/-- The names that the redirected text of a module binds at its top level. -/
def namesAfter (settings : Settings) (barrelOf : String → Option Manifest) (module : Module) :
    List String :=
  module.statements.flatMap (putNames settings barrelOf) ++
    (namespaceObjects barrelOf module).map (·.name)

/-- The name of a whole barrel is one of the local names. -/
theorem mem_localNames_of_namespaceOf? {bindings : List ImportBinding} {name : String}
    (isWhole : namespaceOf? bindings = some name) :
    name ∈ bindings.map fun binding => binding.localName.1 := by
  obtain ⟨binding, listed, found⟩ := List.exists_of_findSome?_eq_some isWhole
  refine List.mem_map.mpr ⟨binding, listed, ?_⟩
  cases binding with
  | whole localName => exact Option.some.inj found
  | default localName => cases found
  | named imported localName mark => cases found

/-- Imports that each bind one name bind these names in order. -/
theorem localNames_filterMap {α : Type} {items : List α} {expand : α → Option Synthesis.Import}
    {name? : α → Option String}
    (binds : ∀ item ∈ items, (expand item).map Import.localNames = (name? item).map ([·])) :
    localNames (items.filterMap expand) = items.filterMap name? := by
  induction items with
  | nil => rfl
  | cons item rest ih =>
      have later := ih fun other listed => binds other (List.mem_cons_of_mem _ listed)
      have here := binds item List.mem_cons_self
      cases expanded : expand item with
      | none =>
          rw [expanded] at here
          rw [List.filterMap_cons_none expanded,
            List.filterMap_cons_none (Option.map_eq_none_iff.mp here.symm), later]
      | some direct =>
          rw [expanded] at here
          obtain ⟨name, named, same⟩ := Option.map_eq_some_iff.mp here.symm
          rw [List.filterMap_cons_some expanded, List.filterMap_cons_some named, localNames,
            List.flatMap_cons, ← same]
          exact congrArg (List.cons name) later

/-- The imports for the bindings of an import by name bind the names that the manifest knows. -/
theorem localNames_expandBindings (keepsTypes : settings.stripTypes = false) (base : String)
    (manifest : Manifest) (typeOnly : Bool) (bindings : List ImportBinding) :
    localNames (bindings.filterMap (expandBinding settings base manifest typeOnly)) =
      manifest.knownNames bindings := by
  apply localNames_filterMap
  intro binding _
  cases binding with
  | default localName => rfl
  | whole localName => rfl
  | named imported localName mark =>
      rw [expandBinding]
      cases found : manifest.get? imported with
      | none => simp [found]
      | some entity => simp [found, keepsTypes, localNames_directImport]

/-- Where types are kept, the imports of a namespace bind a name for every key. -/
theorem localNames_expandNamespace (keepsTypes : settings.stripTypes = false) (base : String)
    (manifest : Manifest) (typeOnly : Bool) (name : String) :
    localNames (expandNamespace settings base manifest typeOnly name) =
      jointNames (name, manifest) := by
  rw [jointNames, Manifest.keys, List.map_map, ← List.filterMap_eq_map]
  apply localNames_filterMap
  intro entry _
  simp [keepsTypes, localNames_directImport]

/-- An import of a barrel without a clause binds no name. -/
theorem localNames_expandSideEffect (settings : Settings) (base : String) (manifest : Manifest) :
    localNames (expandSideEffect settings base manifest) = [] := by
  rw [localNames, expandSideEffect, List.flatMap_map]
  exact List.flatMap_eq_nil_iff.mpr fun _ _ => rfl

/-- Before they are coalesced, the imports in the place of a statement bind what it keeps and what it
gets. -/
theorem localNames_expandImport (keepsTypes : settings.stripTypes = false) {manifest : Manifest}
    {declaration : ImportDeclaration} (isBarrel : barrelOf declaration.specifier = some manifest) :
    localNames (expandImport settings manifest declaration) =
      keptNames barrelOf (.importDeclaration declaration) ++
        ((barrelNamespace? barrelOf (.importDeclaration declaration)).toList.flatMap jointNames) := by
  rw [expandImport]
  simp only [keptNames, barrelNamespace?, isBarrel]
  cases declaration.bindings with
  | none =>
      rw [localNames_expandSideEffect]
      rfl
  | some bindings =>
      simp only [Option.getD_some]
      cases namespaceOf? bindings with
      | some name =>
          simp only [localNames_expandNamespace keepsTypes]
          exact (List.append_nil _).symm
      | none =>
          simp only [localNames_expandBindings keepsTypes]
          exact (List.append_nil _).symm

/-! ## The scope of the module -/

/-- A statement keeps some of the names it binds. -/
theorem keptNames_sublist (barrelOf : String → Option Manifest) (statement : Source.Statement) :
    (keptNames barrelOf statement).Sublist statement.boundNames := by
  cases statement with
  | importDeclaration declaration =>
      rw [keptNames, Statement.boundNames]
      cases barrelOf declaration.specifier with
      | none => exact .refl _
      | some manifest =>
          cases namespaceOf? (declaration.bindings.getD []) with
          | some name => exact List.nil_sublist _
          | none => exact manifest.knownNames_sublist _
  | _ => exact .refl _

/-- The namespace of a barrel is a name that the statement binds. -/
theorem barrelNamespace?_sublist (barrelOf : String → Option Manifest)
    (statement : Source.Statement) :
    ((barrelNamespace? barrelOf statement).toList.map (·.1)).Sublist statement.boundNames := by
  cases statement with
  | importDeclaration declaration =>
      rw [barrelNamespace?, Statement.boundNames]
      cases barrelOf declaration.specifier with
      | none => exact List.nil_sublist _
      | some manifest =>
          cases isWhole : namespaceOf? (declaration.bindings.getD []) with
          | none => exact List.nil_sublist _
          | some name => exact List.singleton_sublist.mpr (mem_localNames_of_namespaceOf? isWhole)
  | _ => exact List.nil_sublist _

/-- Each key of a namespace has a joint name of its own. -/
theorem nodup_jointNames (binding : String × Manifest) : (jointNames binding).Nodup :=
  nodup_namespacedNames binding.2 binding.1

/-- A statement of distinct names keeps distinct names, and those it gets are distinct. It does not do
both. -/
theorem nodup_keptNames_append (barrelOf : String → Option Manifest)
    {statement : Source.Statement} (distinct : statement.boundNames.Nodup) :
    (keptNames barrelOf statement ++
      (barrelNamespace? barrelOf statement).toList.flatMap jointNames).Nodup := by
  have kept := distinct.sublist (keptNames_sublist barrelOf statement)
  cases got : barrelNamespace? barrelOf statement with
  | none => simpa using kept
  | some binding =>
      have nothingKept : keptNames barrelOf statement = [] := by
        cases statement with
        | importDeclaration declaration =>
            rw [barrelNamespace?] at got
            rw [keptNames]
            split at got
            · next manifest name isBarrel isWhole => simp only [isBarrel, isWhole]
            · cases got
        | _ => cases got
      rw [nothingKept]
      simpa using nodup_jointNames binding

/-- In the place of a statement of distinct names stand the names it keeps and those it gets. -/
theorem putNames_perm (keepsTypes : settings.stripTypes = false) {statement : Source.Statement}
    (distinct : statement.boundNames.Nodup) :
    (putNames settings barrelOf statement).Perm
      (keptNames barrelOf statement ++
        (barrelNamespace? barrelOf statement).toList.flatMap jointNames) := by
  cases statement with
  | importDeclaration declaration =>
      cases isBarrel : barrelOf declaration.specifier with
      | none => simp [putNames, keptNames, barrelNamespace?, isBarrel]
      | some manifest =>
          have apart := nodup_keptNames_append barrelOf distinct
          rw [← localNames_expandImport keepsTypes isBarrel] at apart ⊢
          simp only [putNames, isBarrel]
          exact localNames_coalesceImports_perm apart
  | _ => simp [putNames, keptNames, barrelNamespace?]

/-- The names that a redirected module binds are those that its statements keep, those that stand for the
namespaces of barrels, and those of the objects. -/
theorem namesAfter_perm (keepsTypes : settings.stripTypes = false)
    (distinct : module.boundNames.Nodup) :
    (namesAfter settings barrelOf module).Perm
      (module.statements.flatMap (keptNames barrelOf) ++
        (barrelNamespaces barrelOf module).flatMap jointNames ++
        (namespaceObjects barrelOf module).map (·.name)) := by
  have each := (List.nodup_flatMap.mp distinct).1
  have gathered : (barrelNamespaces barrelOf module).flatMap jointNames =
      module.statements.flatMap fun statement =>
        (barrelNamespace? barrelOf statement).toList.flatMap jointNames := by
    rw [barrelNamespaces, List.filterMap_eq_flatMap_toList, List.flatMap_assoc]
  rw [namesAfter, gathered]
  apply List.Perm.append_right
  refine List.Perm.trans ?_ (List.flatMap_append_perm module.statements _ _).symm
  exact List.Perm.flatMap_left _ fun statement listed => putNames_perm keepsTypes (each statement listed)

/-- No two objects of a module have the same name. -/
theorem nodup_objectNames (barrelOf : String → Option Manifest) (module : Module) :
    ((namespaceObjects barrelOf module).map (·.name)).Nodup := by
  rw [List.nodup_iff_count_le_one]
  intro name
  have counted : ((namespaceObjects barrelOf module).map (·.name)).count name =
      (objectsNamed name (namespaceObjects barrelOf module)).length := by
    rw [List.count, List.countP_map, List.countP_eq_length_filter]
    rfl
  rw [counted]
  exact length_objectsNamed_le_one name barrelOf module

/-- The namespaces that a module of distinct names binds have distinct names. -/
theorem nodup_barrelNamespaces (distinct : module.boundNames.Nodup) :
    ((barrelNamespaces barrelOf module).map (·.1)).Nodup := by
  rw [barrelNamespaces, List.filterMap_eq_flatMap_toList, List.map_flatMap]
  refine List.Nodup.sublist ?_ distinct
  exact List.Sublist.flatMap_right _ fun statement _ => barrelNamespace?_sublist barrelOf statement

/-! ## When names collide -/

/-- The names that stand for some namespaces are distinct when those of two namespaces never meet. -/
theorem nodup_flatMap_jointNames_iff {bindings : List (String × Manifest)}
    (distinct : (bindings.map (·.1)).Nodup) :
    (bindings.flatMap jointNames).Nodup ↔
      ∀ one ∈ bindings, ∀ other ∈ bindings, one.1 ≠ other.1 →
        ∀ key ∈ one.2.keys, ∀ otherKey ∈ other.2.keys,
          namespacedName one.1 key ≠ namespacedName other.1 otherKey := by
  rw [List.nodup_flatMap, and_iff_right fun binding _ => nodup_jointNames binding]
  constructor
  · intro apart one oneListed other otherListed differ key keyListed otherKey otherKeyListed same
    have : Std.Symm (Function.onFun List.Disjoint jointNames) :=
      ⟨fun _ _ => List.disjoint_symm⟩
    have two : one ≠ other := fun equal => differ (congrArg Prod.fst equal)
    apply apart.forall oneListed otherListed two
    · exact List.mem_map_of_mem keyListed
    · rw [same]
      exact List.mem_map_of_mem otherKeyListed
  · intro apart
    apply (List.pairwise_map.mp distinct).imp_of_mem
    intro one other oneListed otherListed differ name left right
    obtain ⟨key, keyListed, rfl⟩ := List.mem_map.mp left
    obtain ⟨otherKey, otherKeyListed, same⟩ := List.mem_map.mp right
    exact apart one oneListed other otherListed differ key keyListed otherKey otherKeyListed same.symm

/-- The names in the scope of a redirected module keep apart: those that stand for one namespace are not
those that stand for another, none of them is the name of an object, and neither they nor the names of
objects are names that stay in the module. An object has the name of a namespace, so that only an import
below the top level can give it a name that stays. -/
structure KeepsApart (barrelOf : String → Option Manifest) (module : Module) : Prop where
  namespaces : ∀ one ∈ barrelNamespaces barrelOf module, ∀ other ∈ barrelNamespaces barrelOf module,
    one.1 ≠ other.1 → ∀ key ∈ one.2.keys, ∀ otherKey ∈ other.2.keys,
      namespacedName one.1 key ≠ namespacedName other.1 otherKey
  kept : ∀ binding ∈ barrelNamespaces barrelOf module, ∀ key ∈ binding.2.keys,
    namespacedName binding.1 key ∉ module.statements.flatMap (keptNames barrelOf)
  objects : ∀ binding ∈ barrelNamespaces barrelOf module, ∀ key ∈ binding.2.keys,
    ∀ object ∈ namespaceObjects barrelOf module, namespacedName binding.1 key ≠ object.name
  keptObjects : ∀ object ∈ namespaceObjects barrelOf module,
    object.name ∉ module.statements.flatMap (keptNames barrelOf)

/-- The names of a redirected module are distinct exactly when the names that are put into it keep apart
from each other and from those that stay. -/
theorem nodup_namesAfter_iff (keepsTypes : settings.stripTypes = false)
    (distinct : module.boundNames.Nodup) :
    (namesAfter settings barrelOf module).Nodup ↔ KeepsApart barrelOf module := by
  have kept : (module.statements.flatMap (keptNames barrelOf)).Nodup :=
    distinct.sublist (List.Sublist.flatMap_right _ fun statement _ =>
      keptNames_sublist barrelOf statement)
  rw [(namesAfter_perm keepsTypes distinct).nodup_iff, List.nodup_append, List.nodup_append,
    nodup_flatMap_jointNames_iff (nodup_barrelNamespaces distinct)]
  constructor
  · rintro ⟨⟨-, namespaces, keptApart⟩, -, objectsApart⟩
    refine ⟨namespaces, ?_, ?_, ?_⟩
    · intro binding listed key keyListed stays
      exact keptApart _ stays _
        (List.mem_flatMap.mpr ⟨binding, listed, List.mem_map_of_mem keyListed⟩) rfl
    · intro binding listed key keyListed object objectListed
      refine objectsApart _ (List.mem_append_right _ ?_) _ (List.mem_map_of_mem objectListed)
      exact List.mem_flatMap.mpr ⟨binding, listed, List.mem_map_of_mem keyListed⟩
    · intro object objectListed stays
      exact objectsApart _ (List.mem_append_left _ stays) _ (List.mem_map_of_mem objectListed) rfl
  · intro apart
    refine ⟨⟨kept, apart.namespaces, ?_⟩, nodup_objectNames barrelOf module, ?_⟩
    · rintro name stays _ joint rfl
      obtain ⟨binding, listed, named⟩ := List.mem_flatMap.mp joint
      obtain ⟨key, keyListed, rfl⟩ := List.mem_map.mp named
      exact apart.kept binding listed key keyListed stays
    · rintro name put _ objectName rfl
      obtain ⟨object, objectListed, rfl⟩ := List.mem_map.mp objectName
      rcases List.mem_append.mp put with stays | joint
      · exact apart.keptObjects object objectListed stays
      · obtain ⟨binding, listed, named⟩ := List.mem_flatMap.mp joint
        obtain ⟨key, keyListed, same⟩ := List.mem_map.mp named
        exact apart.objects binding listed key keyListed object objectListed same

/-- Redirecting a TypeScript file whose top-level names are distinct succeeds. The names that are left in the
module and put into it are distinct exactly when they keep apart, and so are the names of the redirected
text when it is read back as these. -/
theorem redirected_names_distinct_iff (file : Path) (code : String) (options : CompilerOptions)
    (barrelOf : String → Option Manifest) (module : Module)
    (typeScript : (Language.ofPath file).typeScript = true)
    (parses : Module.parse? (Language.ofPath file) code = some module)
    (distinct : module.boundNames.Nodup) :
    ∃ redirected, redirectImports file code options barrelOf = .ok redirected ∧
      ((namesAfter ⟨options, false⟩ barrelOf module).Nodup ↔ KeepsApart barrelOf module) ∧
      ∀ again, Module.parse? (Language.ofPath file) redirected.code = some again →
        again.boundNames.Perm (namesAfter ⟨options, false⟩ barrelOf module) →
          (again.boundNames.Nodup ↔ KeepsApart barrelOf module) := by
  have apart : (namesAfter ⟨options, false⟩ barrelOf module).Nodup ↔ KeepsApart barrelOf module :=
    nodup_namesAfter_iff rfl distinct
  refine ⟨module.redirect ⟨options, false⟩ barrelOf code, ?_, apart, ?_⟩
  · rw [redirectImports_of_parses barrelOf parses, typeScript]
    rfl
  · intro again _ readsBack
    exact readsBack.nodup_iff.trans apart

/-- The text of a module that refers to other modules once, by a namespace of a barrel. -/
theorem code_redirect_of_namespace (settings : Settings) (barrelOf : String → Option Manifest)
    (code : String) {name : String} {manifest : Manifest} {declaration : ImportDeclaration}
    (references : module.references = [.importDeclaration declaration])
    (isBarrel : barrelOf declaration.specifier = some manifest)
    (isValueImport : declaration.typeOnly = false)
    (isWhole : namespaceOf? (declaration.bindings.getD []) = some name)
    (inFront : declaration.span.start < lastImportEnd module) :
    let object := namespaceObject manifest name
    let behind : Replacement :=
      ⟨⟨lastImportEnd module, lastImportEnd module⟩, objectsText [object]⟩
    namespaceObjects barrelOf module = [object] ∧
      (module.redirect settings barrelOf code).code =
        String.ofList (splice (splice code.toList behind)
          ⟨declaration.span, importText settings manifest declaration⟩) := by
  intro object behind
  have objects : namespaceObjects barrelOf module = [object] := by
    rw [namespaceObjects, references]
    simp [objectOf?, isValueImport, isBarrel, isWhole, addObject, object]
  have two : replacements settings barrelOf module =
      [⟨declaration.span, importText settings manifest declaration⟩, behind] := by
    rw [replacements, objects, references]
    simp [replacementOf?, isBarrel, behind]
  -- Replacements are made from the back, so the object comes first.
  have backwards (front : Replacement) (ordered : front.span.start < behind.span.start) :
      [front, behind].mergeSort (fun a b => b.span.start ≤ a.span.start) = [behind, front] := by
    simp [List.mergeSort, Nat.not_le.mpr ordered]
  refine ⟨objects, ?_⟩
  rw [Module.redirect, two]
  show String.ofList (List.foldl splice code.toList _) = _
  rw [backwards _ inFront]
  rfl

/-- Reading a TypeScript text that refers to other modules once, by a namespace of a barrel, and reading the
redirected text. -/
theorem exists_reading_of_namespace (options : CompilerOptions) {file : Path}
    {code after name : String} {manifest : Manifest} {declaration : ImportDeclaration}
    {names namesAgain : List String} {position : Nat}
    (typeScript : (Language.ofPath file).typeScript = true)
    (isBarrel : barrelOf declaration.specifier = some manifest)
    (isValueImport : declaration.typeOnly = false)
    (isWhole : namespaceOf? (declaration.bindings.getD []) = some name)
    (inFront : declaration.span.start < position)
    (reading : (Module.parse? (Language.ofPath file) code).map
        (fun module => (module.boundNames, module.references, lastImportEnd module)) =
      some (names, [.importDeclaration declaration], position))
    (readingAgain : (Module.parse? (Language.ofPath file) after).map (·.boundNames) =
      some namesAgain)
    (written : String.ofList (splice
        (splice code.toList ⟨⟨position, position⟩, objectsText [namespaceObject manifest name]⟩)
        ⟨declaration.span, importText ⟨options, false⟩ manifest declaration⟩) = after) :
    ∃ module again redirected,
      Module.parse? (Language.ofPath file) code = some module ∧ module.boundNames = names ∧
        namespaceObjects barrelOf module = [namespaceObject manifest name] ∧
        redirectImports file code options barrelOf = .ok redirected ∧ redirected.code = after ∧
        Module.parse? (Language.ofPath file) redirected.code = some again ∧
        again.boundNames = namesAgain := by
  obtain ⟨module, parses, facts⟩ := Option.map_eq_some_iff.mp reading
  obtain ⟨again, parsesAgain, sameNames⟩ := Option.map_eq_some_iff.mp readingAgain
  simp only [Prod.mk.injEq] at facts
  obtain ⟨bound, references, rfl⟩ := facts
  obtain ⟨objects, text⟩ := code_redirect_of_namespace ⟨options, false⟩ barrelOf code references
    isBarrel isValueImport isWhole inFront
  have put := text.trans written
  refine ⟨module, again, module.redirect ⟨options, false⟩ barrelOf code, parses, bound, objects, ?_,
    put, ?_, sameNames⟩
  · rw [redirectImports_of_parses barrelOf parses, typeScript]
    rfl
  · rw [put]
    exact parsesAgain

/-- A namespace of a barrel beside a binding that is none of its joint names. -/
theorem redirected_namespace_beside_binding :
    let manifest : Manifest := .ofList [("v", ⟨"v", "a", ".ts", false, false, none⟩)]
    ∃ redirected again,
      redirectImports ⟨"m.ts"⟩ "import*as n from'./c';let m" {} (fun _ => some manifest) =
          .ok redirected ∧
        Module.parse? (Language.ofPath ⟨"m.ts"⟩) redirected.code = some again ∧
        again.boundNames = ["nv", "n", "m"] ∧ again.boundNames.Nodup := by
  intro manifest
  let barrelOf := fun _ : String => some manifest
  have reading : (Module.parse? (Language.ofPath ⟨"m.ts"⟩) "import*as n from'./c';let m").map
        (fun module => (module.boundNames, module.references, lastImportEnd module)) =
      some (["n", "m"],
        [.importDeclaration ⟨some [.whole "n"], "./c", '\'', false, ⟨0, 22⟩⟩], 22) := by
    decide +kernel
  have readingAgain : (Module.parse? (Language.ofPath ⟨"m.ts"⟩)
        "import \x7b v as nv \x7d from './c/a';\nconst n = \x7b\n    v: nv\n\x7d;let m").map
        (·.boundNames) = some ["nv", "n", "m"] := by
    decide +kernel
  obtain ⟨module, again, redirected, parses, names, objects, succeeds, -, parsesAgain, namesAgain⟩ :=
    exists_reading_of_namespace {} (by decide +kernel) (show barrelOf "./c" = some manifest from rfl)
      rfl rfl (by decide) reading readingAgain (by decide +kernel)
  have scope : (Module.parse? (Language.ofPath ⟨"m.ts"⟩) "import*as n from'./c';let m").map
        (fun module => (barrelNamespaces barrelOf module,
          module.statements.flatMap (keptNames barrelOf),
          module.statements.flatMap (putNames ⟨{}, false⟩ barrelOf))) =
      some ([("n", manifest)], ["m"], ["nv", "m"]) := by
    decide +kernel
  rw [parses, Option.map_some, Option.some.injEq] at scope
  simp only [Prod.mk.injEq] at scope
  obtain ⟨namespaces, kept, put⟩ := scope
  obtain ⟨reached, reaches, -, readBack⟩ := redirected_names_distinct_iff ⟨"m.ts"⟩
    "import*as n from'./c';let m" {} barrelOf module (by decide +kernel) parses
    (by rw [names]; decide)
  obtain rfl := Except.ok.inj (succeeds.symm.trans reaches)
  refine ⟨redirected, again, succeeds, parsesAgain, namesAgain, ?_⟩
  apply (readBack again parsesAgain _).mpr
  · refine ⟨?_, ?_, ?_, ?_⟩
    · rw [namespaces]
      decide +kernel
    · rw [namespaces, kept]
      decide +kernel
    · rw [namespaces, objects]
      decide +kernel
    · rw [objects, kept]
      decide +kernel
  · rw [namesAgain, namesAfter, put, objects]
    decide

/-- A namespace and a binding that is the joint name of a key of the barrel: the name is bound twice. -/
theorem redirected_namespace_collides_with_binding :
    let manifest : Manifest := .ofList [("v", ⟨"v", "a", ".ts", false, false, none⟩)]
    ∃ module again redirected,
      Module.parse? (Language.ofPath ⟨"m.ts"⟩) "import*as n from'./c';let nv" = some module ∧
        module.boundNames.Nodup ∧
        redirectImports ⟨"m.ts"⟩ "import*as n from'./c';let nv" {} (fun _ => some manifest) =
          .ok redirected ∧
        redirected.code =
          "import \x7b v as nv \x7d from './c/a';\nconst n = \x7b\n    v: nv\n\x7d;let nv" ∧
        Module.parse? (Language.ofPath ⟨"m.ts"⟩) redirected.code = some again ∧
        again.boundNames = ["nv", "n", "nv"] ∧ ¬ again.boundNames.Nodup := by
  intro manifest
  let barrelOf := fun _ : String => some manifest
  have reading : (Module.parse? (Language.ofPath ⟨"m.ts"⟩) "import*as n from'./c';let nv").map
        (fun module => (module.boundNames, module.references, lastImportEnd module)) =
      some (["n", "nv"],
        [.importDeclaration ⟨some [.whole "n"], "./c", '\'', false, ⟨0, 22⟩⟩], 22) := by
    decide +kernel
  have readingAgain : (Module.parse? (Language.ofPath ⟨"m.ts"⟩)
        "import \x7b v as nv \x7d from './c/a';\nconst n = \x7b\n    v: nv\n\x7d;let nv").map
        (·.boundNames) = some ["nv", "n", "nv"] := by
    decide +kernel
  obtain ⟨module, again, redirected, parses, names, -, succeeds, written, parsesAgain, namesAgain⟩ :=
    exists_reading_of_namespace {} (by decide +kernel) (show barrelOf "./c" = some manifest from rfl)
      rfl rfl (by decide) reading readingAgain (by decide +kernel)
  refine ⟨module, again, redirected, parses, ?_, succeeds, written, parsesAgain, namesAgain, ?_⟩
  · rw [names]
    decide
  · rw [namesAgain]
    decide

end Redirection

end BarrelSynthesis
