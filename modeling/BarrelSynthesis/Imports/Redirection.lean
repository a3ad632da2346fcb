/-
# Redirecting imports of barrels

Every import of a barrel is replaced by direct imports of the files the barrel exports from, and every
`require` of one by an object that requires those files. The rest of the text stays as it is, byte for
byte. Objects for `import * as` bindings stand behind the last import.
-/
import BarrelSynthesis.Imports.Specifier
import BarrelSynthesis.Source.Parse
import BarrelSynthesis.Synthesis.Coalesce
import BarrelSynthesis.Synthesis.Printer
import BarrelSynthesis.Text.Offset

namespace BarrelSynthesis

open Source

/-- A module in which imports of barrels have been replaced. -/
structure RedirectedModule where
  code : String
  isRedirected : Bool
  deriving Repr, DecidableEq

/-- The text of a file that cannot be redirected because it cannot be parsed. -/
structure UnparsableModule where
  file : Path
  deriving Repr, DecidableEq

/-- The text reported for a file that cannot be parsed. -/
def UnparsableModule.message (failure : UnparsableModule) : String :=
  "Failed to parse " ++ failure.file.text

namespace Redirection

/-- What redirecting depends on besides the code. -/
structure Settings where
  options : CompilerOptions
  /-- Whether type imports are left out, as the code cannot carry them. -/
  stripTypes : Bool

/-- The import that binds an entity to a local name. -/
def directImport (settings : Settings) (base : String) (entity : Entity) (localName : String)
    (typeOnly : Bool) : Synthesis.Import :=
  let module := Specifier.origin base entity settings.options
  let assertion := Specifier.assertionOf entity settings.options
  if entity.isDefaultExport && !typeOnly then ⟨some localName, [], module, assertion⟩
  else
    let property :=
      if entity.isDefaultExport then some "default"
      else if entity.identifier = localName then none
      else some entity.identifier
    ⟨none, [⟨typeOnly, property, localName⟩], module, assertion⟩

/-- The direct import for one binding of an import of a barrel. Bindings that the manifest does not know
are dropped, and so are default bindings. -/
def expandBinding (settings : Settings) (base : String) (manifest : Manifest) (typeOnly : Bool) :
    ImportBinding → Option Synthesis.Import
  | .named imported localName typeOnlyEntry =>
    match manifest.get? imported with
    | some entity =>
      let isType := typeOnly || typeOnlyEntry
      if settings.stripTypes && (isType || entity.isTypeExport) then none
      else some (directImport settings base entity localName isType)
    | none => none
  | .default _ => none
  | .whole _ => none

/-- The local name for an entity of a namespace. -/
def namespacedName (namespaceName identifier : String) : String :=
  namespaceName ++ identifier

/-- The direct imports of everything a barrel exports, each under a name of its own. -/
def expandNamespace (settings : Settings) (base : String) (manifest : Manifest) (typeOnly : Bool)
    (name : String) : List Synthesis.Import :=
  manifest.entries.filterMap fun (identifier, entity) =>
    let isType := typeOnly || entity.isTypeExport
    if settings.stripTypes && isType then none
    else some (directImport settings base entity (namespacedName name identifier) isType)

/-- The object that stands for a namespace: the values of the barrel, without its types. -/
def namespaceObject (manifest : Manifest) (name : String) : Synthesis.NamespaceObject :=
  { name := name
    properties := manifest.entries.filterMap fun (identifier, entity) =>
      if entity.isTypeExport then none else some (identifier, namespacedName name identifier) }

/-- The imports that run every file a barrel exports values from. -/
def expandSideEffect (settings : Settings) (base : String) (manifest : Manifest) :
    List Synthesis.Import :=
  (manifest.entities.filter fun entity => !entity.isTypeExport).map fun entity =>
    ⟨none, [], Specifier.origin base entity settings.options,
      Specifier.assertionOf entity settings.options⟩

/-- The name an import binds the whole module to, if it does. -/
def namespaceOf? (bindings : List ImportBinding) : Option String :=
  bindings.findSome? fun
    | .whole name => some name
    | _ => none

/-- The direct imports that replace an import of a barrel. -/
def expandImport (settings : Settings) (manifest : Manifest) (declaration : ImportDeclaration) :
    List Synthesis.Import :=
  let base := Specifier.barrelBase declaration.specifier
  match declaration.bindings with
  | none => expandSideEffect settings base manifest
  | some bindings =>
    match namespaceOf? bindings with
    | some name => expandNamespace settings base manifest declaration.typeOnly name
    | none => bindings.filterMap (expandBinding settings base manifest declaration.typeOnly)

/-- The text that replaces an import of a barrel. -/
def importText (settings : Settings) (manifest : Manifest) (declaration : ImportDeclaration) :
    String :=
  "\n".intercalate <|
    (Synthesis.coalesceImports (expandImport settings manifest declaration)).map
      (Synthesis.Import.print declaration.quote)

/-- The object that replaces a `require` of a barrel. -/
def requireObject (settings : Settings) (manifest : Manifest) (specifier : String) :
    Synthesis.RequireObject :=
  let base := Specifier.barrelBase specifier
  { properties := manifest.entries.filterMap fun (identifier, entity) =>
      if entity.isTypeExport then none
      else
        let exported :=
          if entity.isExternal then none
          else if entity.isDefaultExport then some "default"
          else some entity.identifier
        some ⟨identifier, Specifier.origin base entity settings.options, exported⟩ }

/-- A stretch of code and the text that takes its place. -/
structure Replacement where
  span : Span
  text : String
  deriving Repr, DecidableEq

/-- The replacement for a reference, when it names a barrel. Other references than import declarations
and plain calls of `require` are never replaced. -/
def replacementOf? (settings : Settings) (barrelOf : String → Option Manifest) :
    Reference → Option Replacement
  | .importDeclaration declaration =>
    (barrelOf declaration.specifier).map fun manifest =>
      ⟨declaration.span, importText settings manifest declaration⟩
  | .requireCall call =>
    (barrelOf call.specifier).map fun manifest =>
      ⟨call.span, (requireObject settings manifest call.specifier).print call.quote⟩
  | .exportFrom _ _ => none
  | .dynamicImport _ _ => none
  | .looseRequire _ _ => none

/-- The object that an import needs behind the imports, when it binds a whole barrel as a value. -/
def objectOf? (barrelOf : String → Option Manifest) :
    Reference → Option Synthesis.NamespaceObject
  | .importDeclaration declaration =>
    if declaration.typeOnly then none
    else
      match barrelOf declaration.specifier, namespaceOf? (declaration.bindings.getD []) with
      | some manifest, some name => some (namespaceObject manifest name)
      | _, _ => none
  | _ => none

/-- Adds an object to those found so far. An object of the same name gives its place to the new one. -/
def addObject (object : Synthesis.NamespaceObject) :
    List Synthesis.NamespaceObject → List Synthesis.NamespaceObject
  | [] => [object]
  | other :: rest =>
    if other.name = object.name then object :: rest else other :: addObject object rest

/-- The objects a module needs, in the order in which their names first appear. -/
def namespaceObjects (barrelOf : String → Option Manifest) (module : Module) :
    List Synthesis.NamespaceObject :=
  (module.references.filterMap (objectOf? barrelOf)).foldl
    (fun objects object => addObject object objects) []

/-- Where the last top-level import ends; the beginning when there is none. -/
def lastImportEnd (module : Module) : Nat :=
  (module.statements.filterMap fun
    | .importDeclaration declaration => some declaration.span.stop
    | _ => none).foldl max 0

/-- The text of some objects, each on a line of its own. -/
def objectsText (objects : List Synthesis.NamespaceObject) : String :=
  String.join (objects.map fun object => "\n" ++ object.print)

/-- Everything that changes in a module. The objects come last. -/
def replacements (settings : Settings) (barrelOf : String → Option Manifest) (module : Module) :
    List Replacement :=
  let found := module.references.filterMap (replacementOf? settings barrelOf)
  let objects := namespaceObjects barrelOf module
  if objects.isEmpty then found
  else
    let position := lastImportEnd module
    found ++ [⟨⟨position, position⟩, objectsText objects⟩]

/-- Puts a text in the place of a stretch. -/
def splice (code : List Char) (replacement : Replacement) : List Char :=
  (Text.takeBytes? replacement.span.start code).getD [] ++ replacement.text.toList
    ++ (Text.dropBytes? replacement.span.stop code).getD []

/-- Makes replacements one after the other, from the back of the code to its front, so that the earlier
places stay where they are. -/
def applyAll (code : String) (replacements : List Replacement) : String :=
  let backwards := replacements.mergeSort fun a b => b.span.start ≤ a.span.start
  String.ofList (backwards.foldl splice code.toList)

end Redirection

/-- Redirects the imports of a parsed module. -/
def Source.Module.redirect (module : Module) (settings : Redirection.Settings)
    (barrelOf : String → Option Manifest) (code : String) : RedirectedModule :=
  let replacements := Redirection.replacements settings barrelOf module
  if replacements.isEmpty then ⟨code, false⟩
  else ⟨Redirection.applyAll code replacements, true⟩

/-- Redirects the imports of a file. `barrelOf` says which specifiers name barrels, and of which
manifest. -/
def redirectImports (file : Path) (code : String) (options : CompilerOptions)
    (barrelOf : String → Option Manifest) : Except UnparsableModule RedirectedModule :=
  let language := Language.ofPath file
  match Module.parse? language code with
  | some module => .ok (module.redirect ⟨options, !language.typeScript⟩ barrelOf code)
  | none => .error ⟨file⟩

end BarrelSynthesis
