/-
# The exports of a module

What a code file exports, read from its syntax alone. Every top-level export is one occurrence of a
public name, or an occurrence without a name that could be re-exported. Occurrences of one name make one
entity, which is a type only if all of them are; occurrences without a name are warned about.
-/
import BarrelSynthesis.Barrel.Manifest
import BarrelSynthesis.Diagnostic
import BarrelSynthesis.Source.Parse

namespace BarrelSynthesis

open Source

/-- A name that a declaration introduces. -/
structure DeclaredName where
  name : String
  span : Span
  isType : Bool
  deriving Repr, DecidableEq

mutual

/-- The names a pattern binds, from left to right. -/
def Source.BindingPattern.names : BindingPattern → List Name
  | .name name => [name]
  | .object properties rest =>
    namesOfPatterns properties ++ (match rest with | some pattern => pattern.names | none => [])
  | .array elements rest =>
    namesOfElements elements ++ (match rest with | some pattern => pattern.names | none => [])
  | .withDefault target => target.names

/-- The names the properties of a pattern bind. -/
def namesOfPatterns : List BindingPattern → List Name
  | [] => []
  | pattern :: rest => pattern.names ++ namesOfPatterns rest

/-- The names the elements of a pattern bind. -/
def namesOfElements : List (Option BindingPattern) → List Name
  | [] => []
  | some pattern :: rest => pattern.names ++ namesOfElements rest
  | none :: rest => namesOfElements rest

end

/-- The names a declaration introduces. A namespace with a quoted name belongs to another module. -/
def Source.Declaration.declaredNames : Declaration → List DeclaredName
  | .bindings patterns =>
    (patterns.flatMap BindingPattern.names).map fun name => ⟨name.text, name.span, false⟩
  | .function name span => name.toList.map fun name => ⟨name, span, false⟩
  | .class name span => name.toList.map fun name => ⟨name, span, false⟩
  | .interface name span => [⟨name, span, true⟩]
  | .typeAlias name span => [⟨name, span, true⟩]
  | .enumeration name span => [⟨name, span, false⟩]
  | .namespace name span => name.toList.map fun name => ⟨name, span, false⟩
  | .importAlias name _ span => [⟨name, span, false⟩]

/-- The local name of an import binding, and whether it is imported as a type. -/
def Source.ImportBinding.localName : ImportBinding → String × Bool
  | .default name => (name, false)
  | .whole name => (name, false)
  | .named _ name typeOnly => (name, typeOnly)

/-- The names a top-level statement introduces, and whether as types. What is exported by default counts
as no declaration. -/
def Source.Statement.introduced : Statement → List (String × Bool)
  | .exportDeclaration declared => declared.declaredNames.map fun d => (d.name, d.isType)
  | .declaration declared => declared.declaredNames.map fun d => (d.name, d.isType)
  | .importDeclaration imported =>
    (imported.bindings.getD []).map fun binding =>
      (binding.localName.1, imported.typeOnly || binding.localName.2)
  | _ => []

/-- Whether a statement makes a module of its text. -/
def Source.Statement.isModuleSyntax : Statement → Bool
  | .importDeclaration _ => true
  | .exportDeclaration _ => true
  | .exportList _ _ _ => true
  | .exportDefault _ _ => true
  | .exportAll _ _ _ _ => true
  | .exportAssignment => true
  | .declaration (.importAlias _ _ _) => true
  | _ => false

/-- Whether a name is introduced at the top level, and only as a type. -/
def Source.Module.isTypeName (module : Module) (name : String) : Bool :=
  let found := (module.statements.flatMap Statement.introduced).filter (·.1 = name)
  !found.isEmpty && found.all (·.2)

/-- One export at the top level of a module. -/
inductive ExportOccurrence
  | named (identifier : String) (span : Span) (isDefault isType : Bool)
  /-- An export that no name can be derived for. -/
  | anonymous (span : Span)
  deriving Repr, DecidableEq

/-- The export of one entry of an export list. `export { Thing as default }` keeps `Thing` for its
name. -/
def ExportOccurrence.ofSpecifier (module : Module) (hasSource typeOnly : Bool)
    (specifier : ExportSpecifier) : ExportOccurrence :=
  let isType := typeOnly || specifier.typeOnly
    || (!hasSource && module.isTypeName specifier.localName)
  if specifier.exported = "default" then
    if specifier.localName = "default" then .anonymous specifier.span
    else .named specifier.localName specifier.span true isType
  else .named specifier.exported specifier.span false isType

/-- The default export of a module. -/
def ExportOccurrence.ofDefault (module : Module) (value : DefaultExport) (span : Span) :
    ExportOccurrence :=
  match value with
  | .function (some name) => .named name span true false
  | .class (some name) => .named name span true false
  | .interface name => .named name span true true
  | .reference name => .named name span true (module.isTypeName name)
  | .function none => .anonymous span
  | .class none => .anonymous span
  | .expression => .anonymous span

/-- The exports of one top-level statement. -/
def ExportOccurrence.ofStatement (module : Module) : Statement → List ExportOccurrence
  | .exportDeclaration declaration =>
    declaration.declaredNames.map fun d => .named d.name d.span false d.isType
  | .exportList specifiers source typeOnly =>
    specifiers.map (ofSpecifier module source.isSome typeOnly)
  | .exportDefault value span => [ofDefault module value span]
  | .exportAll (some name) _ typeOnly span => [.named name span false typeOnly]
  | .exportAll none _ _ span => [.anonymous span]
  | _ => []

/-- The exports of a module in the order in which they stand. A text without module syntax exports
nothing. -/
def Source.Module.exportOccurrences (module : Module) : List ExportOccurrence :=
  if module.statements.any Statement.isModuleSyntax then
    module.statements.flatMap (ExportOccurrence.ofStatement module)
  else []

/-- Adds an entity to those of its module. A name that is already there stays where it is, and stays a
type only if it is one here too. -/
def Entity.addTo (entity : Entity) : List Entity → List Entity
  | [] => [entity]
  | other :: rest =>
    if other.identifier = entity.identifier then
      { other with isTypeExport := other.isTypeExport && entity.isTypeExport } :: rest
    else other :: entity.addTo rest

/-- What one file exports. -/
structure ModuleExports where
  entities : List Entity
  diagnostics : List Diagnostic
  deriving Repr, Inhabited

namespace ModuleExports

/-- Nothing exported and nothing to warn about. -/
def empty : ModuleExports := ⟨[], []⟩

/-- The entity of a named occurrence in a file. -/
def entityOf? (path : Path) (extension : String) : ExportOccurrence → Option Entity
  | .named identifier span isDefault isType =>
    some ⟨identifier, Extension.stem path, extension, isDefault, isType, some span⟩
  | .anonymous _ => none

/-- The warning about an occurrence without a name. -/
def warningOf? (path : Path) (source : String) : ExportOccurrence → Option Diagnostic
  | .named _ _ _ _ => none
  | .anonymous span => some (.missingIdentifier path source span)

/-- What a list of occurrences in a file amounts to. -/
def ofOccurrences (path : Path) (extension source : String) (occurrences : List ExportOccurrence) :
    ModuleExports :=
  { entities := (occurrences.filterMap (entityOf? path extension)).foldl
      (fun entities entity => entity.addTo entities) []
    diagnostics := occurrences.filterMap (warningOf? path source) }

/-- What the file with a given text exports. Files that hold no code give nothing at all; code that
cannot be parsed exports nothing. -/
def ofSource? (path : Path) (source : String) : Option ModuleExports :=
  match Extension.ofPath? path with
  | some extension =>
    if Extension.isCode extension then
      match Module.parse? (Language.ofPath path) source with
      | some module => some (ofOccurrences path extension source module.exportOccurrences)
      | none => some empty
    else none
  | none => none

end ModuleExports

end BarrelSynthesis
