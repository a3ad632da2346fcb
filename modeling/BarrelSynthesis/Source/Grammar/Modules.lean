/-
# Grammar: imports and exports

Import declarations and exports from other modules, wherever they stand, are noted as references.
-/
import BarrelSynthesis.Source.Grammar.Declarations

namespace BarrelSynthesis.Source.Parse

/-- The name an export or import list gives to a binding: a word or a string. -/
def moduleExportName : Parse String := do
  if (← kind).isString then return (← stringLiteral).1 else anyWord

/-- Whether a name of an export or import list begins here. -/
def isAtExportName : Parse Bool := do
  let kind ← kind
  return kind.isAnyWord || kind.isString

/-- An entry of an import or export list. -/
structure ListEntry where
  /-- The name before `as`, and the only name where there is no `as`. -/
  first : String
  /-- The name behind `as`, and the only name where there is no `as`. -/
  last : String
  /-- Whether the last name is written as a string. -/
  quoted : Bool
  typeOnly : Bool

/-- The entry that a first name and what stands behind it make. -/
def renamedEntry (typeOnly : Bool) : Parse ListEntry := do
  let quoted := (← kind).isString
  let first ← moduleExportName
  if ← eatWord "as" then
    let quoted := (← kind).isString
    return ⟨first, ← moduleExportName, quoted, typeOnly⟩
  else return ⟨first, first, quoted, typeOnly⟩

/-- The entry that begins with the word `type`, which is a mark or a name. -/
def typeEntry : Parse ListEntry := do
  expectWord "type"
  if ← eatWord "as" then
    if ← eatWord "as" then
      if ← isAtExportName then
        let quoted := (← kind).isString
        return ⟨"as", ← moduleExportName, quoted, true⟩
      else return ⟨"type", "as", false, false⟩
    else if ← isAtExportName then
      let quoted := (← kind).isString
      return ⟨"type", ← moduleExportName, quoted, false⟩
    else return ⟨"as", "as", false, true⟩
  else if ← isAtExportName then renamedEntry true
  else return ⟨"type", "type", false, false⟩

/-- An entry of an import or export list. -/
def listEntry : Parse ListEntry := do
  if (← isTypeScript) && (← isAtWord "type") then typeEntry else renamedEntry false

/-- Import attributes, `with { key: "value" }`. The keyword `assert` has to stand on the line before it
ends. -/
def importAttributes : Parse Unit := do
  if (← isAtWord "with") || ((← isAtWord "assert") && !(← isOnNewLine)) then
    advance
    expect "\x7b"
    let _ ← commaList "\x7d" do
      let _ ← moduleExportName
      expect ":"
      let _ ← stringLiteral
    expect "\x7d"

/-- A binding for the whole of a module, `* as name`. -/
def wholeImport : Parse ImportBinding := do
  expect "*"
  expectWord "as"
  return .whole (← bindingName)

/-- The bindings between the braces of an import. -/
def namedImports : Parse (List ImportBinding) := do
  expect "\x7b"
  let (found, _) ← commaList "\x7d" do
    let entry ← listEntry
    if entry.quoted then unexpected
    return ImportBinding.named entry.first entry.last entry.typeOnly
  expect "\x7d"
  return found

/-- The bindings behind a default import, or in its place. -/
def furtherImports : Parse (List ImportBinding) := do
  if ← isAt "*" then return [← wholeImport] else namedImports

/-- The words behind `import` up to the first binding: the name of a default import, and whether only
types are imported. -/
def importHead : Parse (Option String × Bool) := do
  if !(← kind).isBindingName then return (none, false)
  let word ← anyWord
  if word == "source" && (← kind).isBindingName then
    if !(← isAtWord "from") || (← nextIs (isAtWord "from")) then return (some (← anyWord), false)
  if word == "defer" && (← isAt "*") then return (none, false)
  if word == "type" && (← isTypeScript) then
    let marks ←
      if ← isAtWord "from" then nextIs do return (← isAtWord "from") || (← isAt "=")
      else pure true
    if marks && (← kind).isBindingName then return (some (← anyWord), true)
    if marks && (← isAtAny ["*", "\x7b"]) then return (none, true)
  return (some word, false)

/-- An import declaration or an import alias. -/
def importStatement (g : Grammar) : Parse Statement := do
  let start ← start
  expectWord "import"
  let (name, typeOnly) ← importHead
  let found : Declaration ⊕ Option (List ImportBinding) ←
    match name with
    | some name =>
      if ← eat "," then pure (.inr (some (.default name :: (← furtherImports))))
      else if ← isAtWord "from" then pure (.inr (some [.default name]))
      else pure (.inl (← importAlias g start name typeOnly))
    | none =>
      if (← kind).isString then pure (.inr none)
      else pure (.inr (some (← furtherImports)))
  match found with
  | .inl found => return .declaration found
  | .inr bindings =>
    if bindings.isSome then expectWord "from"
    let (specifier, quote) ← stringLiteral
    importAttributes
    endStatement
    let declaration := ⟨bindings, specifier, quote, typeOnly, ← spanFrom start⟩
    note (.importDeclaration declaration)
    return .importDeclaration declaration

/-- What is exported by default, behind `default`. -/
def defaultExport (g : Grammar) : Parse DefaultExport := do
  if ← isAtWord "class" then return .class (← classRest g)
  else if (← isAtWord "abstract")
      && (← nextIs do return (← isAtWord "class") && !(← isOnNewLine)) then
    advance
    return .class (← classRest g)
  else if ← isAt "@" then
    decorators g
    let _ ← modifiers false false
    return .class (← classRest g)
  else if (← isAtWord "interface")
      && (← nextIs do return (← kind).isBindingName && !(← isOnNewLine)) then
    return .interface (← interface g)
  else if ← startsFunction then return .function (← function g)
  else
    let value ← g (.assignment true)
    endStatement
    match value with
    | .identifier name => return .reference name
    | _ => return .expression

/-- An export of everything another module exports, behind `export`. -/
def exportAll (start : Nat) (typeOnly : Bool) : Parse Statement := do
  expect "*"
  let exportedAs ← if ← eatWord "as" then some <$> moduleExportName else pure none
  expectWord "from"
  let (specifier, _) ← stringLiteral
  importAttributes
  endStatement
  let span ← spanFrom start
  note (.exportFrom specifier span)
  return .exportAll exportedAs specifier typeOnly span

/-- An export list, behind `export`. -/
def exportList (start : Nat) (typeOnly : Bool) : Parse Statement := do
  expect "\x7b"
  let (found, _) ← commaList "\x7d" do
    let start ← Parse.start
    let entry ← listEntry
    return ExportSpecifier.mk entry.first entry.last entry.typeOnly (← spanFrom start)
  expect "\x7d"
  let mut source := none
  if ← eatWord "from" then
    if (← kind).isString || (← kind) = .number || (← isAtAnyWord ["true", "false", "null"]) then
      let (specifier, _) ← stringLiteral
      importAttributes
      source := some specifier
  endStatement
  if let some specifier := source then
    note (.exportFrom specifier (← spanFrom start))
  return .exportList found source typeOnly

/-- An export. -/
def exportStatement (g : Grammar) : Parse Statement := do
  let start ← start
  expectWord "export"
  let typed ← isTypeScript
  if typed && (← eat "=") then
    let _ ← g .expression
    endStatement
    return .exportAssignment
  else if typed && (← isAtWord "as") && (← nextIs (isAtWord "namespace")) then
    advance
    advance
    let _ ← anyWord
    endStatement
    return .exportAsNamespace
  else if ← eatWord "default" then
    let value ← defaultExport g
    return .exportDefault value (← spanFrom start)
  else if ← isAt "*" then exportAll start false
  else if ← isAt "\x7b" then exportList start false
  else if typed && (← isAtWord "type") && (← nextIs (isAt "*")) then
    advance
    exportAll start true
  else if typed && (← isAtWord "type") && (← nextIs (isAt "\x7b")) then
    advance
    exportList start true
  else
    let start ← Parse.start
    if ← isAt "@" then
      decorators g
      let _ ← modifiers false false
      let name ← classRest g
      return .exportDeclaration (.class name (← spanFrom start))
    if typed then
      let _ ← modifiers false false
    return .exportDeclaration (← declaration g start)

end BarrelSynthesis.Source.Parse
