/-
# Printing synthesized statements

Each statement has one written form, up to the quote character that module specifiers stand in.
-/
import BarrelSynthesis.Synthesis.Statement

namespace BarrelSynthesis.Synthesis

/-- Writes a backslash before every quote and every backslash. -/
def escape (quote : Char) : List Char → List Char
  | [] => []
  | c :: rest =>
    if c = quote ∨ c = '\\' then '\\' :: c :: escape quote rest else c :: escape quote rest

/-- A text between quotes. -/
def quoted (quote : Char) (value : String) : String :=
  String.ofList (quote :: escape quote value.toList ++ [quote])

/-- An assert clause with the blank before it. -/
def printAssertion (kind : String) : String :=
  " assert \x7b type: \"" ++ kind ++ "\" \x7d"

/-- The end of a declaration: the module specifier and what follows it. -/
def printModuleEnd (quote : Char) (module : String) (assertion : Option String) : String :=
  quoted quote module ++ ((assertion.map printAssertion).getD "") ++ ";"

/-- An entry of an export list. -/
def ExportEntry.print (entry : ExportEntry) : String :=
  match entry.property with
  | some property => property ++ " as " ++ entry.name
  | none => entry.name

/-- An export. -/
def Export.print (quote : Char) (declaration : Export) : String :=
  "export \x7b " ++ ", ".intercalate (declaration.entries.map ExportEntry.print) ++ " \x7d from "
    ++ printModuleEnd quote declaration.module declaration.assertion

/-- An entry of an import list. A name that does not change is written once. -/
def ImportEntry.print (entry : ImportEntry) : String :=
  let mark := if entry.typeOnly then "type " else ""
  match entry.property with
  | some property =>
    if property = entry.name then mark ++ entry.name
    else mark ++ property ++ " as " ++ entry.name
  | none => mark ++ entry.name

/-- The bindings of an import. -/
def Import.clause (declaration : Import) : List String :=
  declaration.defaultName.toList ++
    (if declaration.named.isEmpty then []
     else ["\x7b " ++ ", ".intercalate (declaration.named.map ImportEntry.print) ++ " \x7d"])

/-- An import. -/
def Import.print (quote : Char) (declaration : Import) : String :=
  let clause :=
    if declaration.isSideEffect then "" else ", ".intercalate declaration.clause ++ " from "
  "import " ++ clause ++ printModuleEnd quote declaration.module declaration.assertion

/-- An object of local bindings. -/
def NamespaceObject.print (object : NamespaceObject) : String :=
  if object.properties.isEmpty then "const " ++ object.name ++ " = \x7b\x7d;"
  else
    let lines := object.properties.map fun (key, value) => "    " ++ key ++ ": " ++ value
    "const " ++ object.name ++ " = \x7b\n" ++ ",\n".intercalate lines ++ "\n\x7d;"

/-- Whether a name can be written without quotes. -/
def isPlainName (name : String) : Bool :=
  match name.toList with
  | [] => false
  | c :: rest =>
    (Text.isLetter c || c == '_' || c == '$')
      && rest.all fun c => Text.isLetterOrNumber c || c == '_' || c == '$'

/-- An access to an export of a module. -/
def printAccess (quote : Char) (exported : String) : String :=
  if isPlainName exported then "." ++ exported else "[" ++ quoted quote exported ++ "]"

/-- A property that loads its module when it is read. -/
def RequireProperty.print (quote : Char) (property : RequireProperty) : String :=
  let name := if isPlainName property.name then property.name else quoted quote property.name
  ", get " ++ name ++ "() \x7b return require(" ++ quoted quote property.module ++ ")"
    ++ ((property.exported.map (printAccess quote)).getD "") ++ "; \x7d"

/-- An object that stands for a whole module. -/
def RequireObject.print (quote : Char) (object : RequireObject) : String :=
  "\x7b __esModule: true" ++ String.join (object.properties.map (RequireProperty.print quote))
    ++ " \x7d"

/-- A statement. -/
def Statement.print (quote : Char) : Statement → String
  | .importFrom declaration => declaration.print quote
  | .exportFrom declaration => declaration.print quote
  | .namespaceObject object => object.print

/-- The text of a module without statements. A module cannot be the empty text, which would be no
module. -/
def emptyModule : String := "export \x7b\x7d;"

/-- A module of statements, one on each line. -/
def printModule (statements : List Statement) : String :=
  if statements.isEmpty then emptyModule
  else String.join (statements.map fun statement => statement.print '"' ++ "\n")

end BarrelSynthesis.Synthesis
