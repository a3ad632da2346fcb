/-
# Grammar: declarations

Variables, functions, classes, and the declarations only TypeScript has. A declaration's span begins with
its modifiers and ends with its semicolon, if it has one.
-/
import BarrelSynthesis.Source.Grammar.Expressions

namespace BarrelSynthesis.Source.Parse

/-- Declared variables with their types and initial values. -/
def declarators (g : Grammar) : Parse (List BindingPattern) := do
  let one : Parse BindingPattern := do
    let pattern ← g .bindingPattern
    if (← isTypeScript) && !(← isOnNewLine) then
      let _ ← eat "!"
    typeClause g
    if ← eat "=" then
      let _ ← g (.assignment true)
    return pattern
  let first ← one
  let rest ← manyWhile (isAt ",") do
    advance
    one
  return first :: rest

/-- Variables from their keyword to the end of the statement. -/
def variableStatement (g : Grammar) : Parse Declaration := do
  advance
  let patterns ← declarators g
  endStatement
  return .bindings patterns

/-- Whether the current word begins a declaration, with modifiers before it. -/
def startsDeclaration : Parse Bool :=
  lookahead <| loop (fun (_ : Unit) => do
    match ← kind with
    | .word text =>
      advance
      let sameLine := !(← isOnNewLine)
      if ["var", "let", "const", "function", "class", "enum"].contains text then
        return .inr true
      else if ["interface", "type"].contains text then
        return .inr ((← kind).isBindingName && sameLine)
      else if ["module", "namespace"].contains text then
        return .inr (((← kind).isBindingName || (← kind).isString) && sameLine)
      else if ["abstract", "accessor", "async", "declare", "private", "protected", "public",
          "readonly"].contains text then
        if !sameLine then return .inr false
        if text == "declare" && (← isAtWord "type") then return .inr true
        return .inl ()
      else if text == "global" then
        return .inr ((← isAt "\x7b") || (← kind).isBindingName || (← isAtWord "export"))
      else if text == "import" then
        return .inr ((← kind).isString || (← kind).isAnyWord || (← isAtAny ["*", "\x7b"]))
      else if text == "export" then
        if (← isAtAny ["=", "*", "\x7b", "@"]) || (← isAtAnyWord ["default", "as"]) then
          return .inr true
        return .inl ()
      else if text == "static" then return .inl ()
      else return .inr false
    | _ => return .inr false) ()

/-- Words that may begin a declaration only TypeScript has, modifiers included. -/
def declarationWords : List String :=
  ["interface", "type", "module", "namespace", "global", "enum", "abstract", "accessor", "async",
   "declare", "private", "protected", "public", "readonly", "static"]

/-- The value of an import alias behind its name: `= require("m")`, or a name with dots. -/
def importAlias (g : Grammar) (start : Nat) (name : String) (typeOnly : Bool) :
    Parse Declaration := do
  expect "="
  if (← isAtWord "require") && (← nextIs (isAt "(")) then
    let call ← Parse.start
    advance
    advance
    let (specifier, _) ← stringLiteral
    expect ")"
    note (.looseRequire specifier (← spanFrom call))
  else
    dottedName
    typeArgumentsOnLine g
  endStatement
  return .importAlias name typeOnly (← spanFrom start)

/-- An interface from its keyword on. Gives its name. -/
def interface (g : Grammar) : Parse String := do
  expectWord "interface"
  let name ← bindingName
  typeParameters g
  heritage g
  typeMembers g
  return name

/-- The members of an enumeration. -/
def enumerationBody (g : Grammar) : Parse Unit := do
  expect "\x7b"
  let _ ← commaList "\x7d" do
    let _ ← memberName g
    if ← eat "=" then
      let _ ← withIn (g (.assignment true))
  expect "\x7d"

/-- An enumeration behind its keyword. -/
def enumeration (g : Grammar) (start : Nat) : Parse Declaration := do
  let name ← bindingName
  enumerationBody g
  return .enumeration name (← spanFrom start)

/-- A type alias behind its keyword. -/
def typeAlias (g : Grammar) (start : Nat) : Parse Declaration := do
  let name ← bindingName
  typeParameters g
  expect "="
  if (← isAtWord "intrinsic") && !(← nextIs (isAt ".")) then advance
  else g .type
  endStatement
  return .typeAlias name (← spanFrom start)

/-- A namespace behind its keyword. A quoted name belongs to another module, whose body may be
missing. -/
def namespaceRest (g : Grammar) (start : Nat) : Parse Declaration := do
  if (← kind).isString then
    advance
    if ← isAt "\x7b" then block g else endStatement
    return .namespace none (← spanFrom start)
  else
    let name ← bindingName
    dottedRest
    block g
    return .namespace (some name) (← spanFrom start)

/-- A declaration behind its modifiers, which begin at `start`. -/
def declaration (g : Grammar) (start : Nat) : Parse Declaration := do
  match ← kind with
  | .word text =>
    if text == "class" then
      let name ← classRest g
      return .class name (← spanFrom start)
    else if ← startsFunction then
      let name ← function g
      return .function name (← spanFrom start)
    else if text == "import" then
      advance
      let typeOnly := (← isAtWord "type") && !(← nextIs (isAt "="))
      if typeOnly then advance
      let name ← bindingName
      importAlias g start name typeOnly
    else if text == "const" && (← isTypeScript) && (← nextIs (isAtWord "enum")) then
      advance
      advance
      enumeration g start
    else if ["var", "let", "const"].contains text then variableStatement g
    else if ← isTypeScript then
      if text == "interface" then
        let name ← interface g
        return .interface name (← spanFrom start)
      else if text == "type" then
        advance
        typeAlias g start
      else if text == "enum" then
        advance
        enumeration g start
      else if text == "module" || text == "namespace" then
        advance
        namespaceRest g start
      else if text == "global" then
        advance
        block g
        return .namespace none (← spanFrom start)
      else unexpected
    else unexpected
  | _ => unexpected

/-- A declaration with its modifiers. -/
def modifiedDeclaration (g : Grammar) : Parse Declaration := do
  let start ← start
  let _ ← modifiers false false
  declaration g start

end BarrelSynthesis.Source.Parse
