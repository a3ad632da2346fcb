/-
# Grammar: types

Nothing of a type is kept, so parsing one only finds out where it ends and whether it is one.
-/
import BarrelSynthesis.Source.Grammar.Binding

namespace BarrelSynthesis.Source.Parse

/-- Moves to the next token and asks about it. -/
def nextIs (question : Parse Bool) : Parse Bool :=
  lookahead do
    advance
    question

/-- Whether an opening angle bracket stands here. An operator beginning with one is cut. -/
def isAtLeftAngle : Parse Bool := do
  let shrunk := (← token).shrinkLeftAngle
  if shrunk.kind.isPunctuator "<" then
    replaceToken shrunk
    return true
  else return false

/-- The parts of a template around its substitutions. -/
def templateParts (substitution : Parse Unit) : Parse Unit :=
  loop (fun (_ : Unit) => do
    match ← kind with
    | .template true =>
      advance
      return .inr ()
    | .template false =>
      advance
      substitution
      match (← token).asTemplatePart? with
      | some part =>
        replaceToken part
        return .inl ()
      | none => unexpected
    | _ => unexpected) ()

/-- Words that begin a type without naming one. -/
def typeWords : List String :=
  ["new", "true", "false", "null", "void", "this", "typeof", "import"]

/-- Whether a type may begin here, at the beginning of a parameter. -/
def startsTypeInParameter : Parse Bool := do
  match ← kind with
  | .word text => return isBindingWord text || typeWords.contains text
  | .string _ => return true
  | .number => return true
  | .template _ => return true
  | .punctuator text => return ["\x7b", "[", "<", "|", "&", "*", "?", "!", "..."].contains text
  | _ => return false

/-- Whether a parameter may begin here. -/
def startsParameter : Parse Bool := do
  let kind ← kind
  if kind.isBindingName || kind.isModifier || ["...", "[", "\x7b", "@"].any kind.isPunctuator then
    return true
  startsTypeInParameter

/-- Whether a type may begin here. -/
def startsType : Parse Bool := do
  if ← isAt "-" then nextIs (do return (← kind) = .number)
  else if ← isAt "(" then
    nextIs do return (← isAt ")") || (← startsParameter) || (← startsTypeInParameter)
  else if ← isAtWord "function" then return true
  else startsTypeInParameter

/-- Whether an opening parenthesis begins the parameters of a function type. -/
def opensFunctionType (g : Grammar) : Parse Bool :=
  lookahead do
    advance
    if (← isAt ")") || (← isAt "...") then return true
    if (← kind).isModifier then
      let _ ← modifiers false false
    if (← kind).isBindingName || (← isAtWord "this") then advance
    else if (← isAt "[") || (← isAt "\x7b") then
      let _ ← g .bindingPattern
    else return false
    if ← isAtAny [":", ",", "?", "="] then return true
    if ← isAt ")" then
      advance
      isAt "=>"
    else return false

/-- Whether a function or constructor type begins here. -/
def startsFunctionType (g : Grammar) : Parse Bool := do
  if ← isAt "<" then return true
  if ← isAt "(" then opensFunctionType g
  else if ← isAtWord "new" then return true
  else if ← isAtWord "abstract" then nextIs (isAtWord "new")
  else return false

/-- A function or constructor type. -/
def functionType (g : Grammar) : Parse Unit := do
  let _ ← eatWord "abstract"
  let _ ← eatWord "new"
  typeParameters g
  parameters g
  expect "=>"
  resultType g

/-- Type arguments between angle brackets. -/
def typeArguments (g : Grammar) : Parse Unit := do
  let _ ← isAtLeftAngle
  expect "<"
  let _ ← commaList ">" (g .type)
  expect ">"

/-- Type arguments, if they begin on the line the name before them ends on. -/
def typeArgumentsOnLine (g : Grammar) : Parse Unit := do
  if !(← isOnNewLine) && (← isAtLeftAngle) then typeArguments g

/-- Words behind dots. -/
def dottedRest : Parse Unit := do
  let _ ← manyWhile (isAt ".") do
    advance
    anyWord

/-- A name with dots in it. -/
def dottedName : Parse Unit := do
  let _ ← anyWord
  dottedRest

/-- A reference to a type by name. -/
def typeReference (g : Grammar) : Parse Unit := do
  dottedName
  typeArgumentsOnLine g

/-- The type of an imported module, `import("m").A<B>`. -/
def importType (g : Grammar) : Parse Unit := do
  expectWord "import"
  expect "("
  g .type
  if ← eat "," then
    if !(← isAt ")") then
      let _ ← withIn (g (.assignment true))
      let _ ← eat ","
  expect ")"
  dottedRest
  typeArgumentsOnLine g

/-- Ends a member of an interface: at a comma, or as a statement ends. -/
def endTypeMember : Parse Unit := do
  if !(← eat ",") then endStatement

/-- Whether an opening bracket begins an index signature rather than a computed name. -/
def opensIndexSignature : Parse Bool := do
  if !(← isAt "[") then return false
  lookahead do
    advance
    if (← isAt "...") || (← isAt "]") then return true
    let kind ← kind
    if kind.isModifier then
      advance
      if (← Parse.kind).isBindingName then return true
    else if !kind.isBindingName then return false
    else advance
    if (← isAt ":") || (← isAt ",") then return true
    if !(← eat "?") then return false
    isAtAny [":", ",", "]"]

/-- An index signature. -/
def indexSignature (g : Grammar) : Parse Unit := do
  expect "["
  let _ ← commaList "]" do
    let _ ← modifiers false false
    let _ ← eat "..."
    let _ ← anyWord
    let _ ← eat "?"
    typeClause g
  expect "]"
  typeClause g
  endTypeMember

/-- The parameters and result of a method, a call or a constructor. -/
def signature (g : Grammar) : Parse Unit := do
  typeParameters g
  parameters g
  resultClause g
  endTypeMember

/-- A member of an interface or an object type. -/
def typeMember (g : Grammar) : Parse Unit := do
  if ← isAtAny ["(", "<"] then signature g
  else if (← isAtWord "new") && (← nextIs (isAtAny ["(", "<"])) then
    advance
    signature g
  else
    let _ ← modifiers false false
    if (← accessorWord "get") || (← accessorWord "set") then
      let _ ← memberName g
      signature g
    else if ← opensIndexSignature then indexSignature g
    else
      let _ ← memberName g
      let _ ← eat "?"
      if ← isAtAny ["(", "<"] then signature g
      else
        typeClause g
        if ← eat "=" then
          let _ ← withIn (g (.assignment true))
        endTypeMember

/-- The members of an interface or an object type between braces. -/
def typeMembers (g : Grammar) : Parse Unit := do
  expect "\x7b"
  let _ ← manyWhile (do return !(← isAt "\x7d")) (typeMember g)
  expect "\x7d"

/-- Whether an opening brace begins a mapped type. -/
def opensMappedType : Parse Bool :=
  lookahead do
    advance
    if ← isAtAny ["+", "-"] then
      advance
      isAtWord "readonly"
    else
      let _ ← eatWord "readonly"
      if !(← eat "[") then return false
      if !(← kind).isBindingName then return false
      advance
      isAtWord "in"

/-- A mapped type. -/
def mappedType (g : Grammar) : Parse Unit := do
  expect "\x7b"
  if ← isAtAny ["+", "-"] then
    advance
    expectWord "readonly"
  else
    let _ ← eatWord "readonly"
  expect "["
  let _ ← bindingName
  expectWord "in"
  g .type
  if ← eatWord "as" then g .type
  expect "]"
  if ← isAtAny ["+", "-"] then
    advance
    expect "?"
  else
    let _ ← eat "?"
  typeClause g
  endTypeMember
  expect "\x7d"

/-- An element of a tuple type: a type, or a name and a type, either of them possibly spread. -/
def tupleElement (g : Grammar) : Parse Unit := do
  let _ ← eat "..."
  let named ← lookahead do
    let _ ← anyWord
    let _ ← eat "?"
    isAt ":"
  if named then
    let _ ← anyWord
    let _ ← eat "?"
    expect ":"
  g .type

/-- Words that are types unless a dot follows them. -/
def keywordTypes : List String :=
  ["any", "unknown", "string", "number", "bigint", "symbol", "boolean", "undefined", "never",
   "object"]

/-- A type in one piece, without array brackets behind it. -/
def simpleType (g : Grammar) : Parse Unit := do
  match ← kind with
  | .word text =>
    if ["true", "false", "null", "void"].contains text then advance
    else if keywordTypes.contains text && !(← nextIs (isAt ".")) then advance
    else if text == "this" then
      advance
      if (← isAtWord "is") && !(← isOnNewLine) then
        advance
        g .type
    else if text == "typeof" then
      advance
      if ← isAtWord "import" then importType g
      else
        dottedName
        typeArgumentsOnLine g
    else if text == "import" then importType g
    else if text == "asserts" && (← nextIs do
        return ((← kind).isBindingName || (← isAtWord "this")) && !(← isOnNewLine)) then
      advance
      advance
      if ← eatWord "is" then g .type
    else typeReference g
  | .string _ => advance
  | .number => advance
  | .template _ => templateParts (g .type)
  | .punctuator "-" =>
    advance
    if (← kind) = .number then advance else unexpected
  | .punctuator "\x7b" => if ← opensMappedType then mappedType g else typeMembers g
  | .punctuator "[" =>
    advance
    let _ ← commaList "]" (tupleElement g)
    expect "]"
  | .punctuator "(" =>
    advance
    g .type
    expect ")"
  | .punctuator "*" => advance
  | .punctuator "?" =>
    advance
    if !(← isAtAny [",", "\x7d", ")", ">", "=", "|"]) then g .type
  | .punctuator "!" =>
    advance
    g .typeOperand
  | _ => unexpected

/-- A type with array brackets or an index behind it. -/
def postfixType (g : Grammar) : Parse Unit := do
  simpleType g
  loop (fun (_ : Unit) => do
    if ← isOnNewLine then return .inr ()
    else if ← isAt "!" then
      advance
      return .inl ()
    else if ← isAt "?" then
      if ← nextIs startsType then return .inr ()
      advance
      return .inl ()
    else if ← eat "[" then
      if ← startsType then g .type
      expect "]"
      return .inl ()
    else return .inr ()) ()

/-- A type with operators before it. -/
def typeOperand (g : Grammar) : Parse Unit := do
  if ← isAtAnyWord ["keyof", "unique", "readonly"] then
    advance
    g .typeOperand
  else if ← eatWord "infer" then
    let _ ← bindingName
    let _ ← attempt? do
      expectWord "extends"
      within (fun context => { context with plainTypes := true }) (g .type)
      if !(← context).plainTypes && (← isAt "?") then unexpected
  else within (fun context => { context with plainTypes := false }) (postfixType g)

/-- Operands of a type operator. It may also stand before the first. -/
def typesBetween (operator : String) (operand : Parse Unit) : Parse Unit := do
  let _ ← eat operator
  operand
  let _ ← manyWhile (isAt operator) do
    advance
    operand

/-- A type. -/
def type (g : Grammar) : Parse Unit := do
  if ← startsFunctionType g then functionType g
  else
    typesBetween "|" (typesBetween "&" (typeOperand g))
    if !(← context).plainTypes && !(← isOnNewLine) then
      if ← eatWord "extends" then
        within (fun context => { context with plainTypes := true }) (g .type)
        expect "?"
        within (fun context => { context with plainTypes := false }) (g .type)
        expect ":"
        within (fun context => { context with plainTypes := false }) (g .type)

end BarrelSynthesis.Source.Parse
