/-
# Grammar: statements
-/
import BarrelSynthesis.Source.Grammar.Modules

namespace BarrelSynthesis.Source.Parse

/-- An expression in the parentheses behind a keyword. -/
def condition (g : Grammar) : Parse Unit := do
  expect "("
  let _ ← withIn (g .expression)
  expect ")"

/-- The statement another statement holds. -/
def body (g : Grammar) : Parse Unit := do
  let _ ← g (.statement true)

/-- A conditional statement. -/
def ifStatement (g : Grammar) : Parse Unit := do
  expectWord "if"
  condition g
  body g
  if ← eatWord "else" then body g

/-- A loop that tests behind its body. -/
def doStatement (g : Grammar) : Parse Unit := do
  expectWord "do"
  body g
  expectWord "while"
  condition g
  let _ ← eat ";"

/-- Whether `let` begins a declaration in the head of a loop. -/
def letDeclares : Parse Bool :=
  nextIs do return (← kind).isBindingName || (← isAtAny ["[", "\x7b"])

/-- Whether `using` begins a declaration. -/
def usingDeclares : Parse Bool := do
  if ← isAtWord "using" then
    nextIs do return (← kind).isBindingName && !(← isOnNewLine)
  else return false

/-- Whether `await using` begins a declaration. -/
def awaitUsingDeclares : Parse Bool := do
  if ← isAtWord "await" then
    nextIs do return !(← isOnNewLine) && (← usingDeclares)
  else return false

/-- The remaining head of a loop that counts, from its first semicolon on. -/
def countingHead (g : Grammar) : Parse Unit := do
  expect ";"
  if !(← isAt ";") then
    let _ ← withIn (g .expression)
  expect ";"
  if !(← isAt ")") then
    let _ ← withIn (g .expression)

/-- The remaining head of a loop behind what it declares or starts with. -/
def loopHead (g : Grammar) (assignable : Bool) : Parse Unit := do
  if ← isAtWord "of" then
    if !assignable then unexpected
    advance
    let _ ← withIn (g (.assignment true))
  else if ← isAtWord "in" then
    if !assignable then unexpected
    advance
    let _ ← withIn (g .expression)
  else countingHead g

/-- A loop with a head of its own. -/
def forStatement (g : Grammar) : Parse Unit := do
  expectWord "for"
  let _ ← eatWord "await"
  expect "("
  let withoutIn : Context → Context := fun context => { context with allowIn := false }
  if ← isAt ";" then countingHead g
  else if (← isAtAnyWord ["var", "const"]) || ((← isAtWord "let") && (← letDeclares)) then
    advance
    let _ ← within withoutIn (declarators g)
    loopHead g true
  else if (← usingDeclares) && !(← nextIs (isAtWord "of")) then
    advance
    let _ ← within withoutIn (declarators g)
    loopHead g true
  else if ← awaitUsingDeclares then
    advance
    advance
    let _ ← within withoutIn (declarators g)
    loopHead g true
  else
    let first ← within withoutIn (g .expression)
    loopHead g first.isTarget
  expect ")"
  body g

/-- `continue` or `break` with an optional label. -/
def jump : Parse Unit := do
  advance
  if !(← canEndStatement) then
    let _ ← bindingName
  endStatement

/-- A selection between cases. -/
def switchStatement (g : Grammar) : Parse Unit := do
  expectWord "switch"
  condition g
  expect "\x7b"
  let _ ← manyWhile (do return !(← isAt "\x7d")) do
    if ← eatWord "case" then
      let _ ← withIn (g .expression)
    else expectWord "default"
    expect ":"
    manyWhile (do return !(← isAt "\x7d") && !(← isAtAnyWord ["case", "default"]))
      (g (.statement false))
  expect "\x7d"

/-- A block with handlers. -/
def tryStatement (g : Grammar) : Parse Unit := do
  expectWord "try"
  block g
  if ← eatWord "catch" then
    if ← eat "(" then
      let _ ← g .bindingPattern
      typeClause g
      expect ")"
    block g
  if ← eatWord "finally" then block g

/-- `return` with an optional value. -/
def returnStatement (g : Grammar) : Parse Unit := do
  expectWord "return"
  if !(← canEndStatement) then
    let _ ← withIn (g .expression)
  endStatement

/-- `throw` with its value. -/
def throwStatement (g : Grammar) : Parse Unit := do
  expectWord "throw"
  let _ ← withIn (g .expression)
  endStatement

/-- An expression as a statement, or a statement with a label. -/
def expressionStatement (g : Grammar) : Parse Unit := do
  match ← g .expression with
  | .identifier _ => if ← eat ":" then body g else endStatement
  | _ => endStatement

/-- Whether the token behind `let` makes an expression of it, and whether the expression is `let`
alone. -/
def letStatement (g : Grammar) (single : Bool) : Parse Statement := do
  let operates ← nextIs do
    return (operatorPrecedence? (← kind)).isSome || (← isAtAny assignmentOperators)
      || (← isAtAny [".", "("])
  let ends ← nextIs do
    if ← isAt ";" then return true
    return single && !(← isAt "[")
  if operates then
    expressionStatement g
    return .other
  else if ends then
    advance
    endStatement
    return .other
  else return .declaration (← variableStatement g)

/-- A statement that begins with a decorator. -/
def decoratedStatement (g : Grammar) : Parse Statement := do
  let start ← start
  decorators g
  if ← isAtWord "export" then exportStatement g
  else
    let _ ← modifiers false false
    let name ← classRest g
    return .declaration (.class name (← spanFrom start))

/-- A statement that begins with a given word. -/
def wordStatement (g : Grammar) (single : Bool) (word : String) : Parse Statement := do
  if word == "import" && !(← nextIs (isAtAny ["(", "."])) then importStatement g
  else if word == "export" then exportStatement g
  else if word == "if" then ifStatement g; return .other
  else if word == "do" then doStatement g; return .other
  else if word == "while" || word == "with" then
    advance
    condition g
    body g
    return .other
  else if word == "for" then forStatement g; return .other
  else if word == "continue" || word == "break" then jump; return .other
  else if word == "switch" then switchStatement g; return .other
  else if word == "try" then tryStatement g; return .other
  else if word == "return" then returnStatement g; return .other
  else if word == "throw" then throwStatement g; return .other
  else if word == "debugger" then
    advance
    endStatement
    return .other
  else if word == "let" && !(← token).escaped then letStatement g single
  else if ["class", "var", "const", "function"].contains word then
    return .declaration (← declaration g (← start))
  else if ← startsFunction then return .declaration (← declaration g (← start))
  else if ← usingDeclares then return .declaration (← variableStatement g)
  else if ← awaitUsingDeclares then
    advance
    return .declaration (← variableStatement g)
  else if (← isTypeScript) && declarationWords.contains word && (← startsDeclaration) then
    return .declaration (← modifiedDeclaration g)
  else
    expressionStatement g
    return .other

/-- A statement. `single` says that it is held by another statement without a block. -/
def statement (g : Grammar) (single : Bool) : Parse Statement := do
  match ← kind with
  | .punctuator "\x7b" =>
    block g
    return .other
  | .punctuator ";" =>
    advance
    return .other
  | .punctuator "@" => decoratedStatement g
  | .word word => wordStatement g single word
  | _ =>
    expressionStatement g
    return .other

end BarrelSynthesis.Source.Parse
