/-
# Grammar: JSX

Elements and fragments. Their children are read by rules of their own, so an element leaves its last
angle bracket as the current token and whoever asked for the element decides how to read on.
-/
import BarrelSynthesis.Source.Grammar.Function

namespace BarrelSynthesis.Source.Parse

/-- Moves to the next token among the children of an element. -/
def advanceJsxChild : Parse Unit := do
  let token ← token
  advanceTo (nextJsxChild token.rest token.stop)

/-- Moves to the value of an attribute. -/
def advanceJsxValue : Parse Unit := do
  let token ← token
  advanceTo (nextJsxValue token.rest token.stop)

/-- A word that may hold hyphens. -/
def jsxWord : Parse String := do
  replaceToken (← token).asJsxName
  anyWord

/-- The name of an element: a word, a word in a namespace, or words behind dots. Behind a dot there are no
hyphens. -/
def jsxName : Parse Unit := do
  let _ ← jsxWord
  if ← eat ":" then
    let _ ← jsxWord
  else
    let _ ← manyWhile (isAt ".") do
      advance
      if (← jsxWord).contains '-' then unexpected

/-- An expression inside braces, whose closing brace stays current. -/
def jsxExpression (g : Grammar) : Parse Unit := do
  let _ ← within (fun context =>
    { context with allowIn := true, decorator := false, plainTypes := false }) (g .expression)
  if !(← isAt "\x7d") then unexpected

/-- Braces around an expression or nothing. The closing one stays current. -/
def jsxContainer (g : Grammar) : Parse Unit := do
  expect "\x7b"
  if !(← isAt "\x7d") then jsxExpression g

/-- Braces around an expression behind three dots. The closing one stays current. -/
def jsxSpread (g : Grammar) : Parse Unit := do
  expect "\x7b"
  expect "..."
  jsxExpression g

/-- An attribute with its value, or attributes spread from an object. -/
def jsxAttribute (g : Grammar) : Parse Unit := do
  if ← isAt "\x7b" then
    jsxSpread g
    advance
  else
    let _ ← jsxWord
    if ← eat ":" then
      let _ ← jsxWord
    if ← isAt "=" then
      advanceJsxValue
      if (← kind).isString then advance
      else if ← isAt "\x7b" then
        jsxContainer g
        advance
      else if ← isAt "<" then
        g .jsxElement
        advance
      else unexpected

/-- Children up to the closing tag, which is left at its slash. -/
def jsxChildren (g : Grammar) : Parse Unit := do
  advanceJsxChild
  loop (fun (_ : Unit) => do
    if (← kind) = .jsxText then
      advanceJsxChild
      return .inl ()
    else if ← isAt "\x7b" then
      if ← nextIs (isAt "...") then jsxSpread g else jsxContainer g
      advanceJsxChild
      return .inl ()
    else if ← isAt "<" then
      if ← nextIs (isAt "/") then
        advance
        return .inr ()
      g .jsxElement
      advanceJsxChild
      return .inl ()
    else unexpected) ()

/-- An element or a fragment up to its last angle bracket, which stays current. -/
def jsxElement (g : Grammar) : Parse Unit := do
  expect "<"
  if ← isAt ">" then
    jsxChildren g
    expect "/"
  else
    jsxName
    if (← isTypeScript) && (← isAtLeftAngle) then typeArguments g
    let _ ← manyWhile (do return !(← isAtAny [">", "/"])) (jsxAttribute g)
    if !(← eat "/") then
      jsxChildren g
      expect "/"
      jsxName
  if !(← isAt ">") then unexpected

end BarrelSynthesis.Source.Parse
