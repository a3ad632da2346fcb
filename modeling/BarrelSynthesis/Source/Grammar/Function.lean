/-
# Grammar: functions and classes

Parameters and bodies of functions, arrow functions and methods, and the members of classes.
-/
import BarrelSynthesis.Source.Grammar.Types

namespace BarrelSynthesis.Source.Parse

/-- Statements between braces. -/
def block (g : Grammar) : Parse Unit := do
  expect "\x7b"
  let _ ← manyWhile (do return !(← isAt "\x7d")) (g (.statement false))
  expect "\x7d"

/-- The body of a function. -/
def functionBody (g : Grammar) : Parse Unit :=
  within (fun context => { context with allowIn := true, decorator := false, plainTypes := false })
    (block g)

/-- What stands behind the name of a function: type parameters, parameters, the type of the result and
the body. Only TypeScript has functions without a body, which end like a statement. -/
def functionRest (g : Grammar) (async generator : Bool) : Parse Unit := do
  let bodied ← within (fun context =>
      { context with
        allowIn := true, decorator := false, awaiting := async, yielding := generator }) do
    typeParameters g
    parameters g
    resultClause g
    if ← isAt "\x7b" then
      functionBody g
      return true
    else return false
  if !bodied then
    if ← isTypeScript then endStatement else unexpected

/-- Whether the current word begins a function: `function`, or `async function` on one line. -/
def startsFunction : Parse Bool := do
  if ← isAtWord "function" then return true
  if ← isAtWord "async" then
    nextIs do return (← isAtWord "function") && !(← isOnNewLine)
  else return false

/-- A function with its keyword. Gives the name, if it has one. -/
def function (g : Grammar) : Parse (Option String) := do
  let async ← eatWord "async"
  expectWord "function"
  let generator ← eat "*"
  let name ← if (← kind).isBindingName then some <$> anyWord else pure none
  functionRest g async generator
  return name

/-- The body of an arrow function, behind the arrow. -/
def arrowBody (g : Grammar) (async allowReturnType : Bool) : Parse Unit :=
  within (fun context => { context with awaiting := async, yielding := false }) do
    if ← isAt "\x7b" then functionBody g
    else
      let _ ← g (.assignment allowReturnType)

/-- The expressions a class or an interface extends, with their type arguments. -/
def extendedTypes (g : Grammar) : Parse Unit := do
  let one : Parse Unit := do
    let _ ← g .leftHandSide
    if (← isTypeScript) && (← isAtLeftAngle) then typeArguments g
  one
  let _ ← manyWhile (isAt ",") do
    advance
    one

/-- The types a class implements. -/
def implementedTypes (g : Grammar) : Parse Unit := do
  typeReference g
  let _ ← manyWhile (isAt ",") do
    advance
    typeReference g

/-- The clauses between the name and the body of a class. -/
def heritage (g : Grammar) : Parse Unit := do
  let _ ← manyWhile (isAtAnyWord ["extends", "implements"]) do
    if ← eatWord "extends" then extendedTypes g
    else
      advance
      implementedTypes g

/-- The name of a class member. -/
def classMemberName (g : Grammar) : Parse Unit := do
  if (← kind) = .privateName then advance
  else
    let _ ← memberName g

/-- A method or a property of a class. -/
def methodOrProperty (g : Grammar) (async : Bool) : Parse Unit := do
  let generator ← eat "*"
  classMemberName g
  if ← isTypeScript then
    let _ ← eat "?"
  if generator || (← isAtAny ["(", "<"]) then functionRest g async generator
  else
    if (← isTypeScript) && !(← isOnNewLine) then
      let _ ← eat "!"
    typeClause g
    if ← eat "=" then
      let _ ← within (fun context =>
          { context with
            allowIn := true, decorator := false, yielding := false, awaiting := false })
        (g (.assignment true))
    endStatement

/-- A member of a class. -/
def classMember (g : Grammar) : Parse Unit := do
  decorators g
  let found ← modifiers true true
  if (← isAtWord "static") && (← nextIs (isAt "\x7b")) then
    advance
    functionBody g
  else if (← accessorWord "get") || (← accessorWord "set") then
    classMemberName g
    functionRest g false false
  else if (← isTypeScript) && (← opensIndexSignature) then indexSignature g
  else methodOrProperty g (found.contains "async")

/-- The members of a class between braces. -/
def classBody (g : Grammar) : Parse Unit := do
  expect "\x7b"
  let _ ← manyWhile (do return !(← isAt "\x7d")) do
    if !(← eat ";") then classMember g
  expect "\x7d"

/-- A class from its keyword on. Gives the name, if it has one. -/
def classRest (g : Grammar) : Parse (Option String) := do
  expectWord "class"
  let name ←
    if (← kind).isBindingName && !(← isAtWord "implements") then some <$> anyWord else pure none
  typeParameters g
  heritage g
  within (fun context => { context with decorator := false }) (classBody g)
  return name

end BarrelSynthesis.Source.Parse
