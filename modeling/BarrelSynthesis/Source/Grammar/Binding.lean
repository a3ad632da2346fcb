/-
# Grammar: names, bindings and parameters

Modifiers, member names, binding patterns with their types and default values, type parameters, and
the parameter lists of functions.
-/
import BarrelSynthesis.Source.Grammar.Basic

namespace BarrelSynthesis.Source.Parse

/-- Whether the current token can begin what a modifier stands before. -/
def canFollowModifier : Parse Bool := do
  let kind ← kind
  return kind.isLiteralMemberName || kind = .privateName
    || ["[", "\x7b", "*", "..."].any kind.isPunctuator

/-- Whether the current token can begin what `export` stands before as a modifier. -/
def canFollowExportModifier : Parse Bool := do
  if ← isAt "@" then return true
  if (← isAt "*") || (← isAtWord "as") || (← isAt "\x7b") then return false
  canFollowModifier

/-- Whether the token behind `default` can begin a declaration. -/
def canFollowDefault : Parse Bool := do
  advance
  if (← isAtAnyWord ["class", "function", "interface"]) || (← isAt "@") then return true
  if ← isAtWord "abstract" then
    advance
    return (← isAtWord "class") && !(← isOnNewLine)
  if ← isAtWord "async" then
    advance
    return (← isAtWord "function") && !(← isOnNewLine)
  return false

/-- Whether the current word is a modifier, judged by what follows it. -/
def standsAsModifier : Parse Bool := do
  if !(← kind).isModifier then return false
  if ← isAtWord "const" then
    advance
    isAtWord "enum"
  else if ← isAtWord "export" then
    advance
    if ← isAtWord "default" then lookahead canFollowDefault
    else if ← isAtWord "type" then
      advance
      canFollowExportModifier
    else canFollowExportModifier
  else if ← isAtWord "default" then canFollowDefault
  else if ← isAtWord "static" then
    advance
    canFollowModifier
  else
    advance
    return !(← isOnNewLine) && (← canFollowModifier)

/-- Passes modifiers and gives them. `allowConst` also takes `const` for one, `inClass` leaves the
`static` that opens a static block. A second `static` is a name. -/
def modifiers (allowConst inClass : Bool) : Parse (List String) :=
  loop (fun found : List String => do
    let stands ←
      if allowConst && (← isAtWord "const") then
        lookahead do
          advance
          return !(← isOnNewLine) && (← canFollowModifier)
      else if (← isAtWord "static") && found.contains "static" then pure false
      else if inClass && (← isAtWord "static") && (← lookahead (do advance; isAt "\x7b")) then
        pure false
      else lookahead standsAsModifier
    if stands then return .inl ((← anyWord) :: found)
    else return .inr found.reverse) []

/-- Passes `get` or `set` where it marks an accessor. -/
def accessorWord (word : String) : Parse Bool := do
  if (← isAtWord word) && (← lookahead (do advance; canFollowModifier)) then
    advance
    return true
  else return false

/-- A type behind a colon, where the language has types. -/
def typeClause (g : Grammar) : Parse Unit := do
  if ← isTypeScript then
    if ← eat ":" then g .type

/-- The name of a member. Gives the word and its place when the name is a plain word. -/
def memberName (g : Grammar) : Parse (Option Name) := do
  let token ← token
  match token.kind with
  | .word text =>
    advance
    return some ⟨text, ⟨token.start, token.stop⟩⟩
  | .string _ => advance; return none
  | .number => advance; return none
  | .punctuator "[" =>
    advance
    let _ ← withIn (g (.assignment true))
    expect "]"
    return none
  | _ => unexpected

/-- A default value behind `=`. -/
def withDefaultValue (g : Grammar) (pattern : BindingPattern) : Parse BindingPattern := do
  if ← eat "=" then
    let _ ← withIn (g (.assignment true))
    return .withDefault pattern
  else return pattern

/-- A pattern with its type and default value. -/
def bindingElement (g : Grammar) : Parse BindingPattern := do
  let pattern ← g .bindingPattern
  typeClause g
  withDefaultValue g pattern

/-- A property of an object pattern: `name`, `name = value` or `key: pattern`. -/
def bindingProperty (g : Grammar) : Parse BindingPattern := do
  let names := (← kind).isBindingName
  match ← memberName g with
  | some name =>
    if names && !(← isAt ":") then withDefaultValue g (.name name)
    else
      expect ":"
      bindingElement g
  | none =>
    expect ":"
    bindingElement g

/-- The remaining entries of a pattern, behind an ellipsis. -/
def bindingRest (g : Grammar) : Parse BindingPattern := do
  advance
  let pattern ← g .bindingPattern
  withDefaultValue g pattern

/-- A name, an object pattern or an array pattern. -/
def bindingPattern (g : Grammar) : Parse BindingPattern := do
  if ← eat "\x7b" then
    let (properties, rest) ← restList "\x7d" (bindingProperty g) (bindingRest g)
    expect "\x7d"
    return .object properties rest
  else if ← eat "[" then
    let element : Parse (Option BindingPattern) := do
      if ← isAt "," then return none else return some (← bindingElement g)
    let (elements, rest) ← restList "]" element (bindingRest g)
    expect "]"
    return .array elements rest
  else
    let start ← start
    let text ← bindingName
    return .name ⟨text, ← spanFrom start⟩

/-- Decorators, each `@` and an expression. -/
def decorators (g : Grammar) : Parse Unit := do
  let _ ← manyWhile (isAt "@") do
    advance
    within (fun context => { context with decorator := true }) (g .leftHandSide)

/-- One type parameter. -/
def typeParameter (g : Grammar) : Parse Unit := do
  let _ ← modifiers true false
  let _ ← bindingName
  if ← eatWord "extends" then g .type
  if ← eat "=" then g .type

/-- Type parameters between angle brackets, where the language has them and they are there. -/
def typeParameters (g : Grammar) : Parse Unit := do
  if (← isTypeScript) && (← isAt "<") then
    advance
    let _ ← commaList ">" (typeParameter g)
    expect ">"

/-- The type a function gives: a type, or a statement about a parameter. -/
def resultType (g : Grammar) : Parse Unit := do
  let predicate ← lookahead do
    let names := (← kind).isAnyWord
    advance
    return names && (← isAtWord "is") && !(← isOnNewLine)
  if predicate then
    advance
    advance
  g .type

/-- The type a function gives, behind a colon. -/
def resultClause (g : Grammar) : Parse Unit := do
  if ← isTypeScript then
    if ← eat ":" then resultType g

/-- One parameter of a function. -/
def parameter (g : Grammar) : Parse Unit := do
  decorators g
  let _ ← modifiers false false
  let pattern ← g .bindingPattern
  if ← isTypeScript then
    let _ ← eat "?"
  typeClause g
  let _ ← withDefaultValue g pattern

/-- The parameter that takes all remaining arguments. -/
def restParameter (g : Grammar) : Parse Unit := do
  advance
  let pattern ← g .bindingPattern
  if ← isTypeScript then
    let _ ← eat "?"
  typeClause g
  let _ ← withDefaultValue g pattern

/-- The parameters of a function, parentheses included. -/
def parameters (g : Grammar) : Parse Unit := do
  expect "("
  if (← isTypeScript) && (← isAtWord "this") then
    advance
    typeClause g
    if !(← isAt ")") then expect ","
  let _ ← restList ")" (parameter g) (restParameter g)
  expect ")"

end BarrelSynthesis.Source.Parse
