/-
# Grammar: expressions

Operators climb by precedence. Where a parenthesis may begin an arrow function the head of the function
is tried first, and the text behind the arrow is parsed once it is known to be there. Calls of
`require` and dynamic imports are noted as references when their first argument is constant.
-/
import BarrelSynthesis.Source.Grammar.Jsx

namespace BarrelSynthesis.Source.Parse

/-- The binding strength of the operators between two operands. -/
def operatorPrecedence? : TokenKind → Option Nat
  | .punctuator text =>
    if text == "??" then some 1
    else if text == "||" then some 2
    else if text == "&&" then some 3
    else if text == "|" then some 4
    else if text == "^" then some 5
    else if text == "&" then some 6
    else if ["==", "!=", "===", "!=="].contains text then some 7
    else if ["<", ">", "<=", ">="].contains text then some 8
    else if ["<<", ">>", ">>>"].contains text then some 9
    else if ["+", "-"].contains text then some 10
    else if ["*", "/", "%"].contains text then some 11
    else if text == "**" then some 12
    else none
  | .word text => if ["instanceof", "in", "as", "satisfies"].contains text then some 8 else none
  | _ => none

/-- The strength of comparisons. -/
def comparisonPrecedence : Nat := 8

/-- The strength of the only operator that groups to the right. -/
def powerPrecedence : Nat := 12

/-- The operators of assignment. -/
def assignmentOperators : List String :=
  ["=", "+=", "-=", "*=", "/=", "%=", "**=", "<<=", ">>=", ">>>=", "&=", "|=", "^=", "&&=", "||=",
   "??="]

/-- Whether the current token is an operator between two operands. -/
def isAtOperator : Parse Bool := do
  if (← isAtWord "in") && !(← context).allowIn then return false
  return (operatorPrecedence? (← kind)).isSome

/-- Words that begin an expression without naming anything. -/
def expressionWords : List String :=
  ["this", "super", "null", "true", "false", "function", "class", "new", "delete", "typeof", "void",
   "await", "yield"]

/-- Whether an expression may begin here. -/
def startsExpression : Parse Bool := do
  if ← isAtOperator then return true
  match ← kind with
  | .word text =>
    if text == "import" then nextIs (isAtAny ["(", "<", "."])
    else return isNameWord text || expressionWords.contains text
  | .number => return true
  | .string _ => return true
  | .template _ => return true
  | .privateName => return true
  | .punctuator text =>
    return ["(", "[", "\x7b", "/", "/=", "+", "-", "~", "!", "++", "--", "<", "@"].contains text
  | _ => return false

/-- Whether the next token is a word or a literal on the same line. -/
def operandFollows : Parse Bool :=
  nextIs do
    let kind ← kind
    return !(← isOnNewLine) && (kind.isAnyWord || kind = .number || kind.isString)

/-- One argument of a call. -/
def argument (g : Grammar) : Parse Member := do
  if ← eat "..." then return .spread (← g (.assignment true))
  else return .value (← g (.assignment true))

/-- The arguments of a call, parentheses included. -/
def arguments (g : Grammar) : Parse (List Member) := do
  expect "("
  let (found, _) ← withIn (commaList ")" (argument g))
  expect ")"
  return found

/-- Notes a call of `require`, apart from others when its one argument is a string literal. -/
def noteRequire (callee : Expression) (arguments : List Member) (start : Nat) : Parse Unit := do
  match callee, arguments with
  | .identifier "require", [.value (.stringLiteral value quote)] =>
    note (.requireCall ⟨value, quote, ← spanFrom start⟩)
  | _, .value first :: _ =>
    match first.constant? with
    | some specifier =>
      if callee.isRequire then note (.looseRequire specifier (← spanFrom start)) else return ()
    | none => return ()
  | _, _ => return ()

/-- An expression in parentheses. -/
def parenthesized (g : Grammar) : Parse Expression := do
  expect "("
  let (found, trailing) ← withIn (commaList ")" (g (.assignment true)))
  if trailing then unexpected
  expect ")"
  match found with
  | [] => unexpected
  | [inner] => return .parenthesized inner
  | _ => return .parenthesized .other

/-- An array literal. -/
def arrayLiteral (g : Grammar) : Parse Expression := do
  expect "["
  let element : Parse Member := do
    if ← isAt "," then return .hole else argument g
  let (members, _) ← withIn (commaList "]" element)
  expect "]"
  return .array members

/-- A member of an object literal. -/
def objectMember (g : Grammar) : Parse Member := do
  if ← isAt "..." then argument g
  else
    let found ← modifiers false false
    if (← accessorWord "get") || (← accessorWord "set") then
      let _ ← memberName g
      functionRest g false false
      return .method
    let generator ← eat "*"
    let names := (← kind).isBindingName
    let name ← memberName g
    if generator || (← isAtAny ["(", "<"]) then
      functionRest g (found.contains "async") generator
      return .method
    match name with
    | some name =>
      if names && !(← isAt ":") then
        if ← eat "=" then
          let _ ← g (.assignment true)
          return .value .assignment
        else return .value (.identifier name.text)
      else
        expect ":"
        return .value (← g (.assignment true))
    | none =>
      expect ":"
      return .value (← g (.assignment true))

/-- An object literal. -/
def objectLiteral (g : Grammar) : Parse Expression := do
  expect "\x7b"
  let (members, _) ← withIn (commaList "\x7d" (objectMember g))
  expect "\x7d"
  return .object members

/-- The arguments of a dynamic import. -/
def importArguments (g : Grammar) (start : Nat) : Parse Unit := do
  expect "("
  let first ← withIn (g (.assignment true))
  if ← eat "," then
    if !(← isAt ")") then
      let _ ← withIn (g (.assignment true))
      let _ ← eat ","
  expect ")"
  if let some specifier := first.constant? then
    note (.dynamicImport specifier (← spanFrom start))

/-- `import.meta` or a dynamic import. -/
def importExpression (g : Grammar) : Parse Unit := do
  let start ← start
  expectWord "import"
  if ← eat "." then
    if !(← eatWord "meta") then
      if ← isAtAnyWord ["source", "defer"] then advance else unexpected
      importArguments g start
  else importArguments g start

/-- A substitution of a template. -/
def substitution (g : Grammar) : Parse Unit := do
  let _ ← withIn (g .expression)

/-- Type arguments behind an expression, where what follows them does not show that the angle brackets
compare. -/
def expressionTypeArguments (g : Grammar) : Parse Unit := do
  if !(← isAtLeftAngle) then unexpected
  expect "<"
  let _ ← commaList ">" (g .type)
  replaceToken (← token).growRightAngle
  expect ">"
  let continues ←
    if (← isAt "(") || (← kind).isTemplate then pure true
    else if ← isAtAny ["<", ">", "+", "-"] then pure false
    else if ← isOnNewLine then pure true
    else pure ((← isAtOperator) || !(← startsExpression))
  if !continues then unexpected

/-- `new` with its operand and arguments. -/
def newExpression (g : Grammar) : Parse Unit := do
  expectWord "new"
  if ← eat "." then expectWord "target"
  else
    let _ ← g .memberAccess
    if ← isAt "(" then
      let _ ← arguments g

/-- An expression in one piece. -/
def primary (g : Grammar) : Parse Expression := do
  let current ← token
  match current.kind with
  | .word text =>
    if ← startsFunction then
      let _ ← function g
      return .other
    else if text == "class" then
      let _ ← classRest g
      return .other
    else if ["this", "null", "true", "false", "super"].contains text then
      advance
      return .other
    else if text == "new" then
      newExpression g
      return .other
    else if text == "import" then
      importExpression g
      return .other
    else if isBindingWord text then
      advance
      return .identifier text
    else unexpected
  | .number =>
    advance
    return .other
  | .string value =>
    advance
    return .stringLiteral value (current.text.headD '"')
  | .template complete =>
    templateParts (substitution g)
    return if complete then .constantTemplate current.templateValue else .other
  | .punctuator text =>
    if text == "(" then parenthesized g
    else if text == "[" then arrayLiteral g
    else if text == "\x7b" then objectLiteral g
    else if text == "/" || text == "/=" then
      match current.asRegularExpression? with
      | some expression =>
        replaceToken expression
        advance
        return .other
      | none => unexpected
    else if text == "@" then
      decorators g
      let _ ← modifiers false false
      let _ ← classRest g
      return .other
    else if text == "<" && (← isJsx) then
      g .jsxElement
      advance
      return .other
    else unexpected
  | _ => unexpected

/-- The name of a member behind a dot. -/
def accessedName : Parse Unit := do
  if (← kind) = .privateName then advance
  else
    let _ ← anyWord

/-- Member accesses, templates, assertions and type arguments behind an expression. Also says whether
the chain was optional somewhere. -/
def memberRest (g : Grammar) (found : Expression × Bool) : Parse (Expression × Bool) :=
  loop (fun ((inner, optional) : Expression × Bool) => do
    if (← isAt "[") && !(← context).decorator then
      advance
      let _ ← withIn (g .expression)
      expect "]"
      return .inl (.member, optional)
    else if ← eat "." then
      accessedName
      return .inl (.member, optional)
    else if ← isAt "?." then
      if (← nextIs (isAt "[")) && !(← context).decorator then
        advance
        advance
        let _ ← withIn (g .expression)
        expect "]"
        return .inl (.member, true)
      else if ← nextIs (do let kind ← kind; return kind = .privateName || kind.isAnyWord) then
        advance
        accessedName
        return .inl (.member, true)
      else return .inr (inner, optional)
    else if (← kind).isTemplate then
      templateParts (substitution g)
      return .inl (.other, optional)
    else if (← isTypeScript) && (← isAt "!") && !(← isOnNewLine) then
      advance
      return .inl (.asserted inner, optional)
    else if (← isTypeScript) && (← isAtAny ["<", "<<"]) then
      match ← attempt? (expressionTypeArguments g) with
      | some () => return .inl (.instantiation inner, optional)
      | none => return .inr (inner, optional)
    else return .inr (inner, optional)) found

/-- The operand of `new`: an expression with accesses but without calls. -/
def memberAccess (g : Grammar) : Parse Expression := do
  let operand ← primary g
  return (← memberRest g (operand, false)).1

/-- The callee of a call, without explicit type arguments. -/
def callee : Expression → Expression
  | .instantiation inner => inner
  | expression => expression

/-- An expression with accesses and calls. -/
def leftHandSide (g : Grammar) : Parse Expression := do
  let start ← start
  let operand ← primary g
  let (found, optional) ← loop (fun (before : Expression × Bool) => do
    let (inner, optional) ← memberRest g before
    if ← eat "?." then
      if ← isTypeScript then
        let _ ← attempt? (expressionTypeArguments g)
      if (← kind).isTemplate then
        templateParts (substitution g)
        return .inl (.other, true)
      else
        let found ← arguments g
        noteRequire (callee inner) found start
        return .inl (.other, true)
    else if ← isAt "(" then
      let found ← arguments g
      noteRequire (callee inner) found start
      return .inl (.other, optional)
    else return .inr (inner, optional)) (operand, false)
  return if optional then .other else found

/-- An operand with `++` or `--` before or behind it, or without. -/
def update (g : Grammar) : Parse Expression := do
  if ← isAtAny ["++", "--"] then
    advance
    let operand ← g .unary
    if !operand.isSimpleTarget then unexpected
    return .other
  let operand ← leftHandSide g
  if (← isAtAny ["++", "--"]) && !(← isOnNewLine) then
    if !operand.isSimpleTarget then unexpected
    advance
    return .other
  return operand

/-- Whether `await` is an operator here. -/
def isAtAwait : Parse Bool := do
  if ← isAtWord "await" then
    if (← context).awaiting then return true else operandFollows
  else return false

/-- An operand with operators before it. -/
def unary (g : Grammar) : Parse Expression := do
  if (← isAtAny ["+", "-", "!", "~"]) || (← isAtAnyWord ["typeof", "void", "delete"]) then
    advance
    let _ ← g .unary
    return .other
  else if ← isAt "<" then
    if ← isJsx then
      g .jsxElement
      advance
      return .other
    else if ← isTypeScript then
      advance
      g .type
      expect ">"
      return .asserted (← g .unary)
    else unexpected
  else if ← isAtAwait then
    advance
    let _ ← within (fun context => { context with awaiting := true }) (g .unary)
    return .other
  else update g

/-- Operators and operands behind an operand, as far as they bind more strongly than `minimum`. -/
def operations (g : Grammar) (minimum : Nat) (first : Expression) : Parse Expression :=
  loop (fun (left : Expression) => do
    replaceToken (← token).growRightAngle
    match operatorPrecedence? (← kind) with
    | none => return .inr left
    | some precedence =>
      let stops :=
        if precedence = powerPrecedence then precedence < minimum else precedence ≤ minimum
      if stops then return .inr left
      if (← isAtWord "in") && !(← context).allowIn then return .inr left
      if ← isAtAnyWord ["as", "satisfies"] then
        if ← isOnNewLine then return .inr left
        advance
        g .type
        return .inl (.asserted left)
      advance
      let _ ← g (.binary precedence)
      return .inl .other) first

/-- An expression of operators that bind more strongly than `minimum`. -/
def binary (g : Grammar) (minimum : Nat) : Parse Expression := do
  let first ←
    if (← context).allowIn && (← kind) = .privateName then do
      advance
      expectWord "in"
      let _ ← g (.binary comparisonPrecedence)
      pure Expression.other
    else g .unary
  operations g minimum first

/-- How sure it is that an arrow function begins here. -/
inductive Likelihood
  | no
  | maybe
  | yes
  deriving DecidableEq

/-- What follows an opening parenthesis decides whether an arrow function may begin with it. -/
def arrowBehindParenthesis : Parse Likelihood := do
  let second ← kind
  if second.isPunctuator ")" then
    advance
    return if ← isAtAny ["=>", ":", "\x7b"] then .yes else .no
  else if second.isPunctuator "[" || second.isPunctuator "\x7b" then return .maybe
  else if second.isPunctuator "..." then return .yes
  else
    advance
    if second.isModifier && !second.isWord "async" && (← kind).isBindingName then
      return if ← isAtWord "as" then .no else .yes
    if !second.isBindingName && !second.isWord "this" then return .no
    if ← isAt ":" then return .yes
    if ← eat "?" then
      return if ← isAtAny [":", ",", "=", ")"] then .yes else .no
    return if ← isAtAny [",", "=", ")"] then .maybe else .no

/-- What follows an opening angle bracket decides whether an arrow function may begin with it. -/
def arrowBehindAngle : Parse Likelihood := do
  if !(← kind).isBindingName && !(← isAtWord "const") then return .no
  if ← isJsx then
    let _ ← eatWord "const"
    advance
    if ← eatWord "extends" then
      return if ← isAtAny ["=", ">", "/"] then .no else .yes
    return if ← isAtAny [",", "="] then .yes else .no
  return .maybe

/-- Whether an arrow function with parenthesized parameters begins here. -/
def arrowAhead : Parse Likelihood := fun state =>
  let question : Parse Likelihood := do
    if ← eatWord "async" then
      if ← isOnNewLine then return .no
    if ← eat "(" then arrowBehindParenthesis
    else if ← eat "<" then arrowBehindAngle
    else return .no
  match question state with
  | some (answer, _) => some (answer, state)
  | none => some (.no, state)

/-- An arrow function up to its arrow. Says whether it is asynchronous and whether it gives the type of
its result. -/
def arrowHead (g : Grammar) : Parse (Bool × Bool) := do
  let async ← eatWord "async"
  let typed ← within (fun context =>
      { context with
        awaiting := context.awaiting || async, decorator := false }) do
    typeParameters g
    parameters g
    let typed ← isAt ":"
    resultClause g
    return typed
  expect "=>"
  return (async, typed)

/-- An arrow function with parenthesized parameters, if one stands here. Where the type of a result
could also be the second half of a conditional expression, a colon has to follow the function. -/
def parenthesizedArrow? (g : Grammar) (allowReturnType : Bool) : Parse (Option Unit) := do
  match ← arrowAhead with
  | .no => return none
  | .yes =>
    let (async, _) ← arrowHead g
    arrowBody g async allowReturnType
    return some ()
  | .maybe =>
    let before ← get
    match ← attempt? (arrowHead g) with
    | none => return none
    | some (async, typed) =>
      arrowBody g async allowReturnType
      if !allowReturnType && typed && !(← isAt ":") then
        set before
        return none
      return some ()

/-- Whether an asynchronous arrow function with one bare parameter begins here. -/
def asyncArrowAhead : Parse Bool := do
  if ← isAtWord "async" then
    nextIs do
      if (← isOnNewLine) || !(← kind).isBindingName then return false
      advance
      isAt "=>"
  else return false

/-- Whether `yield` is an operator here. -/
def isAtYield : Parse Bool := do
  if ← isAtWord "yield" then
    if (← context).yielding then return true else operandFollows
  else return false

/-- A `yield` expression. -/
def yieldExpression (g : Grammar) : Parse Unit := do
  expectWord "yield"
  if !(← isOnNewLine) then
    let delegates ← eat "*"
    let ends := (← isAtAny [";", "\x7d", ")", "]", ":", ","]) || (← isAtWord "in") || (← isAtEnd)
    if delegates || !ends then
      let _ ← g (.assignment true)

/-- An expression without commas. -/
def assignment (g : Grammar) (allowReturnType : Bool) : Parse Expression := do
  if ← isAtYield then
    yieldExpression g
    return .other
  match ← parenthesizedArrow? g allowReturnType with
  | some () => return .other
  | none =>
    if ← asyncArrowAhead then
      advance
      advance
      expect "=>"
      arrowBody g true allowReturnType
      return .other
    let left ← g (.binary 0)
    match left with
    | .identifier _ =>
      if ← eat "=>" then
        arrowBody g false allowReturnType
        return .other
    | _ => pure ()
    if ← isAt "=" then
      if !left.isTarget then unexpected
      advance
      let _ ← g (.assignment allowReturnType)
      return .assignment
    else if ← isAtAny assignmentOperators then
      if !left.isSimpleTarget then unexpected
      advance
      let _ ← g (.assignment allowReturnType)
      return .other
    else if ← eat "?" then
      let _ ← withIn (g (.assignment false))
      expect ":"
      let _ ← g (.assignment allowReturnType)
      return .other
    else return left

/-- An expression. -/
def expression (g : Grammar) : Parse Expression :=
  within (fun context => { context with decorator := false }) do
    let first ← g (.assignment true)
    if ← isAt "," then
      let _ ← manyWhile (isAt ",") do
        advance
        g (.assignment true)
      return .other
    else return first

end BarrelSynthesis.Source.Parse
