/-
# Grammar: states and combinators

A piece of the grammar is a function from parsing states that may fail. A failure is final for the
text unless the piece was tried (`attempt?`) or looked ahead at (`lookahead`); both return to the
state they began in. The grammar is recursive through `Nonterminal`: every piece is written over a
family that parses the nonterminals nested inside it, and the family itself is tied in the module that
parses whole texts.
-/
import BarrelSynthesis.Source.Language
import BarrelSynthesis.Source.Lexer

namespace BarrelSynthesis.Source

/-- What the grammar depends on besides the text. -/
structure Context where
  /-- Whether `in` is an operator here. -/
  allowIn : Bool := true
  /-- Whether this is the body of a generator. -/
  yielding : Bool := false
  /-- Whether `await` is an operator here without looking further. -/
  awaiting : Bool := true
  /-- Whether this is the expression of a decorator. -/
  decorator : Bool := false
  /-- Whether a conditional type may not begin here. -/
  plainTypes : Bool := false
  deriving Repr

/-- A parsing state. -/
structure State where
  language : Language
  /-- The number of bytes of the whole text. -/
  size : Nat
  token : Token
  /-- Where the token before the current one ends. -/
  previousStop : Nat
  context : Context
  /-- The references met so far, the last first. -/
  references : List Reference

/-- A piece of the grammar. -/
abbrev Parse (α : Type) := StateT State Option α

namespace Parse

variable {α β σ : Type}

/-- The text does not belong to the language. -/
def unexpected : Parse α := failure

/-- The current token. -/
def token : Parse Token := do return (← get).token

/-- The kind of the current token. -/
def kind : Parse TokenKind := do return (← token).kind

/-- Where the current token begins. -/
def start : Parse Nat := do return (← token).start

/-- Where the token before the current one ends. -/
def previousStop : Parse Nat := do return (← get).previousStop

/-- The stretch from a given offset to the end of the token before the current one. -/
def spanFrom (start : Nat) : Parse Span := do return ⟨start, ← previousStop⟩

/-- Whether the text may use TypeScript syntax. -/
def isTypeScript : Parse Bool := do return (← get).language.typeScript

/-- Whether the text may use JSX. -/
def isJsx : Parse Bool := do return (← get).language.jsx

/-- The surroundings of the current token. -/
def context : Parse Context := do return (← get).context

/-- Puts another token in the place of the current one. -/
def replaceToken (token : Token) : Parse Unit :=
  modify fun state => { state with token := token }

/-- Puts a token behind the current one. -/
def advanceTo (next : Token) : Parse Unit :=
  modify fun state => { state with previousStop := state.token.stop, token := next }

/-- Moves to the next token. -/
def advance : Parse Unit := do
  let token ← token
  advanceTo (nextToken token.rest token.stop)

/-- Whether the current token is a given punctuator. -/
def isAt (text : String) : Parse Bool := do return (← kind).isPunctuator text

/-- Whether the current token is one of some punctuators. -/
def isAtAny (texts : List String) : Parse Bool := do
  let kind ← kind
  return texts.any kind.isPunctuator

/-- Whether the current token is a given word. -/
def isAtWord (text : String) : Parse Bool := do return (← kind).isWord text

/-- Whether the current token is one of some words. -/
def isAtAnyWord (texts : List String) : Parse Bool := do
  let kind ← kind
  return texts.any kind.isWord

/-- Whether the text has ended. -/
def isAtEnd : Parse Bool := do return (← kind) = .endOfText

/-- Whether a line break stands before the current token. -/
def isOnNewLine : Parse Bool := do return (← token).onNewLine

/-- Passes a punctuator if it is there. -/
def eat (text : String) : Parse Bool := do
  if ← isAt text then
    advance
    return true
  else return false

/-- Passes a word if it is there. -/
def eatWord (text : String) : Parse Bool := do
  if ← isAtWord text then
    advance
    return true
  else return false

/-- Passes a punctuator that has to be there. -/
def expect (text : String) : Parse Unit := do
  if ← isAt text then advance else unexpected

/-- Passes a word that has to be there. -/
def expectWord (text : String) : Parse Unit := do
  if ← isAtWord text then advance else unexpected

/-- Passes any word and gives it. -/
def anyWord : Parse String := do
  match ← kind with
  | .word text =>
    advance
    return text
  | _ => unexpected

/-- Passes a word that may name a binding and gives it. -/
def bindingName : Parse String := do
  if (← kind).isBindingName then anyWord else unexpected

/-- Passes a string literal and gives its value and its opening quote. -/
def stringLiteral : Parse (String × Char) := do
  let token ← token
  match token.kind with
  | .string value =>
    advance
    return (value, token.text.headD '"')
  | _ => unexpected

/-- Whether a statement may end before the current token. -/
def canEndStatement : Parse Bool := do
  let token ← token
  return token.onNewLine || token.kind = .endOfText || token.kind.isPunctuator ";"
    || token.kind.isPunctuator "\x7d"

/-- Ends a statement: at a semicolon, a closing brace, a line break or the end of the text. -/
def endStatement : Parse Unit := do
  if ← canEndStatement then
    let _ ← eat ";"
  else unexpected

/-- Asks a question about the text ahead without moving. A failure answers no. -/
def lookahead (question : Parse Bool) : Parse Bool := fun state =>
  match question state with
  | some (answer, _) => some (answer, state)
  | none => some (false, state)

/-- Tries a piece of the grammar; where it fails, nothing has moved. -/
def attempt? (piece : Parse α) : Parse (Option α) := fun state =>
  match piece state with
  | some (value, after) => some (some value, after)
  | none => some (none, state)

/-- Parses in changed surroundings. -/
def within (change : Context → Context) (piece : Parse α) : Parse α := do
  let before ← context
  modify fun state => { state with context := change state.context }
  let value ← piece
  modify fun state => { state with context := before }
  return value

/-- Parses where `in` is an operator and decorators are no longer being read. -/
def withIn (piece : Parse α) : Parse α :=
  within (fun context => { context with allowIn := true, decorator := false }) piece

/-- Notes a reference to another module. -/
def note (reference : Reference) : Parse Unit :=
  modify fun state => { state with references := reference :: state.references }

/-- Repeats a step for at most a number of rounds. -/
def rounds : Nat → (σ → Parse (σ ⊕ β)) → σ → Parse β
  | 0, _, _ => unexpected
  | n + 1, step, value => do
    match ← step value with
    | .inl value => rounds n step value
    | .inr result => return result

/-- Repeats a step until it gives a result. Every step but the last moves forward, so there are never
more rounds than there are bytes left. -/
def loop (step : σ → Parse (σ ⊕ β)) (value : σ) : Parse β := do
  let state ← get
  rounds (state.size - state.token.start + 2) step value

/-- Parses elements while a test holds. -/
def manyWhile (test : Parse Bool) (element : Parse α) : Parse (List α) :=
  loop (fun found : List α => do
    if ← test then return .inl ((← element) :: found)
    else return .inr found.reverse) []

/-- Parses a list between commas up to a closing punctuator, which stays. Also says whether a comma
stands before the closing one. -/
def commaList (close : String) (element : Parse α) : Parse (List α × Bool) := do
  if (← isAt close) || (← isAtEnd) then return ([], false)
  let first ← element
  loop (fun found : List α => do
    if ← isAt close then return .inr (found.reverse, false)
    expect ","
    if ← isAt close then return .inr (found.reverse, true)
    return .inl ((← element) :: found)) [first]

/-- The same for lists whose entries may be marked by an ellipsis. -/
def restList (close : String) (element : Parse α) (rest : Parse β) :
    Parse (List α × Option β) := do
  let entry := fun ((found, last) : List α × Option β) => do
    if ← isAt "..." then return (found, some (← rest))
    else return ((← element) :: found, last)
  if ← isAt close then return ([], none)
  let first ← entry ([], none)
  loop (fun (found, last) => do
    if ← isAt close then return .inr (found.reverse, last)
    expect ","
    if ← isAt close then return .inr (found.reverse, last)
    return .inl (← entry (found, last))) first

end Parse

mutual

/-- What later decisions need to know of an expression. -/
inductive Expression
  | identifier (name : String)
  /-- An access to a member, as in `a.b` or `a[b]`. -/
  | member
  /-- An expression with explicit type arguments and no call. -/
  | instantiation (inner : Expression)
  | parenthesized (inner : Expression)
  /-- An expression with a type assertion of any form. -/
  | asserted (inner : Expression)
  | object (members : List Member)
  | array (members : List Member)
  /-- A plain assignment `a = b`, which a pattern reads as a default value. -/
  | assignment
  | stringLiteral (value : String) (quote : Char)
  /-- A template without substitutions. -/
  | constantTemplate (value : String)
  | other

/-- An entry of an object or array literal, as far as a pattern could hold it. -/
inductive Member
  | hole
  | value (expression : Expression)
  | spread (expression : Expression)
  | method

end

instance : Inhabited Expression := ⟨.other⟩
instance : Inhabited Member := ⟨.hole⟩

/-- Whether something can be assigned to the expression as it stands, other than by a pattern. -/
def Expression.isSimpleTarget : Expression → Bool
  | identifier _ => true
  | member => true
  | parenthesized inner => inner.isSimpleTarget
  | asserted inner => inner.isSimpleTarget
  | _ => false

/-- The text that the expression stands for, when it is a string in any spelling. -/
def Expression.constant? : Expression → Option String
  | stringLiteral value _ => some value
  | constantTemplate value => some value
  | parenthesized inner => inner.constant?
  | asserted inner => inner.constant?
  | _ => none

/-- Whether the expression is the name `require` in any spelling. -/
def Expression.isRequire : Expression → Bool
  | identifier name => name = "require"
  | instantiation inner => inner.isRequire
  | parenthesized inner => inner.isRequire
  | asserted inner => inner.isRequire
  | _ => false

mutual

/-- Whether the expression can stand on the left of an assignment, as a pattern or as it is. -/
def Expression.isTarget : Expression → Bool
  | .object members => Member.areTargets members
  | .array members => Member.areTargets members
  | .identifier _ => true
  | .member => true
  | .parenthesized inner => inner.isSimpleTarget
  | .asserted inner => inner.isSimpleTarget
  | _ => false

/-- Whether the entries of a literal can be read as a pattern: only the last may be a spread. -/
def Member.areTargets : List Member → Bool
  | [] => true
  | .hole :: rest => Member.areTargets rest
  | .value .assignment :: rest => Member.areTargets rest
  | .value expression :: rest => expression.isTarget && Member.areTargets rest
  | .spread expression :: rest => expression.isTarget && rest.isEmpty
  | .method :: _ => false

end

/-- The parts of the grammar that can be nested inside one another. -/
inductive Nonterminal
  | expression
  | assignment (allowReturnType : Bool)
  | binary (minimum : Nat)
  | unary
  | leftHandSide
  | memberAccess
  | bindingPattern
  | type
  | typeOperand
  | statement (single : Bool)
  | jsxElement
  deriving Repr, DecidableEq

/-- What parsing a nonterminal gives. -/
abbrev Nonterminal.Result : Nonterminal → Type
  | expression | assignment _ | binary _ | unary | leftHandSide | memberAccess => Expression
  | bindingPattern => BindingPattern
  | type | typeOperand | jsxElement => Unit
  | statement _ => Statement

/-- A way to parse every nonterminal. -/
abbrev Grammar := (nonterminal : Nonterminal) → Parse nonterminal.Result

end BarrelSynthesis.Source
