/-
# Parsing modules

The nonterminals of the grammar, tied together, and the parser for whole texts. Each step from one
nonterminal into a nested one costs one level. A nonterminal is entered at most a few times between two
tokens, so a text never needs more levels than a small multiple of its length.
-/
import BarrelSynthesis.Source.Grammar.Statements

namespace BarrelSynthesis.Source

/-- One nonterminal, over a way to parse those nested in it. -/
def Parse.nonterminal (g : Grammar) : Grammar
  | .expression => Parse.expression g
  | .assignment allowReturnType => Parse.assignment g allowReturnType
  | .binary minimum => Parse.binary g minimum
  | .unary => Parse.unary g
  | .leftHandSide => Parse.leftHandSide g
  | .memberAccess => Parse.memberAccess g
  | .bindingPattern => Parse.bindingPattern g
  | .type => Parse.type g
  | .typeOperand => Parse.typeOperand g
  | .statement single => Parse.statement g single
  | .jsxElement => Parse.jsxElement g

/-- Parses nonterminals nested to a given depth. -/
def Parse.toDepth : Nat → Grammar
  | 0 => fun _ => Parse.unexpected
  | depth + 1 => fun nonterminal => Parse.nonterminal (Parse.toDepth depth) nonterminal

/-- The statements of a module, up to the end of its text. -/
def Parse.statements (g : Grammar) : Parse (List Statement) :=
  Parse.manyWhile (do return !(← Parse.isAtEnd)) (g (.statement false))

/-- The state in which parsing a text begins. -/
def State.initial (language : Language) (text : String) : State :=
  { language := language
    size := text.utf8ByteSize
    token := firstToken text.toList
    previousStop := 0
    context := {}
    references := [] }

/-- Parses the text of a module. Gives nothing when the text is not one. -/
def Module.parse? (language : Language) (text : String) : Option Module :=
  let grammar := Parse.toDepth (8 * text.utf8ByteSize + 64)
  match Parse.statements grammar (State.initial language text) with
  | some (statements, state) => some ⟨statements, state.references.reverse⟩
  | none => none

end BarrelSynthesis.Source
