/-
# Tokens

The words, literals and punctuators of the source language. A token knows the text from its first
character and the text behind it, so that it can be read again where the grammar calls for another
reading: a slash as the beginning of a regular expression, a closing brace as the continuation of a
template.
-/
import BarrelSynthesis.Source.Tree

namespace BarrelSynthesis.Source

/-- The kinds of token. Words and string literals carry their value with escapes decoded. -/
inductive TokenKind
  | endOfText
  | word (text : String)
  | privateName
  | punctuator (text : String)
  | number
  | string (value : String)
  /-- A template up to its end, or up to its first substitution. -/
  | template (complete : Bool)
  | regularExpression
  | jsxText
  | invalid
  deriving Repr, DecidableEq, Inhabited

/-- A token of the source text. -/
structure Token where
  kind : TokenKind
  start : Nat
  stop : Nat
  /-- Whether a line break stands between this token and the one before it. -/
  onNewLine : Bool
  /-- Whether the token is a word written with an escape. -/
  escaped : Bool
  /-- The source from the first character of the token. -/
  text : List Char
  /-- The source behind the token. -/
  rest : List Char
  deriving Inhabited

/-- Words that never name a binding. `await` and `yield` are reserved, yet accepted as names. -/
def reservedWords : List String :=
  ["await", "break", "case", "catch", "class", "const", "continue", "debugger", "default", "delete",
   "do", "else", "enum", "export", "extends", "false", "finally", "for", "function", "if", "import",
   "in", "instanceof", "new", "null", "return", "super", "switch", "this", "throw", "true", "try",
   "typeof", "var", "void", "while", "with", "yield"]

/-- Words that may stand before a declaration or a class member. -/
def modifierWords : List String :=
  ["abstract", "accessor", "async", "const", "declare", "default", "export", "in", "out", "public",
   "private", "protected", "override", "readonly", "static"]

/-- A word that names nothing but itself. -/
def isReservedWord (word : String) : Bool :=
  reservedWords.contains word

/-- A word that may be used as a name. -/
def isNameWord (word : String) : Bool :=
  !isReservedWord word

/-- A word that may name a binding, reserved only in some places. -/
def isBindingWord (word : String) : Bool :=
  isNameWord word || word == "await" || word == "yield"

namespace TokenKind

/-- Whether the token is a given punctuator. -/
def isPunctuator (kind : TokenKind) (text : String) : Bool :=
  match kind with
  | punctuator found => found == text
  | _ => false

/-- Whether the token is a given word. -/
def isWord (kind : TokenKind) (text : String) : Bool :=
  match kind with
  | word found => found == text
  | _ => false

/-- Whether the token is any word at all. -/
def isAnyWord : TokenKind → Bool
  | word _ => true
  | _ => false

/-- Whether the token is a word that may be used as a name. -/
def isName : TokenKind → Bool
  | word text => isNameWord text
  | _ => false

/-- Whether the token is a word that may name a binding. -/
def isBindingName : TokenKind → Bool
  | word text => isBindingWord text
  | _ => false

/-- Whether the token is a word that may stand before a declaration or a class member. -/
def isModifier : TokenKind → Bool
  | word text => modifierWords.contains text
  | _ => false

/-- Whether the token is a string literal. -/
def isString : TokenKind → Bool
  | string _ => true
  | _ => false

/-- Whether the token begins a template. -/
def isTemplate : TokenKind → Bool
  | template _ => true
  | _ => false

/-- Whether the token may name a member of an object or a class without brackets. -/
def isLiteralMemberName : TokenKind → Bool
  | word _ => true
  | string _ => true
  | number => true
  | _ => false

end TokenKind

end BarrelSynthesis.Source
