/-
# Reading tokens

Every function reads from the front of a list of characters and says how many of them belong to what
was read, so reading a token always moves forward. Blanks and comments are skipped first; whether a
line break was among them is kept with the token, because a statement may end there.
-/
import BarrelSynthesis.Source.Escape
import BarrelSynthesis.Source.Token
import BarrelSynthesis.Text.Letter

namespace BarrelSynthesis.Source

/-- A character that ends a line. -/
def isLineBreak (c : Char) : Bool :=
  c == '\n' || c == '\r' || c.toNat == 0x2028 || c.toNat == 0x2029

/-- A character that separates tokens without ending a line. -/
def isBlank (c : Char) : Bool :=
  let code := c.toNat
  code == 0x20 || code == 0x09 || code == 0x0B || code == 0x0C || code == 0x85 || code == 0xA0
    || code == 0x1680 || (0x2000 ≤ code && code ≤ 0x200B) || code == 0x202F || code == 0x205F
    || code == 0x3000 || code == 0xFEFF

/-- The number of bytes of a list of characters. -/
def byteLength (cs : List Char) : Nat :=
  cs.foldl (fun n c => n + c.utf8Size) 0

/-- Where skipping stands: between tokens, or inside a comment. -/
inductive Gap
  | blanks
  | lineComment
  | blockComment

/-- Skips blanks and comments. A block comment without an end reaches to the end of the text. -/
def skipGap : Gap → List Char → (offset : Nat) → (newLine : Bool) → List Char × Nat × Bool
  | .blanks, '/' :: '/' :: rest, offset, newLine => skipGap .lineComment rest (offset + 2) newLine
  | .blanks, '/' :: '*' :: rest, offset, newLine => skipGap .blockComment rest (offset + 2) newLine
  | .blanks, c :: rest, offset, newLine =>
    if isLineBreak c then skipGap .blanks rest (offset + c.utf8Size) true
    else if isBlank c then skipGap .blanks rest (offset + c.utf8Size) newLine
    else (c :: rest, offset, newLine)
  | .lineComment, c :: rest, offset, newLine =>
    if isLineBreak c then skipGap .blanks rest (offset + c.utf8Size) true
    else skipGap .lineComment rest (offset + c.utf8Size) newLine
  | .blockComment, '*' :: '/' :: rest, offset, newLine =>
    skipGap .blanks rest (offset + 2) newLine
  | .blockComment, c :: rest, offset, newLine =>
    skipGap .blockComment rest (offset + c.utf8Size) (newLine || isLineBreak c)
  | _, [], offset, newLine => ([], offset, newLine)

/-- A kind of token and the number of characters it takes. -/
structure Lexeme where
  kind : TokenKind
  length : Nat
  escaped : Bool := false

/-- Reads the rest of a word: how many characters it takes, the decoded characters, and whether an
escape was among them. `skip` counts characters of an escape that are already dealt with. -/
def scanWord : (skip : Nat) → List Char → Nat × List Char × Bool
  | _, [] => (0, [], false)
  | skip + 1, _ :: rest =>
    let (length, decoded, escaped) := scanWord skip rest
    (length + 1, decoded, escaped)
  | 0, '\\' :: 'u' :: rest =>
    let escape := decodeUnicode rest
    let piece := match escape.units with
      | [.char c] => if Text.isIdentifierPart c then [c] else []
      | _ => []
    let (length, decoded, _) := scanWord (1 + escape.used) ('u' :: rest)
    (length + 1, piece ++ decoded, true)
  | 0, c :: rest =>
    if Text.isIdentifierPart c then
      let (length, decoded, escaped) := scanWord 0 rest
      (length + 1, c :: decoded, escaped)
    else (0, [], false)

/-- Whether a word can begin here. -/
def startsWord : List Char → Bool
  | '\\' :: 'u' :: _ => true
  | c :: _ => Text.isIdentifierStart c
  | [] => false

/-- Reads digits and the separators between them. A separator with no digit behind it is the last
character taken. -/
def scanDigits (isDigit : Char → Bool) : List Char → Nat
  | '_' :: c :: rest => if isDigit c then 2 + scanDigits isDigit rest else 1
  | '_' :: [] => 1
  | c :: rest => if isDigit c then 1 + scanDigits isDigit rest else 0
  | [] => 0

/-- Whether every separator in a run of digits has a digit behind it. -/
def separatorsFit (digits : List Char) : Bool :=
  digits.getLast? != some '_'

/-- Reads an exponent: its length, or nothing when digits are missing. -/
def scanExponent? (text : List Char) : Option Nat :=
  match text with
  | c :: rest =>
    if c == 'e' || c == 'E' then
      let sign := match rest with
        | s :: _ => if s == '+' || s == '-' then 1 else 0
        | [] => 0
      match rest.drop sign with
      | d :: more =>
        if Text.isAsciiDigit d then some (2 + sign + scanDigits Text.isAsciiDigit more) else none
      | [] => none
    else some 0
  | [] => some 0

/-- Reads the part of a decimal numeral behind its dot. -/
def scanFraction? (text : List Char) : Option Nat :=
  let digits := match text with
    | d :: more => if Text.isAsciiDigit d then 1 + scanDigits Text.isAsciiDigit more else 0
    | [] => 0
  (scanExponent? (text.drop digits)).map (digits + ·)

/-- Reads a decimal numeral that begins with a digit. -/
def scanDecimal? (text : List Char) : Option Nat :=
  let digits := 1 + scanDigits Text.isAsciiDigit (text.drop 1)
  match text.drop digits with
  | '.' :: rest => (scanFraction? rest).map (digits + 1 + ·)
  | 'n' :: _ => some (digits + 1)
  | rest => (scanExponent? rest).map (digits + ·)

/-- Reads a numeral with a base prefix of two characters. -/
def scanBased? (isDigit : Char → Bool) (text : List Char) : Option Nat :=
  match text.drop 2 with
  | d :: rest =>
    if isDigit d then
      let length := scanDigits isDigit rest
      if separatorsFit (rest.take length) then
        some (3 + length + (if (rest.drop length).head? == some 'n' then 1 else 0))
      else none
    else none
  | [] => none

/-- Reads a numeral that begins with a superfluous zero. -/
def scanZeroed? (text : List Char) : Option Nat :=
  let digits := text.takeWhile Text.isAsciiDigit
  let length := digits.length
  if digits.all isOctal then some length
  else match text.drop length with
    | '.' :: rest => (scanFraction? rest).map (length + 1 + ·)
    | 'e' :: rest => (scanExponent? ('e' :: rest)).map (length + ·)
    | _ => some length

/-- Reads a numeral: its length, or nothing when it is malformed. A word or a digit directly behind a
numeral makes it malformed. -/
def scanNumber? (text : List Char) : Option Nat :=
  let length := match text with
    | '0' :: c :: rest =>
      if c == 'b' || c == 'B' then scanBased? (fun d => d == '0' || d == '1') text
      else if c == 'o' || c == 'O' then scanBased? isOctal text
      else if c == 'x' || c == 'X' then scanBased? (fun d => (Text.hexDigit? d).isSome) text
      else if c == '.' then (scanFraction? rest).map (2 + ·)
      else if c == 'n' then some 2
      else if c == 'e' || c == 'E' then (scanExponent? (c :: rest)).map (1 + ·)
      else if Text.isAsciiDigit c then scanZeroed? text
      else some 1
    | '.' :: rest => (scanFraction? rest).map (1 + ·)
    | _ => scanDecimal? text
  length.bind fun n =>
    match text.drop n with
    | c :: _ => if Text.isAsciiDigit c || startsWord (text.drop n) then none else some n
    | [] => some n

/-- Reads the inside of a string literal up to its closing quote. -/
def scanString? (quote : Char) : List Char → Option (List Char)
  | [] => none
  | '\\' :: '\r' :: '\n' :: rest => (scanString? quote rest).map ('\\' :: '\r' :: '\n' :: ·)
  | '\\' :: c :: rest => (scanString? quote rest).map ('\\' :: c :: ·)
  | c :: rest =>
    if c == quote then some []
    else if c == '\n' || c == '\r' then none
    else (scanString? quote rest).map (c :: ·)

/-- Reads the inside of a template up to its end or its first substitution, delimiter included: the
length, and whether the template is complete. -/
def scanTemplate? : List Char → Option (Nat × Bool)
  | [] => none
  | '\\' :: _ :: rest => (scanTemplate? rest).map fun (n, complete) => (n + 2, complete)
  | '$' :: '\x7b' :: _ => some (2, false)
  | c :: rest =>
    if c == '\x60' then some (1, true)
    else (scanTemplate? rest).map fun (n, complete) => (n + 1, complete)

/-- The punctuators, each before its own beginnings. A closing angle bracket is read alone; it grows
only where an operator is expected. -/
def punctuators : List String :=
  [">", "...", "===", "!==", "**=", "<<=", "&&=", "||=", "??=", "=>", "==", "!=", "<=", "<<", "++",
   "--", "&&", "||", "??", "?.", "+=", "-=", "*=", "/=", "%=", "&=", "|=", "^=", "**", "\x7b",
   "\x7d", "(", ")", "[", "]", ".", ";", ",", "<", "+", "-", "*", "/", "%", "&", "|", "^", "!",
   "~", "?", ":", "=", "@"]

/-- The longest punctuator a text begins with. A question mark and a dot before a digit stay apart. -/
def punctuatorOf? (text : List Char) : Option String :=
  match text with
  | '?' :: '.' :: c :: _ =>
    if Text.isAsciiDigit c then some "?" else some "?."
  | _ => punctuators.find? fun p => p.toList.isPrefixOf text

/-- Reads one token from the front of a text that does not begin with a gap. -/
def scanToken (text : List Char) : Lexeme :=
  match text with
  | [] => ⟨.endOfText, 0, false⟩
  | c :: rest =>
    if startsWord text then
      let (length, decoded, escaped) := scanWord 0 text
      ⟨.word (String.ofList decoded), length, escaped⟩
    else if Text.isAsciiDigit c || (c == '.' && (rest.head?.map Text.isAsciiDigit).getD false) then
      match scanNumber? text with
      | some length => ⟨.number, length, false⟩
      | none => ⟨.invalid, 1, false⟩
    else if c == '"' || c == '\'' then
      match scanString? c rest with
      | some inside => ⟨.string (stringValue inside), inside.length + 2, false⟩
      | none => ⟨.invalid, text.length, false⟩
    else if c == '\x60' then
      match scanTemplate? rest with
      | some (length, complete) => ⟨.template complete, length + 1, false⟩
      | none => ⟨.invalid, text.length, false⟩
    else if c == '#' then
      if startsWord rest then ⟨.privateName, 1 + (scanWord 0 rest).1, false⟩
      else ⟨.invalid, 1, false⟩
    else match punctuatorOf? text with
      | some p => ⟨.punctuator p, p.toList.length, false⟩
      | none => ⟨.invalid, 1, false⟩

/-- The token a lexeme at a place of the text stands for. -/
def Lexeme.toToken (lexeme : Lexeme) (text : List Char) (offset : Nat) (newLine : Bool) : Token :=
  { kind := lexeme.kind
    start := offset
    stop := offset + byteLength (text.take lexeme.length)
    onNewLine := newLine
    escaped := lexeme.escaped
    text := text
    rest := text.drop lexeme.length }

/-- The next token behind a place of the text. -/
def nextToken (text : List Char) (offset : Nat) : Token :=
  let (text, offset, newLine) := skipGap .blanks text offset false
  (scanToken text).toToken text offset newLine

/-- The first token of a text: a byte order mark and an interpreter line are passed over. -/
def firstToken (text : List Char) : Token :=
  match text with
  | '#' :: '!' :: rest =>
    let line := rest.takeWhile fun c => !isLineBreak c
    nextToken (rest.drop line.length) (2 + byteLength line)
  | _ => nextToken text 0

/-- Reads the token again with the lexeme that another reading gives. -/
def Token.reread (token : Token) (kind : TokenKind) (length : Nat) : Token :=
  (Lexeme.mk kind length false).toToken token.text token.start token.onNewLine

/-- The operators that begin with a closing angle bracket, the longer first. -/
def rightAngleOperators : List String :=
  [">>>=", ">>>", ">>=", ">>", ">="]

/-- Reads a closing angle bracket again as the longest operator that begins there. -/
def Token.growRightAngle (token : Token) : Token :=
  if token.kind.isPunctuator ">" then
    match rightAngleOperators.find? fun p => p.toList.isPrefixOf token.text with
    | some p => token.reread (.punctuator p) p.toList.length
    | none => token
  else token

/-- Reads an operator that begins with an opening angle bracket again as the bracket alone. -/
def Token.shrinkLeftAngle (token : Token) : Token :=
  if token.kind.isPunctuator "<<" || token.kind.isPunctuator "<<=" || token.kind.isPunctuator "<="
  then token.reread (.punctuator "<") 1
  else token

/-- Where reading a regular expression stands. -/
structure RegexState where
  escaped : Bool := false
  bracketed : Bool := false

/-- Reads the pattern of a regular expression up to its closing slash, slash included. -/
def scanRegex? (state : RegexState) : List Char → Option Nat
  | [] => none
  | c :: rest =>
    if isLineBreak c then none
    else if state.escaped then (scanRegex? ⟨false, state.bracketed⟩ rest).map (· + 1)
    else if c == '/' && !state.bracketed then some 1
    else if c == '[' then (scanRegex? ⟨false, true⟩ rest).map (· + 1)
    else if c == '\\' then (scanRegex? ⟨true, state.bracketed⟩ rest).map (· + 1)
    else if c == ']' then (scanRegex? ⟨false, false⟩ rest).map (· + 1)
    else (scanRegex? state rest).map (· + 1)

/-- The letters that may stand behind a regular expression, each of them once. -/
def regexFlags : List Char :=
  ['d', 'g', 'i', 'm', 's', 'u', 'v', 'y']

/-- Reads a token that begins with a slash again as a regular expression, if it is one. -/
def Token.asRegularExpression? (token : Token) : Option Token :=
  (scanRegex? {} (token.text.drop 1)).bind fun length =>
    let flags := (token.text.drop (1 + length)).takeWhile fun c =>
      Text.isAsciiLetter c || Text.isAsciiDigit c || c == '_' || c == '$'
    if flags.all regexFlags.contains && flags.eraseDups.length = flags.length then
      some (token.reread .regularExpression (1 + length + flags.length))
    else none

/-- The value of a complete template. -/
def Token.templateValue (token : Token) : String :=
  let inside := token.text.drop 1
  match scanTemplate? inside with
  | some (length, _) => stringValue (inside.take (length - 1))
  | none => ""

/-- Reads a closing brace again as the continuation of a template. -/
def Token.asTemplatePart? (token : Token) : Option Token :=
  match token.text with
  | '\x7d' :: rest =>
    (scanTemplate? rest).map fun (length, complete) => token.reread (.template complete) (length + 1)
  | _ => none

/-- Reads a word again as a JSX name, which may hold hyphens. -/
def Token.asJsxName (token : Token) : Token :=
  match token.kind with
  | .word _ =>
    let name := token.text.takeWhile fun c => Text.isIdentifierPart c || c == '-' || c == '\\'
    token.reread (.word (String.ofList name)) name.length
  | _ => token

/-- The next token among the children of a JSX element: an opening angle bracket or brace, or the text
up to one. -/
def nextJsxChild (text : List Char) (offset : Nat) : Token :=
  match text with
  | [] => (Lexeme.mk .endOfText 0 false).toToken text offset false
  | c :: _ =>
    if c == '<' then (Lexeme.mk (.punctuator "<") 1 false).toToken text offset false
    else if c == '\x7b' then (Lexeme.mk (.punctuator "\x7b") 1 false).toToken text offset false
    else
      let run := text.takeWhile fun c => c != '<' && c != '\x7b'
      (Lexeme.mk .jsxText run.length false).toToken text offset false

/-- The next token where the value of a JSX attribute is expected: its strings know no escapes and may
hold line breaks. -/
def nextJsxValue (text : List Char) (offset : Nat) : Token :=
  let (text, offset, newLine) := skipGap .blanks text offset false
  match text with
  | c :: rest =>
    if c == '"' || c == '\'' then
      let inside := rest.takeWhile (· != c)
      if inside.length < rest.length then
        (Lexeme.mk (.string (String.ofList inside)) (inside.length + 2) false).toToken
          text offset newLine
      else (Lexeme.mk .invalid text.length false).toToken text offset newLine
    else (scanToken text).toToken text offset newLine
  | [] => (scanToken text).toToken text offset newLine

end BarrelSynthesis.Source
