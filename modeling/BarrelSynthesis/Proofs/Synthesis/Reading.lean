/-
# Reading modules of exports

The grammar of the ECMAScript standard by which a module that only exports names of other modules is read,
without regard to who printed it. White space and comments separate tokens. A name is an identifier name, whose
characters may be escaped, or a string literal; a literal holds no raw line break, its escapes are decoded, and
what it stands for is a text. A declaration may state attributes of its module behind the word `with`, each of
them once; the only one that an export can hold is the type. A clause behind the word `assert` is no part of
the grammar. A declaration may end without a semicolon where a line ends, an entry of a list may be followed by
a comma, and no two entries of a module may export one name.

Every reader takes what it reads off the front of a list and gives what is left, or refuses.
-/
import BarrelSynthesis.Source.Lexer
import BarrelSynthesis.Synthesis.Printer

namespace BarrelSynthesis.Synthesis.Reading

variable {σ α : Type}

/-- Reads again and again for as long as something is read and less is left. -/
def many (read : List σ → Option (α × List σ)) (text : List σ) : List α × List σ :=
  match read text with
  | none => ([], text)
  | some (value, rest) =>
    if rest.length < text.length then
      let others := many read rest
      (value :: others.1, others.2)
    else ([], text)
termination_by text.length

/-! ## White space and comments -/

/-- White space that ends no line. -/
def whiteSpace : List Char :=
  ['\t', '\x0b', '\x0c', ' ', '\u00a0', '\u1680', '\u2000', '\u2001', '\u2002', '\u2003', '\u2004',
   '\u2005', '\u2006', '\u2007', '\u2008', '\u2009', '\u200a', '\u202f', '\u205f', '\u3000', '\ufeff']

/-- The characters that end a line. -/
def lineEnds : List Char := ['\n', '\r', '\u2028', '\u2029']

/-- Skips white space and comments, and tells whether a line ends among them. A block comment has to end. No
character that begins a name is white space. -/
def skipGap : Source.Gap → (newLine : Bool) → List Char → Option (Bool × List Char)
  | .blanks, newLine, '/' :: '/' :: rest => skipGap .lineComment newLine rest
  | .blanks, newLine, '/' :: '*' :: rest => skipGap .blockComment newLine rest
  | .blanks, newLine, c :: rest =>
    if Text.isIdentifierStart c then some (newLine, c :: rest)
    else if c ∈ lineEnds then skipGap .blanks true rest
    else if c ∈ whiteSpace then skipGap .blanks newLine rest
    else some (newLine, c :: rest)
  | .lineComment, newLine, c :: rest =>
    if c ∈ lineEnds then skipGap .blanks true rest else skipGap .lineComment newLine rest
  | .blockComment, newLine, '*' :: '/' :: rest => skipGap .blanks newLine rest
  | .blockComment, newLine, c :: rest => skipGap .blockComment (newLine || c ∈ lineEnds) rest
  | .blockComment, _, [] => none
  | _, newLine, [] => some (newLine, [])

/-! ## Names -/

/-- Reads a code point behind `\u`: four hexadecimal digits, or any number of them between braces. -/
def codePoint? : List Char → Option (Nat × List Char)
  | '\x7b' :: inner =>
    let digits := Source.hexRun inner
    match inner.drop digits.length with
    | '\x7d' :: rest =>
      if digits ≠ [] ∧ Text.ofHex digits ≤ 0x10FFFF then some (Text.ofHex digits, rest) else none
    | _ => none
  | text => (Source.fourHex? text).map fun code => (code, text.drop 4)

/-- Reads a character of an identifier name, as it is or escaped. -/
def nameCharacter? (allowed : Char → Bool) : List Char → Option ((Char × Bool) × List Char)
  | '\\' :: 'u' :: rest =>
    (codePoint? rest).bind fun (code, rest) =>
      if allowed (Char.ofNat code) then some ((Char.ofNat code, true), rest) else none
  | c :: rest => if allowed c then some ((c, false), rest) else none
  | [] => none

/-- Reads an identifier name, and tells whether a character of it is escaped. -/
def name? (text : List Char) : Option ((List Char × Bool) × List Char) :=
  (nameCharacter? Text.isIdentifierStart text).map fun (first, rest) =>
    let others := many (nameCharacter? Text.isIdentifierPart) rest
    ((first.1 :: others.1.map (·.1), first.2 || others.1.any (·.2)), others.2)

/-! ## String literals -/

/-- The character that a single character behind a backslash stands for. -/
def singleEscape (c : Char) : Char :=
  match c with
  | 'b' => '\x08'
  | 't' => '\t'
  | 'n' => '\n'
  | 'v' => '\x0b'
  | 'f' => '\x0c'
  | 'r' => '\r'
  | c => c

/-- Reads what stands behind a backslash in a string literal. The end of a line stands for nothing there; of
the digits, only a zero that no other follows is an escape. -/
def escape? : List Char → Option (List Source.Unit16 × List Char)
  | 'x' :: a :: b :: rest =>
    (Text.hexDigit? a).bind fun high => (Text.hexDigit? b).map fun low =>
      ([.char (Char.ofNat (high * 16 + low))], rest)
  | 'u' :: rest => (codePoint? rest).map fun (code, rest) => ([Source.Unit16.ofCode code], rest)
  | '\r' :: '\n' :: rest => some ([], rest)
  | '0' :: d :: rest => if Text.isAsciiDigit d then none else some ([.char '\x00'], d :: rest)
  | c :: rest =>
    if c ∈ lineEnds then some ([], rest)
    else if c = 'x' ∨ Text.isAsciiDigit c then none
    else some ([.char (singleEscape c)], rest)
  | [] => none

/-- Reads a character or an escape inside a string literal. -/
def literalPiece? (quote : Char) : List Char → Option (List Source.Unit16 × List Char)
  | '\\' :: rest => escape? rest
  | c :: rest => if c = quote ∨ c = '\n' ∨ c = '\r' then none else some ([.char c], rest)
  | [] => none

/-- The text that the pieces of a literal make up, if every half of a surrogate pair has the other half. -/
def wholeText? : List Source.Unit16 → Option (List Char)
  | [] => some []
  | .char c :: rest => (wholeText? rest).map (c :: ·)
  | .half high :: .half low :: rest =>
    if high < 0xDC00 ∧ 0xDC00 ≤ low then
      (wholeText? rest).map (Char.ofNat (0x10000 + (high - 0xD800) * 0x400 + (low - 0xDC00)) :: ·)
    else none
  | .half _ :: _ => none

/-- Reads the inside of a string literal and the quote behind it. -/
def literal? (quote : Char) (text : List Char) : Option (List Char × List Char) :=
  let pieces := many (literalPiece? quote) text
  match pieces.2 with
  | c :: rest => if c = quote then (wholeText? pieces.1.flatten).map (·, rest) else none
  | [] => none

/-! ## Tokens -/

/-- A token of a module of exports. Names and literals carry what they stand for. -/
inductive Token
  | name (text : String) (escaped : Bool)
  | literal (value : String)
  | mark (c : Char)
  deriving Repr, DecidableEq

/-- A token, and whether a line ends before it. -/
structure Lexeme where
  newLine : Bool
  token : Token
  deriving Repr, DecidableEq

/-- The punctuators of export declarations. -/
def marks : List Char := ['\x7b', '\x7d', ',', ':', ';']

/-- Reads a token. -/
def token? : List Char → Option (Token × List Char)
  | [] => none
  | c :: rest =>
    if c = '"' ∨ c = '\'' then
      (literal? c rest).map fun (value, rest) => (.literal (String.ofList value), rest)
    else if c ∈ marks then some (.mark c, rest)
    else (name? (c :: rest)).map fun (name, rest) => (.name (String.ofList name.1) name.2, rest)

/-- Reads a token behind white space and comments. -/
def lexeme? (text : List Char) : Option (Lexeme × List Char) :=
  (skipGap .blanks false text).bind fun (newLine, rest) =>
    (token? rest).map fun (token, rest) => (⟨newLine, token⟩, rest)

/-- The tokens of a text that consists of tokens, white space and comments. -/
def lexemes? (text : List Char) : Option (List Lexeme) :=
  let found := many lexeme? text
  match skipGap .blanks false found.2 with
  | some (_, []) => some found.1
  | _ => none

/-! ## Declarations -/

/-- Passes a keyword, which cannot be escaped. -/
def word? (text : String) : List Lexeme → Option (List Lexeme)
  | ⟨_, token⟩ :: rest => if token = .name text false then some rest else none
  | [] => none

/-- Passes a punctuator. -/
def mark? (c : Char) : List Lexeme → Option (List Lexeme)
  | ⟨_, token⟩ :: rest => if token = .mark c then some rest else none
  | [] => none

/-- Reads a string literal. -/
def string? : List Lexeme → Option (String × List Lexeme)
  | ⟨_, .literal value⟩ :: rest => some (value, rest)
  | _ => none

/-- Reads the name of an export: an identifier name or a string literal. -/
def exportName? : List Lexeme → Option (String × List Lexeme)
  | ⟨_, .name text _⟩ :: rest => some (text, rest)
  | ⟨_, .literal value⟩ :: rest => some (value, rest)
  | _ => none

/-- Reads an entry of an export list. -/
def item? (text : List Lexeme) : Option (ExportEntry × List Lexeme) :=
  (exportName? text).bind fun (first, rest) =>
    match word? "as" rest with
    | none => some (⟨none, first⟩, rest)
    | some rest => (exportName? rest).map fun (last, rest) => (⟨some first, last⟩, rest)

/-- Reads an attribute of a module: what it is called, and its value. -/
def attribute? (text : List Lexeme) : Option ((String × String) × List Lexeme) :=
  (exportName? text).bind fun (key, rest) => (mark? ':' rest).bind fun rest =>
    (string? rest).map fun (value, rest) => ((key, value), rest)

/-- Reads an entry of a list and the comma behind it. -/
def andComma? (read : List Lexeme → Option (α × List Lexeme)) (text : List Lexeme) :
    Option (α × List Lexeme) :=
  (read text).bind fun (value, rest) => (mark? ',' rest).map (value, ·)

/-- Reads a list between braces. A comma may stand behind the last entry. -/
def list? (read : List Lexeme → Option (α × List Lexeme)) (text : List Lexeme) :
    Option (List α × List Lexeme) :=
  (mark? '\x7b' text).bind fun rest =>
    let front := many (andComma? read) rest
    match read front.2 with
    | some (last, rest) => (mark? '\x7d' rest).map (front.1 ++ [last], ·)
    | none => (mark? '\x7d' front.2).map (front.1, ·)

/-- Reads the attributes that are stated of a module, if any are. No two of them are called alike. -/
def attributes? (text : List Lexeme) : Option (List (String × String) × List Lexeme) :=
  match word? "with" text with
  | none => some ([], text)
  | some rest => (list? attribute? rest).filter fun (attributes, _) =>
      (attributes.map (·.1)).Nodup

/-- The kind that attributes state. An export holds no other attribute. -/
def kind? : List (String × String) → Option (Option String)
  | [] => some none
  | [("type", kind)] => some (some kind)
  | _ => none

/-- Passes the end of a declaration: a semicolon, or nothing where a line or the text ends. -/
def declarationEnd? : List Lexeme → Option (List Lexeme)
  | [] => some []
  | ⟨newLine, token⟩ :: rest =>
    if token = .mark ';' then some rest
    else if newLine then some (⟨newLine, token⟩ :: rest)
    else none

/-- Reads an export of names from another module. A list without a module exports names of its own, of which
there are none; it may only be empty, and is no export. -/
def declaration? (text : List Lexeme) : Option (Option Export × List Lexeme) :=
  (word? "export" text).bind fun rest => (list? item? rest).bind fun (entries, rest) =>
    match word? "from" rest with
    | some rest =>
      (string? rest).bind fun (module, rest) => (attributes? rest).bind fun (attributes, rest) =>
        (kind? attributes).bind fun kind =>
          (declarationEnd? rest).map (some ⟨entries, module, kind⟩, ·)
    | none => if entries = [] then (declarationEnd? rest).map (none, ·) else none

/-- The names that some exports give a module. -/
def exportedNames (exports : List Export) : List String :=
  exports.flatMap fun declaration => declaration.entries.map (·.name)

/-- Reads a module of exports. -/
def module? (text : String) : Option (List Export) :=
  (lexemes? text.toList).bind fun lexemes =>
    let found := many declaration? lexemes
    let exports := found.1.filterMap id
    if found.2 = [] ∧ (exportedNames exports).Nodup then some exports else none

end BarrelSynthesis.Synthesis.Reading
