/-
# Reading JSON texts

Every function reads from the front of a list of characters and gives what it read together with the
characters behind it.
-/
import BarrelSynthesis.Json.Value
import BarrelSynthesis.Text.Letter

namespace BarrelSynthesis.Json

/-- A character that may stand between tokens. -/
def isBlank (c : Char) : Bool :=
  c == ' ' || c == '\n' || c == '\t' || c == '\r'

/-- Passes over blanks. -/
def skipBlanks (text : List Char) : List Char :=
  text.dropWhile isBlank

/-- A piece of a string: a character, or half of a pair of escapes that make one. -/
inductive Piece
  | char (c : Char)
  | half (unit : Nat)

/-- The piece that an escaped code unit stands for. -/
def Piece.ofUnit (unit : Nat) : Piece :=
  if 0xD800 ≤ unit && unit < 0xE000 then half unit else char (Char.ofNat unit)

/-- The text that pieces make, when every half has its other half. -/
def textOfPieces? : List Piece → Option (List Char)
  | [] => some []
  | .char c :: rest => (textOfPieces? rest).map (c :: ·)
  | .half high :: .half low :: rest =>
    if high < 0xDC00 && 0xDC00 ≤ low then
      (textOfPieces? rest).map (Char.ofNat (0x10000 + (high - 0xD800) * 0x400 + (low - 0xDC00)) :: ·)
    else none
  | .half _ :: _ => none

/-- The pieces without a first half at their end, whose other half may still have followed. -/
def withoutOpenHalf (pieces : List Piece) : List Piece :=
  match pieces.getLast? with
  | some (.half unit) => if unit < 0xDC00 then pieces.dropLast else pieces
  | _ => pieces

/-- The character that a simple escape stands for. -/
def simpleEscape? (c : Char) : Option Char :=
  if c == '"' || c == '\\' || c == '/' then some c
  else if c == 'b' then some (Char.ofNat 8)
  else if c == 'f' then some (Char.ofNat 12)
  else if c == 'n' then some '\n'
  else if c == 'r' then some '\r'
  else if c == 't' then some '\t'
  else none

/-- The number that four hexadecimal digits write. -/
def unitOf? (a b c d : Char) : Option Nat := do
  let a ← Text.hexDigit? a
  let b ← Text.hexDigit? b
  let c ← Text.hexDigit? c
  let d ← Text.hexDigit? d
  return ((a * 16 + b) * 16 + c) * 16 + d

/-- Puts a piece before what was read behind it. -/
def afterPiece (piece : Piece) (read : List Piece × (Fault ⊕ List Char)) :
    List Piece × (Fault ⊕ List Char) :=
  (piece :: read.1, read.2)

/-- Reads the pieces of a string up to its closing quote. -/
def readPieces : List Char → List Piece × (Fault ⊕ List Char)
  | [] => ([], .inl .truncated)
  | '"' :: rest => ([], .inr rest)
  | '\\' :: 'u' :: a :: b :: c :: d :: rest =>
    match unitOf? a b c d with
    | some unit => afterPiece (Piece.ofUnit unit) (readPieces rest)
    | none => ([], .inl .malformed)
  | '\\' :: 'u' :: rest =>
    ([], .inl (if (String.ofList rest).utf8ByteSize < 4 then .truncated else .malformed))
  | '\\' :: c :: rest =>
    match simpleEscape? c with
    | some c => afterPiece (.char c) (readPieces rest)
    | none => ([], .inl .malformed)
  | '\\' :: [] => ([], .inl .truncated)
  | c :: rest =>
    if c.toNat < 0x20 then ([], .inl .malformed) else afterPiece (.char c) (readPieces rest)

/-- Reads a string behind its opening quote: its text, if the escapes make one, or the faults that a
reader and one who passes over meet. -/
def readString (text : List Char) : (Fault × Fault) ⊕ (Option String × List Char) :=
  match readPieces text with
  | (pieces, .inr rest) => .inr ((textOfPieces? pieces).map String.ofList, rest)
  | (pieces, .inl fault) =>
    if (textOfPieces? (withoutOpenHalf pieces)).isSome then .inl (fault, fault)
    else .inl (.malformed, fault)

/-- Reads a word of which the first letter has been seen. -/
def readWord (word : List Char) (value : Value) (text : List Char) : Value × List Char :=
  match word, text with
  | [], rest => (value, rest)
  | _ :: _, [] => (.broken .truncated .truncated, [])
  | c :: word, found :: rest =>
    if found = c then readWord word value rest else (.broken .malformed .malformed, [])

/-- What is wrong with a number that lacks digits: a reader sees that the text has ended, one who passes
over only that digits are missing. -/
def missingDigits (rest : List Char) : Value :=
  if rest.isEmpty then .broken .truncated .malformed else .broken .malformed .malformed

/-- The digits at the front of a text. -/
def digitsOf (text : List Char) : List Char :=
  text.takeWhile Text.isAsciiDigit

/-- The number that some digits write. -/
def valueOf (digits : List Char) : Nat :=
  digits.foldl (fun n c => n * 10 + (c.toNat - 48)) 0

/-- Whether the number that some digits and a power of ten make lies beyond every floating-point number:
it is at least the middle between the largest of them and the next power of two. -/
def overflows (digits : List Char) (exponent : Int) : Bool :=
  let significant := digits.dropWhile (· = '0')
  let magnitude : Int := significant.length + exponent
  if significant.isEmpty || magnitude < 300 then false
  else if 400 < magnitude then true
  else
    let bound := Nat.pow 2 1024 - Nat.pow 2 970
    if 0 ≤ exponent then bound ≤ valueOf significant * Nat.pow 10 exponent.toNat
    else bound * Nat.pow 10 (-exponent).toNat ≤ valueOf significant

/-- Reads an exponent behind the digits of a number. -/
def readExponent (whole fraction : List Char) (text : List Char) : Value × List Char :=
  let number := fun (exponent : Int) =>
    Value.number (overflows (whole ++ fraction) (exponent - fraction.length))
  match text with
  | c :: rest =>
    if c == 'e' || c == 'E' then
      let negative := rest.head? == some '-'
      let unsigned := if negative || rest.head? == some '+' then rest.drop 1 else rest
      let digits := digitsOf unsigned
      if digits.isEmpty then (missingDigits unsigned, [])
      else
        let size : Int := valueOf digits
        (number (if negative then -size else size), unsigned.drop digits.length)
    else (number 0, text)
  | [] => (number 0, [])

/-- Reads the part of a number behind its sign. -/
def readUnsigned (text : List Char) : Value × List Char :=
  let whole := digitsOf text
  let rest := text.drop whole.length
  if whole.isEmpty then (missingDigits rest, [])
  else if whole.head? = some '0' && 1 < whole.length then (.broken .malformed .malformed, [])
  else
    match rest with
    | '.' :: behind =>
      let fraction := digitsOf behind
      let rest := behind.drop fraction.length
      if fraction.isEmpty then (missingDigits rest, []) else readExponent whole fraction rest
    | _ => readExponent whole [] rest

mutual

/-- Reads a value, given a bound on its length. -/
def readValue : Nat → List Char → Value × List Char
  | 0, _ => (.broken .truncated .truncated, [])
  | fuel + 1, text =>
    match skipBlanks text with
    | [] => (.broken .truncated .truncated, [])
    | '"' :: rest =>
      match readString rest with
      | .inr (text, rest) => (.string text, rest)
      | .inl (asRead, asIgnored) => (.broken asRead asIgnored, [])
    | '[' :: rest => readItems fuel true rest
    | '\x7b' :: rest => readEntries fuel true rest
    | 'n' :: rest => readWord "ull".toList .null rest
    | 't' :: rest => readWord "rue".toList (.bool true) rest
    | 'f' :: rest => readWord "alse".toList (.bool false) rest
    | '-' :: rest => readUnsigned rest
    | c :: rest =>
      if Text.isAsciiDigit c then readUnsigned (c :: rest) else (.broken .malformed .malformed, [])

/-- Reads the items of an array from before an item on. `first` says that there is none before it. -/
def readItems : Nat → (first : Bool) → List Char → Value × List Char
  | 0, _, _ => (.array [] (some .truncated), [])
  | fuel + 1, first, text =>
    match skipBlanks text with
    | ']' :: rest =>
      if first then (.array [] none, rest) else (.array [] (some .malformed), [])
    | rest =>
      let (item, rest) := readValue fuel rest
      match item.ignoredFault?, skipBlanks rest with
      | some fault, _ => (.array [item] (some fault), [])
      | none, ']' :: rest => (.array [item] none, rest)
      | none, ',' :: rest =>
        match readItems fuel false rest with
        | (.array items fault, rest) => (.array (item :: items) fault, rest)
        | other => other
      | none, [] => (.array [item] (some .truncated), [])
      | none, _ :: _ => (.array [item] (some .malformed), [])

/-- Reads the entries of an object from before an entry on. `first` says that there is none before
it. -/
def readEntries : Nat → (first : Bool) → List Char → Value × List Char
  | 0, _, _ => (.object [] (some .truncated), [])
  | fuel + 1, first, text =>
    match skipBlanks text with
    | '\x7d' :: rest =>
      if first then (.object [] none, rest) else (.object [] (some .malformed), [])
    | '"' :: rest =>
      match readString rest with
      | .inl (asRead, asIgnored) =>
        (.object (if asRead = asIgnored then [] else [(none, .broken asIgnored asIgnored)])
          (some asIgnored), [])
      | .inr (key, rest) =>
        match skipBlanks rest with
        | ':' :: rest =>
          let (value, rest) := readValue fuel rest
          match value.ignoredFault?, skipBlanks rest with
          | some fault, _ => (.object [(key, value)] (some fault), [])
          | none, '\x7d' :: rest => (.object [(key, value)] none, rest)
          | none, ',' :: rest =>
            match readEntries fuel false rest with
            | (.object entries fault, rest) => (.object ((key, value) :: entries) fault, rest)
            | other => other
          | none, [] => (.object [(key, value)] (some .truncated), [])
          | none, _ :: _ => (.object [(key, value)] (some .malformed), [])
        | [] => (.object [(key, .broken .truncated .truncated)] (some .truncated), [])
        | _ :: _ => (.object [(key, .broken .malformed .malformed)] (some .malformed), [])
    | [] => (.object [] (some .truncated), [])
    | _ :: _ => (.object [] (some .malformed), [])

end

/-- A JSON text: its value, and whether anything but blanks stands behind it. -/
structure Document where
  value : Value
  hasTrailing : Bool

/-- Reads a text. -/
def Document.ofText (text : String) : Document :=
  let characters := text.toList
  let (value, rest) := readValue (2 * characters.length + 2) characters
  ⟨value, !(skipBlanks rest).isEmpty⟩

end BarrelSynthesis.Json
