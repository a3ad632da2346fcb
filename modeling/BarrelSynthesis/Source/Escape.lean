/-
# Escapes in literals and words

Decoding of the escapes that string literals and words may hold. Surrogate halves are joined where two
of them belong together; one that stands alone is kept as a replacement character followed by its
four hexadecimal digits, and replacement characters of the text itself are then written the same way,
so that no two texts fall together.
-/
import BarrelSynthesis.Text.CharacterData

namespace BarrelSynthesis.Source

open Text (hexDigit?)

/-- A decoded piece of a literal: a character, or half of a surrogate pair standing alone. -/
inductive Unit16
  | char (c : Char)
  | half (code : Nat)
  deriving Repr, DecidableEq

/-- Whether a code is a surrogate half. -/
def isHalf (code : Nat) : Bool :=
  0xD800 ≤ code && code ≤ 0xDFFF

/-- A code point as a piece of a literal. -/
def Unit16.ofCode (code : Nat) : Unit16 :=
  if isHalf code then half code else char (Char.ofNat code)

/-- Reads exactly four hexadecimal digits. -/
def fourHex? : List Char → Option Nat
  | a :: b :: c :: d :: _ => do
    let a ← hexDigit? a
    let b ← hexDigit? b
    let c ← hexDigit? c
    let d ← hexDigit? d
    some (((a * 16 + b) * 16 + c) * 16 + d)
  | _ => none

/-- The hexadecimal digits that begin a text. -/
def hexRun (text : List Char) : List Char :=
  text.takeWhile fun c => (hexDigit? c).isSome

/-- The result of decoding behind the letter `u` of an escape: the characters used and what they
stand for. An escape that stands for nothing is a mistake that leaves no trace in the value. -/
structure Decoded where
  used : Nat
  units : List Unit16

/-- Decodes `XXXX`, a pair `XXXX\uXXXX` of surrogate halves, or `{X…}`. -/
def decodeUnicode (text : List Char) : Decoded :=
  match text with
  | '\x7b' :: inner =>
    let digits := hexRun inner
    let code := Text.ofHex digits
    if digits.isEmpty || code > 0x10FFFF then ⟨1 + digits.length, []⟩
    else match inner.drop digits.length with
      | '\x7d' :: _ => ⟨digits.length + 2, [Unit16.ofCode code]⟩
      | _ => ⟨1 + digits.length, []⟩
  | _ =>
    match fourHex? text with
    | none => ⟨(hexRun (text.take 4)).length, []⟩
    | some high =>
      if 0xD800 ≤ high && high ≤ 0xDBFF then
        match text.drop 4 with
        | '\\' :: 'u' :: tail =>
          match fourHex? tail with
          | some low =>
            if 0xDC00 ≤ low && low ≤ 0xDFFF then
              ⟨10, [.char (Char.ofNat (0x10000 + (high - 0xD800) * 0x400 + (low - 0xDC00)))]⟩
            else ⟨10, [.half high, Unit16.ofCode low]⟩
          | none => ⟨6 + (hexRun (tail.take 4)).length, []⟩
        | _ => ⟨4, [.half high]⟩
      else ⟨4, [Unit16.ofCode high]⟩

/-- An octal digit. -/
def isOctal (c : Char) : Bool :=
  '0' ≤ c && c ≤ '7'

/-- Decodes what stands behind a backslash in a string literal, the first character given apart. -/
def decodeEscape (c : Char) (rest : List Char) : Decoded :=
  if c == 'n' then ⟨1, [.char '\n']⟩
  else if c == 't' then ⟨1, [.char '\t']⟩
  else if c == 'r' then ⟨1, [.char '\r']⟩
  else if c == 'b' then ⟨1, [.char '\x08']⟩
  else if c == 'v' then ⟨1, [.char '\x0b']⟩
  else if c == 'f' then ⟨1, [.char '\x0c']⟩
  else if c == '\r' then ⟨if rest.head? == some '\n' then 2 else 1, []⟩
  else if c == '\n' || c.toNat == 0x2028 || c.toNat == 0x2029 then ⟨1, []⟩
  else if c == 'x' then
    match rest with
    | a :: b :: _ =>
      match hexDigit? a, hexDigit? b with
      | some high, some low => ⟨3, [.char (Char.ofNat (high * 16 + low))]⟩
      | some _, none => ⟨2, []⟩
      | none, _ => ⟨1, []⟩
    | [a] => ⟨if (hexDigit? a).isSome then 2 else 1, []⟩
    | [] => ⟨1, []⟩
  else if c == 'u' then
    let decoded := decodeUnicode rest
    ⟨1 + decoded.used, decoded.units⟩
  else if isOctal c then
    let length := if c ≤ '3' then 2 else 1
    let digits := c :: (rest.take length).takeWhile isOctal
    ⟨digits.length, [.char (Char.ofNat (digits.foldl (fun n d => n * 8 + (d.toNat - 48)) 0))]⟩
  else ⟨1, [.char c]⟩

/-- Decodes the inside of a string literal. `skip` counts the characters of an escape that are already
dealt with. -/
def decodeUnits : (skip : Nat) → List Char → List Unit16
  | _, [] => []
  | skip + 1, _ :: rest => decodeUnits skip rest
  | 0, '\\' :: c :: rest =>
    let decoded := decodeEscape c rest
    decoded.units ++ decodeUnits decoded.used (c :: rest)
  | 0, c :: rest => .char c :: decodeUnits 0 rest

/-- The replacement character. -/
def replacement : Char := Char.ofNat 0xFFFD

/-- A lower-case hexadecimal digit. -/
def hexCharacter (n : Nat) : Char :=
  (Nat.toDigits 16 (n % 16)).headD '0'

/-- Four lower-case hexadecimal digits behind a replacement character. -/
def markedCode (code : Nat) : List Char :=
  [replacement, hexCharacter (code / 0x1000), hexCharacter (code / 0x100),
   hexCharacter (code / 0x10), hexCharacter code]

/-- The text of a list of pieces. -/
def unitsText (units : List Unit16) : List Char :=
  if units.any (fun unit => match unit with | .half _ => true | .char _ => false) then
    units.flatMap fun unit =>
      match unit with
      | .half code => markedCode code
      | .char c => if c = replacement then markedCode 0xFFFD else [c]
  else
    units.filterMap fun unit =>
      match unit with
      | .char c => some c
      | .half _ => none

/-- The value of the inside of a string literal. -/
def stringValue (inside : List Char) : String :=
  String.ofList (unitsText (decodeUnits 0 inside))

end BarrelSynthesis.Source
