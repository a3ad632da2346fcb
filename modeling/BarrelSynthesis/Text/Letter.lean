/-
# Letters, digits and case beyond ASCII

Which characters are letters, digits or upper case, which may stand in an identifier, and the
lower-case form of a text. The classes are those of the Unicode standard; ASCII is decided here and
the tables cover the rest.
-/
import BarrelSynthesis.Text.CharacterData

namespace BarrelSynthesis.Text

/-- Whether some run of a table covers the character. -/
def inTable (table : List CodeRun) (c : Char) : Bool :=
  table.any (·.covers c.toNat)

/-- An ASCII letter. -/
def isAsciiLetter (c : Char) : Bool :=
  ('a' ≤ c && c ≤ 'z') || ('A' ≤ c && c ≤ 'Z')

/-- An ASCII digit. -/
def isAsciiDigit (c : Char) : Bool :=
  '0' ≤ c && c ≤ '9'

/-- An ASCII character, as opposed to one the tables decide. -/
def isAscii (c : Char) : Bool :=
  c.toNat < 128

/-- A character that may begin an identifier. -/
def isIdentifierStart (c : Char) : Bool :=
  if isAscii c then isAsciiLetter c || c == '_' || c == '$'
  else inTable identifierStarts c

/-- A character that may continue an identifier. -/
def isIdentifierPart (c : Char) : Bool :=
  if isAscii c then isAsciiLetter c || isAsciiDigit c || c == '_' || c == '$'
  else inTable identifierStarts c || inTable identifierContinuations c

/-- A letter of any script. -/
def isLetter (c : Char) : Bool :=
  if isAscii c then isAsciiLetter c
  else (inTable identifierStarts c && !inTable nonLetterStarts c) || inTable otherLetters c

/-- A letter or a number of any script. -/
def isLetterOrNumber (c : Char) : Bool :=
  isLetter c || (if isAscii c then isAsciiDigit c else inTable numbers c)

/-- An upper-case letter of any script. -/
def isUpperCase (c : Char) : Bool :=
  if isAscii c then 'A' ≤ c && c ≤ 'Z' else inTable upperCase c

/-- A letter that has a case. -/
def isCased (c : Char) : Bool :=
  if isAscii c then isAsciiLetter c else inTable cased c

/-- A character passed over when the case of a neighbour is decided. -/
def isCaseIgnorable (c : Char) : Bool :=
  if isAscii c then c == '\'' || c == '.' || c == ':' || c == '^' || c.toNat == 96
  else inTable caseIgnorable c

/-- The lower-case form of a character on its own. Only the dotted capital I has one of two
characters. -/
def lowerForm (c : Char) : List Char :=
  if isAscii c then [c.toLower]
  else if c.toNat == 0x130 then ['i', Char.ofNat 0x307]
  else match lowerForms.find? (·.run.covers c.toNat) with
    | some form => [Char.ofNat (c.toNat + form.distance).toNat]
    | none => [c]

/-- Whether the next character that is not passed over has a case. -/
def leadsToCased (cs : List Char) : Bool :=
  match cs.dropWhile isCaseIgnorable with
  | c :: _ => isCased c
  | [] => false

/-- The Greek capital sigma, whose lower-case form depends on its place in the word. -/
def capitalSigma : Char := Char.ofNat 0x3A3

/-- Lowers a text left to right. `before` holds the characters already passed, nearest first: a
capital sigma after a letter and before none is the final one. -/
def lowerFrom (before : List Char) : List Char → List Char
  | [] => []
  | c :: rest =>
    let form :=
      if c == capitalSigma then
        [if leadsToCased before && !leadsToCased rest then Char.ofNat 0x3C2 else Char.ofNat 0x3C3]
      else lowerForm c
    form ++ lowerFrom (c :: before) rest

/-- The lower-case form of a text. -/
def lower (text : String) : String :=
  String.ofList (lowerFrom [] text.toList)

end BarrelSynthesis.Text
