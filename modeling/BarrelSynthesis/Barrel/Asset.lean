/-
# Names for files that hold no code

A file whose exports cannot be read stands in a barrel as one default export. Its name is made of the
words of the file name, extension included, in camel case: `z-forwards.json` gives `zForwardsJson`. A
name that begins in upper case keeps doing so.
-/
import BarrelSynthesis.Barrel.Manifest
import BarrelSynthesis.Text.Letter

namespace BarrelSynthesis.Asset

/-- An ASCII upper-case letter. -/
def isUpper (c : Char) : Bool :=
  'A' ≤ c && c ≤ 'Z'

/-- An ASCII lower-case letter. -/
def isLower (c : Char) : Bool :=
  'a' ≤ c && c ≤ 'z'

/-- A character that words consist of. -/
def isWordCharacter (c : Char) : Bool :=
  Text.isAsciiLetter c || Text.isAsciiDigit c

/-- Whether a new word begins between two neighbours: behind a lower-case letter or a digit, and before
the last capital of a run that a lower-case letter follows. -/
def breaksBetween (a b : Char) (after : List Char) : Bool :=
  ((isLower a || Text.isAsciiDigit a) && isUpper b)
    || (isUpper a && isUpper b && (after.head?.map isLower).getD false)

/-- The stretches between the places where words part. Some may be empty. -/
def stretches : List Char → List (List Char)
  | [] => [[]]
  | c :: rest =>
    if isWordCharacter c then
      match rest, stretches rest with
      | next :: after, first :: others =>
        if breaksBetween c next after then [c] :: first :: others else (c :: first) :: others
      | _, first :: others => (c :: first) :: others
      | _, [] => [[c]]
    else [] :: stretches rest

/-- The words of a name. -/
def words (name : List Char) : List (List Char) :=
  (stretches name).filter fun word => !word.isEmpty

/-- A word that is not the first: capitalized, with an underscore before a digit. -/
def laterWord : List Char → List Char
  | [] => []
  | c :: rest => (if Text.isAsciiDigit c then ['_'] else []) ++ c.toUpper :: rest.map Char.toLower

/-- Words joined in camel case. -/
def camelCase : List (List Char) → List Char
  | [] => []
  | first :: rest => first.map Char.toLower ++ rest.flatMap laterWord

/-- The name with an upper-case letter at its beginning, where the file has one. -/
def keepCapital (fileName camel : List Char) : List Char :=
  match fileName, camel with
  | first :: _, _ :: rest => if Text.isUpperCase first then first :: rest else camel
  | _, _ => camel

/-- The identifier that stands for a file. No identifier begins with a digit. -/
def identifier (fileName : String) : String :=
  let name := keepCapital fileName.toList (camelCase (words fileName.toList))
  String.ofList <|
    if (name.head?.map Text.isAsciiDigit).getD false then '_' :: name else name

/-- The entity that stands for a whole file. -/
def entity (path : Path) : Entity :=
  let fileName := path.fileName?.getD ""
  { identifier := identifier fileName
    fileName := fileName
    extension := (Extension.ofPath? path).getD ""
    isDefaultExport := true
    isTypeExport := false
    span := none }

end BarrelSynthesis.Asset
