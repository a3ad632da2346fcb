/-
# Byte offsets

Places in a text are counted in bytes of its UTF-8 form, while the text itself is read character by
character. An offset inside a character is no place to cut at.
-/

namespace BarrelSynthesis.Text

/-- The characters that begin before an offset. -/
def charactersBefore : Nat → List Char → List Char
  | _, [] => []
  | offset, c :: rest =>
    if offset = 0 then [] else c :: charactersBefore (offset - c.utf8Size) rest

/-- Leaves a number of bytes out. Gives nothing when that would cut a character or is too much. -/
def dropBytes? : Nat → List Char → Option (List Char)
  | 0, cs => some cs
  | _ + 1, [] => none
  | offset + 1, c :: rest =>
    if c.utf8Size ≤ offset + 1 then dropBytes? (offset + 1 - c.utf8Size) rest else none

/-- Takes a number of bytes. Gives nothing when that would cut a character or is too much. -/
def takeBytes? : Nat → List Char → Option (List Char)
  | 0, _ => some []
  | _ + 1, [] => none
  | offset + 1, c :: rest =>
    if c.utf8Size ≤ offset + 1 then
      (takeBytes? (offset + 1 - c.utf8Size) rest).map (c :: ·)
    else none

/-- The text between two offsets. -/
def between? (start stop : Nat) (cs : List Char) : Option (List Char) :=
  if start ≤ stop then (dropBytes? start cs).bind (takeBytes? (stop - start)) else none

/-- Whether a text can be cut at an offset. -/
def isBoundary (offset : Nat) (cs : List Char) : Bool :=
  (dropBytes? offset cs).isSome

/-- A place in a text: how many lines end before it, and how many characters stand before it on its own
line. -/
structure Place where
  lines : Nat
  characters : Nat
  deriving Repr, DecidableEq

namespace Place

/-- The place where every text begins. -/
def first : Place := ⟨0, 0⟩

/-- The place behind a character. -/
def past (place : Place) (c : Char) : Place :=
  if c = '\n' then ⟨place.lines + 1, 0⟩ else ⟨place.lines, place.characters + 1⟩

/-- The place of a byte offset. Offsets behind the end stand for the end. -/
def ofOffset (source : String) (offset : Nat) : Place :=
  (charactersBefore offset source.toList).foldl past first

end Place

end BarrelSynthesis.Text
