/-
# Cutting texts into pieces

Cutting at a separator and joining again, on lists of characters, together with the small tests on
the beginning and the end of a text that file names and module specifiers are judged by.
-/

namespace BarrelSynthesis.Text

/-- The pieces between the separators, one more than there are separators. -/
def pieces (separator : Char) : List Char → List (List Char)
  | [] => [[]]
  | c :: rest =>
    if c = separator then [] :: pieces separator rest
    else match pieces separator rest with
      | piece :: more => (c :: piece) :: more
      | [] => [[c]]

/-- Puts the separator between the pieces. -/
def glue (separator : Char) : List (List Char) → List Char
  | [] => []
  | [piece] => piece
  | piece :: more => piece ++ separator :: glue separator more

/-- There is always a piece, be it empty. -/
theorem pieces_ne_nil (separator : Char) (cs : List Char) : pieces separator cs ≠ [] := by
  cases cs with
  | nil => simp [pieces]
  | cons c rest =>
    by_cases h : c = separator
    · simp [pieces, h]
    · simp only [pieces, h, if_false]
      split <;> simp

/-- Cutting loses nothing: the pieces joined again are the text. -/
theorem glue_pieces (separator : Char) (cs : List Char) :
    glue separator (pieces separator cs) = cs := by
  induction cs with
  | nil => rfl
  | cons c rest ih =>
    by_cases h : c = separator
    · subst h
      cases hp : pieces c rest with
      | nil => exact absurd hp (pieces_ne_nil c rest)
      | cons piece more =>
        simp only [pieces, if_true, hp, glue, List.nil_append]
        rw [← hp, ih]
    · cases hp : pieces separator rest with
      | nil => exact absurd hp (pieces_ne_nil separator rest)
      | cons piece more =>
        rw [hp] at ih
        cases more with
        | nil => simp only [pieces, h, if_false, hp, glue] at ih ⊢; rw [ih]
        | cons other others =>
          simp only [pieces, h, if_false, hp, glue, List.cons_append] at ih ⊢; rw [ih]

/-- Removes a given ending, when the text has it. -/
def withoutSuffix? (ending text : List Char) : Option (List Char) :=
  if ending.isSuffixOf text then some (text.take (text.length - ending.length)) else none

/-- Removes every repetition of a character from the end. -/
def trimEnd (c : Char) (text : List Char) : List Char :=
  (text.reverse.dropWhile (· = c)).reverse

/-- Splits a text at the last occurrence of a separator. -/
def splitAtLast? (separator : Char) (text : List Char) : Option (List Char × List Char) :=
  let backwards := text.reverse
  let last := backwards.takeWhile (· ≠ separator)
  match backwards.dropWhile (· ≠ separator) with
  | _ :: before => some (before.reverse, last.reverse)
  | [] => none

end BarrelSynthesis.Text
