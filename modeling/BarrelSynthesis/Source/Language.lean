/-
# Source languages

Which syntax a source file may use, decided by the end of its name.
-/
import BarrelSynthesis.Path.Basic

namespace BarrelSynthesis.Source

/-- The syntax a source file may use beyond plain JavaScript. -/
structure Language where
  typeScript : Bool
  jsx : Bool
  deriving Repr, DecidableEq

/-- The part of a file name behind its last dot. A dot that begins the name does not count. -/
def lastExtension? (name : String) : Option String :=
  match Text.splitAtLast? '.' name.toList with
  | some (stem, ending) => if stem.isEmpty then none else some (String.ofList ending)
  | none => none

/-- The language of a file. Names that end in nothing known hold TypeScript without JSX. -/
def Language.ofPath (path : Path) : Language :=
  match path.fileName?.bind lastExtension? with
  | some "tsx" => ⟨true, true⟩
  | some "jsx" => ⟨false, true⟩
  | some "js" => ⟨false, false⟩
  | some "mjs" => ⟨false, false⟩
  | some "cjs" => ⟨false, false⟩
  | _ => ⟨true, false⟩

end BarrelSynthesis.Source
