/-
# Module specifiers

How the origin of an entity is named from the folder that holds it, and which folder a specifier of a
barrel names.
-/
import BarrelSynthesis.Barrel.Manifest

namespace BarrelSynthesis.Specifier

/-- The text of a folder's specifier without separators at its end. Nothing left means the folder
itself. -/
def withoutTrailingSeparators (specifier : String) : String :=
  let trimmed := Text.trimEnd '/' specifier.toList
  if trimmed.isEmpty then "." else String.ofList trimmed

/-- Whether a specifier is relative to the importing file. -/
def isRelative (specifier : String) : Bool :=
  specifier = "." || specifier = ".." || "./".toList.isPrefixOf specifier.toList
    || "../".toList.isPrefixOf specifier.toList

/-- The name that reaches a file within its folder. Code is named without its extension, or with that of
the emitted file where the resolution asks for one; an asset has its full name. -/
def originName (entity : Entity) (options : CompilerOptions) : String :=
  if entity.isExternal then entity.fileName
  else if options.isNodeModernResolution then
    entity.fileName ++ Extension.output entity.extension options
  else entity.fileName

/-- The kind an assert clause states about the origin of an entity. Only assets have one. -/
def assertionOf (entity : Entity) (options : CompilerOptions) : Option String :=
  if entity.isExternal && options.supportsImportAttributes then
    some (String.ofList (entity.extension.toList.dropWhile (· = '.')))
  else none

/-- The specifier of the file an entity comes from. `base` is the specifier of its folder. -/
def origin (base : String) (entity : Entity) (options : CompilerOptions) : String :=
  withoutTrailingSeparators base ++ "/" ++ originName entity options

/-- Whether the last segment of a specifier names an aggregator file. -/
def namesBarrel (last : List Char) : Bool :=
  let stem := (Extension.known.findSome? fun extension =>
    Text.withoutSuffix? extension.toList last).getD last
  stem = Extension.barrelStem.toList

/-- The folder that a specifier of its barrel names: `./components/index.js` and `./components/` both
give `./components`. -/
def barrelBase (specifier : String) : String :=
  let trimmed := Text.trimEnd '/' specifier.toList
  match Text.splitAtLast? '/' trimmed with
  | some (folder, last) =>
    if namesBarrel last then (if folder.isEmpty then "." else String.ofList folder)
    else String.ofList trimmed
  | none => if trimmed.isEmpty then "." else String.ofList trimmed

end BarrelSynthesis.Specifier
