/-
# Configurations

Reading compiler options and project files. A project file holds, beside the options, the settings of this
plugin and the patterns of the files that belong to the project; the folders that those patterns begin
with are the ones in which barrels may be synthesized.
-/
import BarrelSynthesis.Json.Decode
import BarrelSynthesis.Path.Basic

namespace BarrelSynthesis

open Json

/-- Decodes a word that names a value of an option. -/
def decodeWord {α : Type} (read : String → Except UnknownOption α) (value : Value) : Decoded α := do
  let word ← value.asString
  match read word with
  | .ok found => return found
  | .error failure => .error (.mismatch (some failure))

/-- The compiler options met so far. -/
structure OptionFields where
  module : Option ModuleKind := none
  moduleResolution : Option ModuleResolution := none
  resolveJsonModule : Option Bool := none
  allowJs : Option Bool := none
  jsx : Option JsxEmit := none

namespace OptionFields

/-- The names of the options in the order in which an array gives them. -/
def names : List String :=
  ["module", "moduleResolution", "resolveJsonModule", "allowJs", "jsx"]

/-- Decodes one field. Fields of other names are passed over. -/
def step (fields : OptionFields) (key : String) (value : Value) : Decoded OptionFields := do
  if key = "module" then
    return { fields with module := ← .once fields.module (decodeWord ModuleKind.read value) }
  else if key = "moduleResolution" then
    return { fields with
      moduleResolution := ← .once fields.moduleResolution (decodeWord ModuleResolution.read value) }
  else if key = "resolveJsonModule" then
    return { fields with resolveJsonModule := ← .once fields.resolveJsonModule value.asBool }
  else if key = "allowJs" then
    return { fields with allowJs := ← .once fields.allowJs value.asBool }
  else if key = "jsx" then
    return { fields with jsx := ← .once fields.jsx (decodeWord JsxEmit.read value) }
  else
    value.ignore
    return fields

/-- The options, with the default for every one that was not met. -/
def options (fields : OptionFields) : CompilerOptions :=
  let default : CompilerOptions := {}
  { module := fields.module.getD default.module
    moduleResolution := fields.moduleResolution.getD default.moduleResolution
    resolveJsonModule := fields.resolveJsonModule.getD default.resolveJsonModule
    allowJs := fields.allowJs.getD default.allowJs
    jsx := fields.jsx.getD default.jsx }

end OptionFields

/-- Decodes compiler options. -/
def CompilerOptions.decode (value : Value) : Decoded CompilerOptions :=
  OptionFields.options <$> value.foldFields OptionFields.names OptionFields.step {}

/-- Reads compiler options. -/
def CompilerOptions.ofText (text : String) : Decoded CompilerOptions :=
  (Document.ofText text).decode decode

/-- The settings of this plugin. -/
structure PluginConfig where
  /-- Whether imports of barrels are redirected in what is emitted. -/
  transformImports : Bool := true
  deriving Repr, DecidableEq, Inhabited

namespace PluginConfig

/-- The name of the only setting. -/
def fieldName : String := "shouldTransformImports"

/-- Decodes one field. -/
def step (found : Option Bool) (key : String) (value : Value) : Decoded (Option Bool) := do
  if key = fieldName then Decoded.once found value.asBool
  else
    value.ignore
    return found

/-- The settings, given the only one if it was met. -/
def ofField (found : Option Bool) : PluginConfig :=
  ⟨found.getD true⟩

/-- Decodes the settings. -/
def decode (value : Value) : Decoded PluginConfig :=
  ofField <$> value.foldFields [fieldName] step none

/-- Reads the settings. -/
def ofText (text : String) : Decoded PluginConfig :=
  (Document.ofText text).decode decode

end PluginConfig

/-- The name that this plugin is configured under. -/
def pluginName : String := "virtual-barrel"

/-- Whether a text contains another. -/
def containsText (part : List Char) : List Char → Bool
  | [] => part.isEmpty
  | c :: rest => part.isPrefixOf (c :: rest) || containsText part rest

/-- An entry of the list of plugins. -/
structure PluginEntry where
  /-- The module of the plugin, under either of two keys. -/
  modules : List String
  config : PluginConfig

namespace PluginEntry

/-- Whether the entry configures this plugin. -/
def isThisPlugin (entry : PluginEntry) : Bool :=
  entry.modules.any fun module => containsText pluginName.toList module.toList

/-- The fields met so far. Settings are kept until the entry ends. -/
structure Fields where
  transform : Option (Option String) := none
  name : Option (Option String) := none
  settings : List (String × Value) := []

/-- Decodes one field, at a given depth of nesting. -/
def step (depth : Nat) (fields : Fields) (key : String) (value : Value) : Decoded Fields := do
  if key = "transform" then
    return { fields with transform := ← .once fields.transform value.asString? }
  else if key = "name" then
    return { fields with name := ← .once fields.name value.asString? }
  else
    value.buffer depth
    return { fields with settings := fields.settings ++ [(key, value)] }

/-- Decodes an entry at a given depth of nesting. -/
def decode (depth : Nat) (value : Value) : Decoded PluginEntry := do
  let fields ← value.foldEntries (step (depth + 1)) {}
  let setting ← fields.settings.foldlM
    (fun found (key, value) => PluginConfig.step found key value) none
  return ⟨(fields.transform.getD none).toList ++ (fields.name.getD none).toList,
    PluginConfig.ofField setting⟩

end PluginEntry

/-- The fields of the options block of a project file met so far. Options are kept until it ends, the
list of plugins is read at once. -/
structure OptionsBlock where
  plugins : Option (List PluginEntry) := none
  options : List (String × Value) := []

/-- Decodes one field of the options block. -/
def OptionsBlock.step (block : OptionsBlock) (key : String) (value : Value) :
    Decoded OptionsBlock := do
  if key = "plugins" then
    return { block with
      plugins := ← .once block.plugins (value.asList (PluginEntry.decode 4)) }
  else
    value.buffer 3
    return { block with options := block.options ++ [(key, value)] }

/-- Decodes the options block of a project file. -/
def OptionsBlock.decode (value : Value) : Decoded (CompilerOptions × List PluginEntry) := do
  let block ← value.foldEntries step {}
  let fields ← block.options.foldlM
    (fun fields (key, value) => OptionFields.step fields key value) {}
  return (fields.options, block.plugins.getD [])

/-- The fields of a project file met so far. -/
structure ProjectFields where
  compilerOptions : Option (CompilerOptions × List PluginEntry) := none
  patterns : Option (List String) := none

/-- Decodes one field of a project file. -/
def ProjectFields.step (fields : ProjectFields) (key : String) (value : Value) :
    Decoded ProjectFields := do
  if key = "compilerOptions" then
    return { fields with
      compilerOptions := ← .once fields.compilerOptions (OptionsBlock.decode value) }
  else if key = "include" then
    return { fields with patterns := ← .once fields.patterns (value.asList Value.asString) }
  else
    value.ignore
    return fields

/-- Whether a segment of a pattern stands for more than itself. -/
def isWildcard (segment : List Char) : Bool :=
  segment.contains '*' || segment.contains '?'

/-- Whether a segment of a pattern looks like the name of a file. -/
def looksLikeFile (segment : List Char) : Bool :=
  segment.contains '.' && segment ≠ ['.'] && segment ≠ ['.', '.']

/-- The folder that everything a pattern matches lies in: its segments up to the first wildcard, without
the last one of a pattern that names a file. -/
def patternFolder (pattern : String) : Path :=
  let segments := Text.pieces '/' pattern.toList
  let plain := segments.takeWhile fun segment => !isWildcard segment
  let namesFile := (plain.getLast?.map looksLikeFile).getD false
  let folders := if namesFile && plain.length = segments.length then plain.dropLast else plain
  folders.foldl (fun path segment => path.join ⟨String.ofList segment⟩) ⟨""⟩

/-- A project. -/
structure ProjectConfig where
  rootDir : Path
  options : CompilerOptions
  plugin : PluginConfig
  /-- The folders in which barrels may be synthesized. -/
  projectDirs : List Path
  deriving Repr, DecidableEq

namespace ProjectConfig

/-- The project that the fields of a file in a folder describe. Without patterns everything in the folder
belongs to it. -/
def ofFields (rootDir : Path) (fields : ProjectFields) : ProjectConfig :=
  let (options, plugins) := fields.compilerOptions.getD ({}, [])
  let patterns := fields.patterns.getD []
  { rootDir := rootDir
    options := options
    plugin := ((plugins.find? PluginEntry.isThisPlugin).map (·.config)).getD {}
    projectDirs :=
      if patterns.isEmpty then [rootDir]
      else patterns.map fun pattern => rootDir.join (patternFolder pattern) }

/-- Reads a project file that stands in a folder. -/
def ofText (rootDir : Path) (text : String) : Decoded ProjectConfig :=
  (Document.ofText text).decode fun value =>
    ofFields rootDir <$> value.foldFields ["compilerOptions", "include"] ProjectFields.step {}

end ProjectConfig

end BarrelSynthesis
