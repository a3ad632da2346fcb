/-
# Compiler options

The compiler settings that change how a barrel is printed and how redirected imports are spelled, with
the spellings that a configuration file may use for them.
-/

namespace BarrelSynthesis

/-- The module format of the emitted code, from the oldest to the newest. -/
inductive ModuleKind
  | none
  | commonJS
  | amd
  | umd
  | system
  | es2015
  | es2020
  | es2022
  | esNext
  | node16
  | nodeNext
  | preserve
  deriving Repr, DecidableEq

/-- How module specifiers are resolved. -/
inductive ModuleResolution
  | classic
  | node10
  | node16
  | nodeNext
  | bundler
  deriving Repr, DecidableEq

/-- What becomes of JSX in emitted code. -/
inductive JsxEmit
  | none
  | preserve
  | react
  | reactNative
  | reactJsx
  | reactJsxDev
  deriving Repr, DecidableEq

/-- The options whose value is one of a list of words. -/
inductive WordOption
  | module
  | moduleResolution
  | jsx
  deriving Repr, DecidableEq

/-- The name of the option in a configuration file. -/
def WordOption.key : WordOption → String
  | module => "module"
  | moduleResolution => "moduleResolution"
  | jsx => "jsx"

/-- A value that none of the spellings of an option matches. -/
structure UnknownOption where
  option : WordOption
  value : String
  deriving Repr, DecidableEq

/-- The text reported for an unknown value. -/
def UnknownOption.message (failure : UnknownOption) : String :=
  "Unknown value '" ++ failure.value ++ "' for compiler option '" ++ failure.option.key ++ "'"

/-- The ASCII lower-case form; spellings in a configuration file are read without regard to case. -/
def asciiLower (text : String) : String :=
  String.ofList (text.toList.map Char.toLower)

/-- Looks a value up among the spellings of an option, without regard to ASCII case. -/
def WordOption.read {α : Type} (option : WordOption) (spellings : List (String × α))
    (value : String) : Except UnknownOption α :=
  match spellings.lookup (asciiLower value) with
  | some found => .ok found
  | Option.none => .error ⟨option, value⟩

namespace ModuleKind

/-- The place in the order of the formats. -/
def rank : ModuleKind → Nat
  | none => 0
  | commonJS => 1
  | amd => 2
  | umd => 3
  | system => 4
  | es2015 => 5
  | es2020 => 6
  | es2022 => 7
  | esNext => 8
  | node16 => 9
  | nodeNext => 10
  | preserve => 11

/-- The name the format is reported by. -/
def label : ModuleKind → String
  | none => "None"
  | commonJS => "CommonJS"
  | amd => "AMD"
  | umd => "UMD"
  | system => "System"
  | es2015 => "ES2015"
  | es2020 => "ES2020"
  | es2022 => "ES2022"
  | esNext => "ESNext"
  | node16 => "Node16"
  | nodeNext => "NodeNext"
  | preserve => "Preserve"

/-- Reads the spelling of a module format. -/
def read (value : String) : Except UnknownOption ModuleKind :=
  WordOption.module.read
    [("none", none), ("commonjs", commonJS), ("amd", amd), ("umd", umd), ("system", system),
     ("es6", es2015), ("es2015", es2015), ("es2020", es2020), ("es2022", es2022),
     ("esnext", esNext), ("node16", node16), ("nodenext", nodeNext), ("preserve", preserve)]
    value

end ModuleKind

namespace ModuleResolution

/-- The name the resolution is reported by. -/
def label : ModuleResolution → String
  | classic => "Classic"
  | node10 => "Node10"
  | node16 => "Node16"
  | nodeNext => "NodeNext"
  | bundler => "Bundler"

/-- Reads the spelling of a module resolution. -/
def read (value : String) : Except UnknownOption ModuleResolution :=
  WordOption.moduleResolution.read
    [("classic", classic), ("node", node10), ("node10", node10), ("node16", node16),
     ("nodenext", nodeNext), ("bundler", bundler)]
    value

end ModuleResolution

namespace JsxEmit

/-- The name the treatment of JSX is reported by. -/
def label : JsxEmit → String
  | none => "None"
  | preserve => "Preserve"
  | react => "React"
  | reactNative => "ReactNative"
  | reactJsx => "ReactJsx"
  | reactJsxDev => "ReactJsxDev"

/-- Reads the spelling of a treatment of JSX. -/
def read (value : String) : Except UnknownOption JsxEmit :=
  WordOption.jsx.read
    [("none", none), ("preserve", preserve), ("react", react), ("react-native", reactNative),
     ("react-jsx", reactJsx), ("react-jsxdev", reactJsxDev)]
    value

end JsxEmit

/-- The compiler options this library depends on. -/
structure CompilerOptions where
  module : ModuleKind := .commonJS
  moduleResolution : ModuleResolution := .node10
  resolveJsonModule : Bool := false
  allowJs : Bool := false
  jsx : JsxEmit := .none
  deriving Repr, DecidableEq, Inhabited

namespace CompilerOptions

/-- Whether emitted modules use `import` and `export`. -/
def isEsModule (options : CompilerOptions) : Bool :=
  ModuleKind.es2015.rank ≤ options.module.rank

/-- Whether specifiers must carry the extension of the emitted file. -/
def isNodeModernResolution (options : CompilerOptions) : Bool :=
  options.moduleResolution = .node16 || options.moduleResolution = .nodeNext

/-- Whether an import of an asset that is no code carries an assert clause. -/
def supportsImportAttributes (options : CompilerOptions) : Bool :=
  options.module = .esNext

/-- Whether the emitted code names its dependencies in a loader call, where imports cannot be
redirected. -/
def emitsLoaderDependencies (options : CompilerOptions) : Bool :=
  options.module = .amd || options.module = .umd || options.module = .system

end CompilerOptions

end BarrelSynthesis
