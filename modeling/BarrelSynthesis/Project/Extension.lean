/-
# File extensions

The extensions the compiler knows, which of them hold code, and the extension of the file that is
emitted for a source file. A name consists of more than its extension: `.ts` alone has none.
-/
import BarrelSynthesis.Path.Basic
import BarrelSynthesis.Project.CompilerOptions

namespace BarrelSynthesis.Extension

/-- Every known extension, the longer before its own endings, so that `.d.ts` is found before
`.ts`. -/
def known : List String :=
  [".d.mts", ".d.cts", ".d.ts", ".json", ".tsx", ".mts", ".cts", ".jsx", ".mjs", ".cjs", ".ts",
   ".js"]

/-- TypeScript extensions in the order a folder listing tries them. -/
def typeScript : List String :=
  [".ts", ".tsx", ".d.ts", ".cts", ".d.cts", ".mts", ".d.mts"]

/-- JavaScript extensions in the order a folder listing tries them. -/
def javaScript : List String :=
  [".js", ".jsx", ".cjs", ".mjs"]

/-- The extension of data files that may be imported. -/
def json : String := ".json"

/-- The stem of an aggregator file. -/
def barrelStem : String := "index"

/-- The name of the aggregator synthesized for a folder. -/
def barrelFileName : String := "index.ts"

/-- The extensions a folder listing is restricted to. -/
def supported (options : CompilerOptions) : List String :=
  typeScript ++ (if options.allowJs then javaScript else [])
    ++ (if options.resolveJsonModule then [json] else [])

/-- Whether an extension holds TypeScript. -/
def isTypeScript (extension : String) : Bool :=
  typeScript.contains extension

/-- Whether an extension holds code. Everything else is an external asset. -/
def isCode (extension : String) : Bool :=
  isTypeScript extension || javaScript.contains extension

/-- Whether a file name ends in an extension and has a stem before it. -/
def endsName (extension name : String) : Bool :=
  extension.toList.length < name.toList.length && extension.toList.isSuffixOf name.toList

/-- The known extension a path ends with. -/
def ofPath? (path : Path) : Option String :=
  path.fileName?.bind fun name => known.find? fun extension => endsName extension name

/-- The text without its last characters, as many as the extension has. -/
def strip (extension text : String) : String :=
  String.ofList (text.toList.take (text.toList.length - extension.toList.length))

/-- The file name without folder and without its known extension. -/
def stem (path : Path) : String :=
  let name := path.fileName?.getD ""
  match ofPath? path with
  | some extension => strip extension name
  | none => name

/-- Whether a path names the aggregator file of its folder. -/
def isBarrelFile (path : Path) : Bool :=
  ((ofPath? path).map isCode).getD false && stem path = barrelStem

/-- The extension of the emitted counterpart of a source file. -/
def output (extension : String) (options : CompilerOptions) : String :=
  if extension = json then json
  else if extension = ".mts" || extension = ".d.mts" || extension = ".mjs" then ".mjs"
  else if extension = ".cts" || extension = ".d.cts" || extension = ".cjs" then ".cjs"
  else if (extension = ".tsx" || extension = ".jsx") && options.jsx = .preserve then ".jsx"
  else ".js"

end BarrelSynthesis.Extension
