/-
# Module resolution

Which file a relative specifier names: the first of a list of candidates that exists. A specifier with the
extension of an emitted file names the source it was emitted from before the file itself, and a folder
stands for its aggregator. Specifiers of packages name no barrel and are not resolved.
-/
import BarrelSynthesis.Disk.Folder
import BarrelSynthesis.Imports.Specifier

namespace BarrelSynthesis.Resolution

/-- The extensions tried behind a specifier without one. -/
def triedExtensions (options : CompilerOptions) : List String :=
  [".ts", ".tsx", ".d.ts"] ++ (if options.allowJs then [".js", ".jsx"] else [])

/-- The extensions of the sources that a file with a given extension may be emitted from. -/
def sourceExtensions (extension : String) : List String :=
  if extension = ".js" then [".ts", ".tsx", ".d.ts"]
  else if extension = ".jsx" then [".tsx"]
  else if extension = ".mjs" then [".mts", ".d.mts"]
  else if extension = ".cjs" then [".cts", ".d.cts"]
  else []

/-- The files a path may stand for, in the order in which they are tried. -/
def fileCandidates (options : CompilerOptions) (base : Path) : List Path :=
  let named :=
    match Extension.ofPath? base with
    | some extension =>
      ((sourceExtensions extension).map fun source =>
        Path.mk (Extension.strip extension base.text ++ source)) ++ [base]
    | none => []
  named ++ (triedExtensions options).map fun extension => ⟨base.text ++ extension⟩

/-- The path a relative specifier denotes from a file. -/
def base (specifier : String) (containingFile : Path) : Path :=
  ((containingFile.parent?.getD ⟨""⟩).join ⟨specifier⟩).normalize

/-- The files a specifier may name: first as a file, then as a folder with an aggregator. -/
def candidates (options : CompilerOptions) (specifier : String) (containingFile : Path) :
    List Path :=
  if Specifier.isRelative specifier then
    let base := base specifier containingFile
    fileCandidates options base ++ fileCandidates options (base.join ⟨Extension.barrelStem⟩)
  else []

/-- The file a specifier names. -/
def resolve (host : FileSystem) (options : CompilerOptions) (specifier : String)
    (containingFile : Path) : Option Path :=
  (candidates options specifier containingFile).find? host.fileExists

end BarrelSynthesis.Resolution
