/-
# Builds

During a build, every folder of the program without an aggregator gets a barrel that exists in memory
only. The host serves the barrels as if they were on disk and redirects imports of them in every file
that is written; the program reports the warnings found on the way.
-/
import BarrelSynthesis.Barrel.Calculation
import BarrelSynthesis.Imports.Redirection
import BarrelSynthesis.Imports.Resolution

namespace BarrelSynthesis

/-- The barrels of a build by their normalized paths. -/
structure BarrelStore where
  barrels : PathMap Barrel
  deriving Inhabited

namespace BarrelStore

/-- The store without barrels. -/
def empty : BarrelStore := ⟨.empty⟩

/-- Keeps a barrel under its path. -/
def insert (store : BarrelStore) (path : Path) (barrel : Barrel) : BarrelStore :=
  ⟨store.barrels.insert path.normalize barrel⟩

/-- The barrel at a path. -/
def get? (store : BarrelStore) (path : Path) : Option Barrel :=
  store.barrels.get? path.normalize

/-- Whether a barrel stands at a path. -/
def contains (store : BarrelStore) (path : Path) : Bool :=
  store.barrels.contains path.normalize

/-- What the barrel at a path exports. -/
def manifest? (store : BarrelStore) (path : Path) : Option Manifest :=
  (store.get? path).map (·.manifest)

/-- The paths of the barrels in ascending order. -/
def paths (store : BarrelStore) : List Path :=
  store.barrels.keys

end BarrelStore

/-- The program that is built. -/
structure Program where
  rootFileNames : List Path
  options : CompilerOptions
  /-- The program's own findings about a file, or about all files. -/
  diagnostics : Option Path → List Diagnostic

/-- A program with barrels. -/
structure BarrelProgram where
  inner : Program
  barrelFiles : List Path
  warnings : DiagnosticCache

/-- A host that serves barrels beside the files of another host. -/
structure BuildHost where
  inner : FileSystem
  store : BarrelStore
  options : CompilerOptions
  /-- Whether imports of barrels are redirected in what is written. -/
  transformImports : Bool

/-- Calculates the barrels of some folders and collects the warnings about their files. -/
def generateBarrels (host : FileSystem) (options : CompilerOptions) (folders : List Path) :
    BarrelStore × DiagnosticCache :=
  folders.foldl
    (fun (store, cache) folder =>
      let calculation := Barrel.calculate host options folder
      (store.insert (Folder.barrelPath folder) calculation.barrel,
        cache.extend calculation.diagnostics))
    (.empty, .empty)

/-- Gives a program and its host their barrels. -/
def Program.transform (program : Program) (host : FileSystem) (transformImports : Bool) :
    BarrelProgram × BuildHost :=
  let folders := Folder.withoutIndex program.rootFileNames
  let (store, warnings) := generateBarrels host program.options folders
  (⟨program, store.paths, warnings⟩, ⟨host, store, program.options, transformImports⟩)

namespace BarrelProgram

/-- The root files of the program and every barrel that is not one of them. -/
def rootFileNames (program : BarrelProgram) : List Path :=
  program.barrelFiles.foldl
    (fun names barrel => if names.any (·.same barrel) then names else names ++ [barrel])
    program.inner.rootFileNames

/-- The program's own findings, and the warnings behind them. -/
def diagnostics (program : BarrelProgram) (file : Option Path) : List Diagnostic :=
  program.warnings.merge (program.inner.diagnostics file) file

end BarrelProgram

namespace BuildHost

/-- The files of the host, barrels included. -/
def fileSystem (host : BuildHost) : FileSystem :=
  { host.inner with
    fileExists := fun path => host.store.contains path || host.inner.fileExists path
    fileText := fun path =>
      match host.store.get? path with
      | some barrel => some barrel.text
      | none => host.inner.fileText path }

/-- The file a specifier names, seen from a source file. -/
def resolve (host : BuildHost) (specifier : String) (source : Path) : Option Path :=
  Resolution.resolve host.fileSystem host.options specifier source

/-- The manifest of the barrel that a specifier names, seen from a source file. -/
def barrelOf (host : BuildHost) (source : Path) (specifier : String) : Option Manifest :=
  (host.resolve specifier source).bind host.store.manifest?

/-- The text of an emitted file with imports of barrels redirected. A file that cannot be parsed stays as
it is. -/
def redirectOutput (host : BuildHost) (file : Path) (text : String) (source : Path) : String :=
  match redirectImports file text host.options (host.barrelOf source) with
  | .ok redirected => redirected.code
  | .error _ => text

/-- What is written for an emitted file; `sources` are the files it was emitted from, the first being
its own source. Barrels are not written, except where loaders name their folders. -/
def writtenText? (host : BuildHost) (file : Path) (text : String) (sources : List Path) :
    Option String :=
  match host.transformImports, sources with
  | true, source :: _ =>
    if host.store.contains source then
      if host.options.emitsLoaderDependencies then some text else none
    else some (host.redirectOutput file text source)
  | _, _ => some text

end BuildHost

end BarrelSynthesis
