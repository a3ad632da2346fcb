/-
# Barrels

The barrel of a folder exports everything its files export. Of a name that several files export, the last
file's is kept, and the earlier one is reported. Calculating a barrel depends only on the contents of the
folder, so doing it twice gives the same text and the same manifest.
-/
import BarrelSynthesis.Barrel.Asset
import BarrelSynthesis.Disk.Folder
import BarrelSynthesis.Imports.Specifier
import BarrelSynthesis.Source.Exports
import BarrelSynthesis.Synthesis.Coalesce
import BarrelSynthesis.Synthesis.Printer

namespace BarrelSynthesis

/-- A synthesized aggregator. -/
structure Barrel where
  statements : List Synthesis.Statement
  text : String
  manifest : Manifest
  deriving Inhabited

/-- What calculating the barrel of a folder finds. -/
structure BarrelCalculation where
  barrel : Barrel
  /-- Every file that was listed for the folder. -/
  includedFiles : List Path
  diagnostics : PathMap (List Diagnostic)
  deriving Inhabited

/-- What one readable file contributes to a barrel. -/
structure Contribution where
  file : Path
  source : String
  exports : ModuleExports
  deriving Inhabited

namespace Contribution

/-- What a file with a given text contributes: its exports, or itself when it holds no code. -/
def ofSource (file : Path) (source : String) : Contribution :=
  { file := file
    source := source
    exports := (ModuleExports.ofSource? file source).getD ⟨[Asset.entity file], []⟩ }

/-- What the readable ones of some files contribute. -/
def ofFiles (host : FileSystem) (files : List Path) : List Contribution :=
  files.filterMap fun file => (host.fileText file).map (ofSource file)

end Contribution

/-- What has been gathered from the files so far. -/
structure BarrelTally where
  manifest : Manifest
  /-- The file that last exported each name, the latest first. -/
  origins : List (String × Path)
  diagnostics : PathMap (List Diagnostic)

namespace BarrelTally

/-- Nothing gathered. -/
def empty : BarrelTally := ⟨.empty, [], .empty⟩

/-- Adds warnings about a file behind those it already has. -/
def warn (tally : BarrelTally) (file : Path) (diagnostics : List Diagnostic) : BarrelTally :=
  if diagnostics.isEmpty then tally
  else
    { tally with
      diagnostics := tally.diagnostics.insert file
        ((tally.diagnostics.get? file).getD [] ++ diagnostics) }

/-- Gathers one entity of a file. -/
def addEntity (contribution : Contribution) (tally : BarrelTally) (entity : Entity) : BarrelTally :=
  let warned :=
    match tally.origins.lookup entity.identifier with
    | some shadowed =>
      tally.warn contribution.file
        [.duplicateIdentifier contribution.file contribution.source (entity.span.getD ⟨0, 0⟩)
          entity.identifier shadowed]
    | none => tally
  { warned with
    manifest := warned.manifest.insert entity.identifier entity
    origins := (entity.identifier, contribution.file) :: warned.origins }

/-- Gathers what a file contributes: its own warnings first. -/
def add (tally : BarrelTally) (contribution : Contribution) : BarrelTally :=
  contribution.exports.entities.foldl (addEntity contribution)
    (tally.warn contribution.file contribution.exports.diagnostics)

/-- Gathers what several files contribute. -/
def ofContributions (contributions : List Contribution) : BarrelTally :=
  contributions.foldl add empty

end BarrelTally

namespace Barrel

/-- The statement by which a barrel exports an entity. -/
def exportOf (options : CompilerOptions) (entity : Entity) : Synthesis.Export :=
  { entries := [⟨if entity.isDefaultExport then some "default" else none, entity.identifier⟩]
    module := Specifier.origin "." entity options
    assertion := Specifier.assertionOf entity options }

/-- The barrel that exports a manifest. -/
def ofManifest (options : CompilerOptions) (manifest : Manifest) : Barrel :=
  let statements :=
    (Synthesis.coalesceExports (manifest.entities.map (exportOf options))).map .exportFrom
  ⟨statements, Synthesis.printModule statements, manifest⟩

/-- Calculates the barrel of a folder. -/
def calculate (host : FileSystem) (options : CompilerOptions) (folder : Path) : BarrelCalculation :=
  let files := Folder.files host options folder
  let tally := BarrelTally.ofContributions (Contribution.ofFiles host files)
  { barrel := ofManifest options tally.manifest
    includedFiles := files
    diagnostics := tally.diagnostics }

end Barrel

end BarrelSynthesis
