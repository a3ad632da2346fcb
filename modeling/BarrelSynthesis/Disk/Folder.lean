/-
# Folders and their barrels

Which files of a folder contribute to its barrel, which folders need one, and where it stands.
-/
import BarrelSynthesis.Disk.FileSystem
import BarrelSynthesis.Project.Extension

namespace BarrelSynthesis

/-- The paths of a list in ascending order. -/
def sortPaths (paths : List Path) : List Path :=
  paths.mergeSort fun a b => (Path.order a b).isLE

/-- The paths of a list without later spellings of earlier ones. -/
def distinctPaths (paths : List Path) : List Path :=
  paths.eraseDupsBy fun a b => Path.same a b

namespace Folder

/-- Whether a file contributes to the barrel of a folder: it stands immediately in the folder, has a
supported extension and is no aggregator itself. -/
def contributes (options : CompilerOptions) (folder path : Path) : Bool :=
  (path.parent?.map (·.same folder)).getD false
    && ((Extension.ofPath? path).map (Extension.supported options).contains).getD false
    && !Extension.isBarrelFile path

/-- The files that contribute to the barrel of a folder, in ascending order. -/
def files (host : FileSystem) (options : CompilerOptions) (folder : Path) : List Path :=
  let folder := folder.normalize
  sortPaths <| ((host.readDirectory folder).map Path.normalize).filter (contributes options folder)

/-- The folder of a file, normalized. -/
def folderOf? (file : Path) : Option Path :=
  file.parent?.map Path.normalize

/-- The folders of some root files that have no aggregator among them, in order of first appearance. -/
def withoutIndex (roots : List Path) : List Path :=
  let aggregated := (roots.filter Extension.isBarrelFile).filterMap folderOf?
  distinctPaths <| (roots.filterMap folderOf?).filter fun folder => !aggregated.any (·.same folder)

/-- Whether a folder holds an aggregator on disk, which a synthesized one would hide. -/
def hasAggregator (host : FileSystem) (folder : Path) : Bool :=
  (host.readDirectory folder).any Extension.isBarrelFile

/-- Where the barrel of a folder stands. -/
def barrelPath (folder : Path) : Path :=
  (folder.join ⟨Extension.barrelFileName⟩).normalize

end Folder

end BarrelSynthesis
