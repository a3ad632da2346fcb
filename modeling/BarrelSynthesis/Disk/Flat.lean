/-
# Disks in memory

A disk that holds texts by normalized path. Folders exist as far as files stand below them, or because
they were created.
-/
import BarrelSynthesis.Disk.FileSystem
import BarrelSynthesis.Path.Map

namespace BarrelSynthesis

/-- A disk held in memory. -/
structure Disk where
  files : PathMap String
  /-- The folders that were created, the last first. -/
  folders : List Path
  deriving Inhabited

namespace Disk

/-- The disk without files and folders. -/
def empty : Disk := ⟨.empty, []⟩

/-- Writes a file. -/
def insert (disk : Disk) (path : Path) (text : String) : Disk :=
  { disk with files := disk.files.insert path.normalize text }

/-- Removes a file. -/
def erase (disk : Disk) (path : Path) : Disk :=
  { disk with files := disk.files.erase path.normalize }

/-- Removes a folder and everything below it. -/
def eraseFolder (disk : Disk) (folder : Path) : Disk :=
  let folder := folder.normalize
  { files := disk.files.filter fun path _ => !path.startsWith folder
    folders := disk.folders.filter fun path => !path.startsWith folder }

/-- Creates a folder. -/
def createFolder (disk : Disk) (folder : Path) : Disk :=
  { disk with folders := folder.normalize :: disk.folders }

/-- The disk with some files and created folders. -/
def ofList (files : List (Path × String)) (folders : List Path) : Disk :=
  folders.foldl createFolder (files.foldl (fun disk entry => disk.insert entry.1 entry.2) empty)

/-- The paths of all files in ascending order. -/
def paths (disk : Disk) : List Path :=
  disk.files.keys

/-- Whether a file stands at a path. -/
def fileExists (disk : Disk) (path : Path) : Bool :=
  disk.files.contains path.normalize

/-- The text of a file. -/
def fileText (disk : Disk) (path : Path) : Option String :=
  disk.files.get? path.normalize

/-- Whether a folder was created at or below a path, or a file stands below it. -/
def folderExists (disk : Disk) (path : Path) : Bool :=
  let path := path.normalize
  disk.folders.any (·.startsWith path)
    || disk.files.keys.any fun file => file.startsWith path && !file.same path

/-- Whether a path stands immediately in a folder. -/
def isChildOf (folder path : Path) : Bool :=
  (path.parent?.map (·.same folder)).getD false

/-- The files immediately in a folder, in ascending order. -/
def readFolder (disk : Disk) (folder : Path) : List Path :=
  disk.files.keys.filter (isChildOf folder.normalize)

/-- The answers of a host that has this disk. -/
def fileSystem (disk : Disk) : FileSystem :=
  { fileExists := disk.fileExists
    fileText := disk.fileText
    directoryExists := disk.folderExists
    readDirectory := disk.readFolder
    casedPath := id }

end Disk

end BarrelSynthesis
