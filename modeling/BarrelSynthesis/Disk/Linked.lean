/-
# Disks with links

A tree of folders, files and symbolic links, as an operating system keeps it. Paths are followed step by
step from a working folder: a link leads where it points, `..` to the folder that really holds the present
one, and what stands before a separator has to be a folder.
-/
import BarrelSynthesis.Disk.FileSystem
import BarrelSynthesis.Text.Pieces

namespace BarrelSynthesis

/-- What an operation on a disk may fail of. -/
inductive DiskError
  | notFound
  | notADirectory
  | isADirectory
  | alreadyExists
  | invalidData
  | filesystemLoop
  deriving Repr, DecidableEq

/-- The name a failure is reported by. -/
def DiskError.label : DiskError → String
  | notFound => "NotFound"
  | notADirectory => "NotADirectory"
  | isADirectory => "IsADirectory"
  | alreadyExists => "AlreadyExists"
  | invalidData => "InvalidData"
  | filesystemLoop => "FilesystemLoop"

/-- What stands at a location of a disk. -/
inductive DiskNode
  | folder
  /-- A file, with its text if its bytes are one. -/
  | file (text : Option String)
  | link (target : Path)
  deriving Repr, DecidableEq

/-- A place in the tree: the names that lead to it from the top. -/
abbrev Location := List String

/-- One step of a path. -/
inductive DiskStep
  | up
  | name (name : String)
  deriving Repr, DecidableEq

/-- Where a path leads. -/
inductive DiskPlace
  | existing (location : Location)
  /-- Nothing stands there, but the folder that could hold it exists. -/
  | vacant (location : Location)
  deriving Repr, DecidableEq

/-- A disk with folders, files and links. -/
structure LinkedDisk where
  nodes : List (Location × DiskNode)
  deriving Repr, Inhabited

namespace LinkedDisk

/-- The location of the working folder. No path can spell its name. -/
def workingFolder : Location := ["."]

/-- The disk with nothing in its working folder. -/
def empty : LinkedDisk := ⟨[(workingFolder, .folder)]⟩

/-- What stands at a location. The top is a folder. -/
def node? (disk : LinkedDisk) (location : Location) : Option DiskNode :=
  if location.isEmpty then some .folder else disk.nodes.lookup location

/-- Puts something at a location, in the place of what stands there. -/
def put (disk : LinkedDisk) (location : Location) (node : DiskNode) : LinkedDisk :=
  ⟨(location, node) :: disk.nodes.filter fun entry => entry.1 ≠ location⟩

/-- The segments of a path that are steps. -/
def stepsOf (path : Path) : List DiskStep :=
  (Text.pieces '/' path.text.toList).filterMap fun segment =>
    if segment = [] ∨ segment = ['.'] then none
    else if segment = ['.', '.'] then some .up
    else some (.name (String.ofList segment))

/-- Whether a separator stands at the end of a path. -/
def endsInSeparator (path : Path) : Bool :=
  path.text.toList.getLast? = some '/'

/-- Whether the last segment of a path is `.`, which can only be found in a folder that exists. -/
def endsInDot (path : Path) : Bool :=
  (Text.pieces '/' path.text.toList).getLast? = some ['.']

/-- The location at which following a path begins. -/
def origin (path : Path) (location : Location) : Location :=
  if path.isAbsolute then [] else location

/-- Follows steps from a location, through at most a number of links. A link at the very end is followed
only where that is asked for. -/
def follow (disk : LinkedDisk) (followLast : Bool) :
    Nat → Location → List DiskStep → Except DiskError DiskPlace
  | _, location, [] => .ok (.existing location)
  | links, location, .up :: rest =>
    match disk.node? location with
    | some .folder => disk.follow followLast links location.dropLast rest
    | _ => .error .notADirectory
  | links, location, .name name :: rest =>
    match disk.node? location with
    | some .folder =>
      let next := location ++ [name]
      match disk.node? next with
      | none => if rest.isEmpty then .ok (.vacant next) else .error .notFound
      | some (.link target) =>
        if rest.isEmpty && !followLast then .ok (.existing next)
        else
          match links with
          | 0 => .error .filesystemLoop
          | links + 1 =>
            if target.text.isEmpty then .error .notFound
            else disk.follow followLast links (origin target location) (stepsOf target ++ rest)
      | some _ => disk.follow followLast links next rest
    | _ => .error .notADirectory
termination_by links _ steps => (links, steps.length)

/-- The number of links that following one path may go through. -/
def linkLimit : Nat := 40

/-- Where a path leads. The empty path leads nowhere. -/
def locate (disk : LinkedDisk) (followLast : Bool) (path : Path) : Except DiskError DiskPlace := do
  if path.text.isEmpty then throw .notFound
  let place ← disk.follow followLast linkLimit (origin path workingFolder) (stepsOf path)
  match place with
  | .existing location =>
    if (endsInSeparator path || endsInDot path) && disk.node? location ≠ some .folder then
      throw .notADirectory
    return place
  | .vacant _ =>
    if endsInDot path then throw .notFound
    return place

/-- What a path leads to. -/
def find? (disk : LinkedDisk) (path : Path) : Except DiskError DiskNode := do
  match ← disk.locate true path with
  | .existing location =>
    match disk.node? location with
    | some node => return node
    | none => throw .notFound
  | .vacant _ => throw .notFound

/-- Whether a path leads to a file. -/
def isFile (disk : LinkedDisk) (path : Path) : Bool :=
  match disk.find? path with
  | .ok (.file _) => true
  | _ => false

/-- Whether a path leads to a folder. -/
def isFolder (disk : LinkedDisk) (path : Path) : Bool :=
  match disk.find? path with
  | .ok .folder => true
  | _ => false

/-- Reads the text of a file. -/
def read (disk : LinkedDisk) (path : Path) : Except DiskError String := do
  match ← disk.find? path with
  | .file (some text) => return text
  | .file none => throw .invalidData
  | .folder => throw .isADirectory
  | .link _ => throw .filesystemLoop

/-- The names of what stands immediately at a location. -/
def namesAt (disk : LinkedDisk) (location : Location) : List String :=
  disk.nodes.filterMap fun (other, _) =>
    match other.getLast? with
    | some name => if other.dropLast = location then some name else none
    | none => none

/-- The files immediately in a folder, links to files included, in ascending order. -/
def readFolder (disk : LinkedDisk) (folder : Path) : List Path :=
  match disk.locate true folder with
  | .ok (.existing location) =>
    let files := ((disk.namesAt location).map fun name => folder.join ⟨name⟩).filter disk.isFile
    files.mergeSort fun a b => (Path.order a b).isLE
  | _ => []

/-- Creates one folder. -/
def createFolder (disk : LinkedDisk) (path : Path) : Except DiskError LinkedDisk := do
  match ← disk.locate false path with
  | .existing _ => throw .alreadyExists
  | .vacant location => return disk.put location .folder

/-- Creates one folder, or finds it there. -/
def ensureFolder (disk : LinkedDisk) (path : Path) : Except DiskError LinkedDisk :=
  match disk.createFolder path with
  | .ok disk => .ok disk
  | .error failure => if disk.isFolder path then .ok disk else .error failure

/-- Creates a folder and, where they are missing, a number of the folders above it. -/
def ensureFolders : Nat → LinkedDisk → Path → Except DiskError LinkedDisk
  | 0, disk, path => disk.ensureFolder path
  | above + 1, disk, path =>
    if path.text.isEmpty then .ok disk
    else
      match disk.ensureFolder path with
      | .error .notFound =>
        match path.parent? with
        | some parent => (ensureFolders above disk parent).bind fun disk => disk.ensureFolder path
        | none => .error .notFound
      | result => result

/-- Writes a file, and creates the folders above it. What ends in a separator is taken for a folder. -/
def write (disk : LinkedDisk) (path : Path) (text : String) : Except DiskError LinkedDisk := do
  let disk ←
    match path.parent? with
    | some parent => ensureFolders (parent.components.length + 1) disk parent
    | none => pure disk
  if endsInSeparator path then throw .isADirectory
  match ← disk.locate true path with
  | .existing location =>
    match disk.node? location with
    | some (.file _) => return disk.put location (.file (some text))
    | _ => throw .isADirectory
  | .vacant location => return disk.put location (.file (some text))

/-- Puts something at the location that a path spells, with folders above it. -/
def place (disk : LinkedDisk) (path : Path) (node : DiskNode) : LinkedDisk :=
  let names := path.normalize.components.filterMap fun
    | .name name => some name
    | _ => none
  let above := (List.range names.length).map fun n => workingFolder ++ names.take n
  let disk := above.foldl
    (fun disk location => if (disk.node? location).isSome then disk else disk.put location .folder)
    disk
  disk.put (workingFolder ++ names) node

/-- The answers of a host that has this disk. -/
def fileSystem (disk : LinkedDisk) : FileSystem :=
  { fileExists := disk.isFile
    fileText := fun path => (disk.read path).toOption
    directoryExists := disk.isFolder
    readDirectory := disk.readFolder
    casedPath := id }

end LinkedDisk

end BarrelSynthesis
