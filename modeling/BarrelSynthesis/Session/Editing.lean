/-
# Editing sessions

During an editing session the barrels are served through the host's file system and kept current as files
change. A question about a file may bring a barrel into being or drop one; what follows from that is
queued. An update of the project goes through all barrels and calculates those again whose folder
changed. The barrels themselves never show in references and renames.
-/
import BarrelSynthesis.Disk.Digest
import BarrelSynthesis.Imports.Resolution
import BarrelSynthesis.Session.Registry
import BarrelSynthesis.Session.TaskQueue

namespace BarrelSynthesis

/-- A stretch of a file. -/
structure DocumentSpan where
  fileName : Path
  start : Nat
  length : Nat
  deriving Repr, DecidableEq

/-- A symbol: where it is defined, and where it is referred to. -/
structure ReferencedSymbol where
  definition : DocumentSpan
  references : List DocumentSpan
  deriving Repr, DecidableEq

/-- The file a module name stands for. -/
structure ResolvedModule where
  fileName : Path
  isExternalLibraryImport : Bool
  deriving Repr, DecidableEq

/-- What a session asks its project. -/
structure Project where
  rootFileNames : List Path
  scriptFileNames : List Path
  options : CompilerOptions
  /-- The version the project tracks for a file. -/
  scriptVersion : Path → Option String
  /-- Whether the project knows a file. -/
  hasScriptInfo : Path → Bool
  /-- The project's own resolution of module names. It may leave names at the end out. -/
  resolveModuleNames : List String → Path → List (Option ResolvedModule)

/-- What a session asks the language service it wraps. -/
structure LanguageService where
  diagnostics : Path → List Diagnostic
  references : Path → Nat → Option (List ReferencedSymbol)
  renameLocations : Path → Nat → Option (List DocumentSpan)

/-- What a session tells its project to do. -/
inductive ProjectCall
  | updateGraph
  | removeFile (path : Path)
  | editContent (path : Path) (text : String)
  deriving Repr, DecidableEq

/-- The state of an editing session. -/
structure Session where
  registry : Registry
  tasks : TaskQueue
  /-- The folders of the project, normalized. -/
  projectDirs : List Path
  deriving Inhabited

namespace Session

/-- The session of a project. Every folder of its root files without an aggregator has a barrel. -/
def create (project : Project) (projectDirs : List Path) : Session :=
  { registry := .ofFolders (Folder.withoutIndex project.rootFileNames)
    tasks := .empty
    projectDirs := projectDirs.map Path.normalize }

/-- Whether a path lies in the project and not in its dependencies. -/
def isProjectPath (session : Session) (path : Path) : Bool :=
  !path.components.contains (.name "node_modules")
    && session.projectDirs.any fun folder => path.startsWith folder

/-- Whether a path is that of a virtual barrel. -/
def isVirtual (session : Session) (path : Path) : Bool :=
  session.registry.isVirtual path

/-- Registers a barrel; a new one will be calculated later. -/
def createBarrel (session : Session) (path : Path) : Session :=
  if session.isVirtual path then session
  else
    { session with
      registry := session.registry.register path
      tasks := session.tasks.schedule .updateGraph }

/-- Drops a barrel; the project will hear of it later. -/
def deleteBarrel (session : Session) (path : Path) : Session :=
  if session.isVirtual path then
    { session with
      registry := session.registry.erase path
      tasks := (session.tasks.schedule (.removeFile path.normalize)).schedule .updateGraph }
  else session

/-- Whether a path can hold a barrel: its folder exists and has no aggregator on disk. -/
def canHoldBarrel (host : FileSystem) (folder : Path) : Bool :=
  host.directoryExists folder && !Folder.hasAggregator host folder

/-- Answers whether a file exists. A file on disk drops the barrel in its place. A folder of the project
gets its barrel when it is asked for, or when its aggregator is. -/
def fileExists (host : FileSystem) (session : Session) (path : Path) : Bool × Session :=
  let candidate := (host.casedPath path).normalize
  if host.fileExists path then (true, session.deleteBarrel candidate)
  else if session.isVirtual candidate then (true, session)
  else if !session.isProjectPath candidate then (false, session)
  else if (Extension.ofPath? candidate).isNone && host.directoryExists candidate then
    if Folder.hasAggregator host candidate then (false, session)
    else (false, session.createBarrel (candidate.join ⟨Extension.barrelFileName⟩))
  else if candidate.fileName? = some Extension.barrelFileName
      && (candidate.parent?.map (canHoldBarrel host)).getD false then
    (true, session.createBarrel candidate)
  else (false, session)

/-- The text of a file: that on disk, or that of the barrel in its place. -/
def fileText (host : FileSystem) (session : Session) (path : Path) : Option String :=
  match host.fileText path with
  | some text => some text
  | none => session.registry.text? (host.casedPath path)

/-- The files a barrel is calculated from, with barrels served where nothing can be read. -/
def served (host : FileSystem) (session : Session) : FileSystem :=
  { host with fileText := session.fileText host }

/-- The version of a file, as the project or its text gives it. -/
def versionOf (host : FileSystem) (project : Project) (session : Session) (file : Path) : String :=
  Digest.fileVersion (session.served host) (project.scriptVersion file) file

/-- Brings one barrel up to date. It is dropped when the project does not know it any more or its folder
cannot hold it, and calculated again when the folder changed. -/
def updateBarrel (host : FileSystem) (project : Project) (session : Session) (barrel : Path) :
    Session × List ProjectCall :=
  if !project.hasScriptInfo barrel then
    ({ session with registry := session.registry.erase barrel }, [])
  else
    match barrel.parent? with
    | none => (session, [])
    | some folder =>
      if !canHoldBarrel host folder then
        ({ session with registry := session.registry.erase barrel }, [.removeFile barrel])
      else
        let served := session.served host
        let version := session.versionOf host project
        let files := Folder.files served project.options folder
        if (session.registry.staleness barrel files version).isStale then
          let calculation := Barrel.calculate served project.options folder
          ({ session with registry := session.registry.upsert barrel version calculation },
            [.editContent barrel calculation.barrel.text])
        else (session, [])

/-- Brings every barrel up to date, in ascending order of path. -/
def updateBarrels (host : FileSystem) (project : Project) (session : Session) :
    Session × List ProjectCall :=
  session.registry.paths.foldl
    (fun (session, calls) barrel =>
      let (session, more) := session.updateBarrel host project barrel
      (session, calls ++ more))
    (session, [])

/-- Has the project update itself, then brings every barrel up to date. -/
def updateGraph (host : FileSystem) (project : Project) (session : Session) :
    Session × List ProjectCall :=
  let (session, calls) := session.updateBarrels host project
  (session, .updateGraph :: calls)

/-- Does one task. -/
def runTask (host : FileSystem) (project : Project) (session : Session) :
    Task → Session × List ProjectCall
  | .removeFile path =>
    (session, if project.hasScriptInfo path then [.removeFile path] else [])
  | .updateGraph => session.updateGraph host project

/-- Does some tasks one after the other. -/
def doTasks (host : FileSystem) (project : Project) (session : Session) (tasks : List Task) :
    Session × List ProjectCall :=
  tasks.foldl
    (fun (session, calls) task =>
      let (session, more) := session.runTask host project task
      (session, calls ++ more))
    (session, [])

/-- Does the tasks that are pending now. Tasks queued meanwhile wait for the next time. -/
def runPendingTasks (host : FileSystem) (project : Project) (session : Session) :
    Session × List ProjectCall :=
  let (tasks, queue) := session.tasks.drain
  doTasks host project { session with tasks := queue } tasks

/-- Whether the barrel of a file's folder is virtual. -/
def feedsVirtualBarrel (session : Session) (file : Path) : Bool :=
  (file.parent?.map fun folder => session.isVirtual (Folder.barrelPath folder)).getD false

/-- The findings about a file, with the warnings about its exports when it feeds a virtual barrel. -/
def diagnostics (host : FileSystem) (service : LanguageService) (session : Session) (file : Path) :
    List Diagnostic :=
  let found := service.diagnostics file
  if session.feedsVirtualBarrel file then
    match session.fileText host file with
    | some source => found ++ ((ModuleExports.ofSource? file source).map (·.diagnostics)).getD []
    | none => found
  else found

/-- Adds a symbol behind those already listed, the last of them first. A symbol defined in a virtual
barrel is the export of the one before it, and its references are counted there. -/
def addSymbol (session : Session) (listed : List ReferencedSymbol) (symbol : ReferencedSymbol) :
    List ReferencedSymbol :=
  let references := symbol.references.filter fun reference => !session.isVirtual reference.fileName
  if session.isVirtual symbol.definition.fileName then
    match listed with
    | previous :: earlier =>
      { previous with references := previous.references ++ references } :: earlier
    | [] => []
  else ⟨symbol.definition, references⟩ :: listed

/-- Some symbols without anything that lies in a virtual barrel. -/
def withoutBarrels (session : Session) (symbols : List ReferencedSymbol) : List ReferencedSymbol :=
  (symbols.foldl session.addSymbol []).reverse

/-- The references to what stands at a place of a file. -/
def findReferences (service : LanguageService) (session : Session) (file : Path) (position : Nat) :
    List ReferencedSymbol :=
  session.withoutBarrels ((service.references file position).getD [])

/-- The places that renaming what stands at a place of a file changes. -/
def findRenameLocations (service : LanguageService) (session : Session) (file : Path)
    (position : Nat) : Option (List DocumentSpan) :=
  (service.renameLocations file position).map fun locations =>
    if session.feedsVirtualBarrel file then
      (session.findReferences service file position).flatMap (·.references)
    else locations

/-- The script files of the project and its virtual barrels, each once. -/
def scriptFileNames (project : Project) (session : Session) : List Path :=
  distinctPaths (project.scriptFileNames ++ session.registry.paths)

/-- Asks for files one after the other until one exists. -/
def firstExisting (host : FileSystem) (session : Session) : List Path → Option Path × Session
  | [] => (none, session)
  | path :: rest =>
    match session.fileExists host path with
    | (true, session) => (some path, session)
    | (false, session) => session.firstExisting host rest

/-- Resolves a module name, unless the project has resolved it. -/
def resolveName (host : FileSystem) (project : Project) (containingFile : Path) (session : Session)
    (name : String) (known : Option ResolvedModule) : Option ResolvedModule × Session :=
  match known with
  | some resolved => (some resolved, session)
  | none =>
    let (found, session) :=
      session.firstExisting host (Resolution.candidates project.options name containingFile)
    (found.map fun path => ⟨path, false⟩, session)

/-- Resolves module names one after the other. `known` are the answers of the project, in the same order
and possibly fewer. -/
def resolveNames (host : FileSystem) (project : Project) (containingFile : Path)
    (session : Session) : List String → List (Option ResolvedModule) →
    List (Option ResolvedModule) × Session
  | [], _ => ([], session)
  | name :: names, known =>
    let (first, session) :=
      session.resolveName host project containingFile name (known.head?.getD none)
    let (rest, session) := session.resolveNames host project containingFile names known.tail
    (first :: rest, session)

/-- Resolves the module names of a file: as the project does, and where it does not, among the files and
the barrels. -/
def resolveModuleNames (host : FileSystem) (project : Project) (session : Session)
    (names : List String) (containingFile : Path) : List (Option ResolvedModule) × Session :=
  session.resolveNames host project containingFile names
    (project.resolveModuleNames names containingFile)

end Session

end BarrelSynthesis
