/-
# The registry of virtual barrels

The barrels of an editing session by their normalized paths. A barrel is registered before it is
calculated; once it is calculated its entry remembers the version of every file it was made from, so that
only barrels whose folder changed are made again.
-/
import BarrelSynthesis.Barrel.Calculation

namespace BarrelSynthesis

/-- What is known of a virtual barrel. -/
inductive BarrelEntry
  /-- Known to be virtual, but not calculated yet. -/
  | registered
  /-- Calculated, from files of certain versions. -/
  | hydrated (files : PathMap String) (manifest : Manifest) (text : String)

namespace BarrelEntry

/-- Whether the barrel has been calculated. -/
def isHydrated : BarrelEntry → Bool
  | registered => false
  | hydrated _ _ _ => true

/-- The text that is served: an empty module until the barrel is calculated. -/
def text : BarrelEntry → String
  | registered => Synthesis.emptyModule
  | hydrated _ _ text => text

/-- What the barrel exports. -/
def manifest : BarrelEntry → Manifest
  | registered => .empty
  | hydrated _ manifest _ => manifest

/-- The versions of the files the barrel was calculated from. -/
def files : BarrelEntry → PathMap String
  | registered => .empty
  | hydrated files _ _ => files

/-- The entry of a calculated barrel. -/
def ofCalculation (version : Path → String) (calculation : BarrelCalculation) : BarrelEntry :=
  .hydrated (.ofList (calculation.includedFiles.map fun file => (file, version file)))
    calculation.barrel.manifest calculation.barrel.text

end BarrelEntry

/-- Whether a barrel has to be calculated again, and why. -/
inductive Staleness
  | fresh
  | notHydrated
  | fileListChanged
  | versionChanged (file : Path)
  deriving Repr, DecidableEq

/-- Whether the barrel has to be calculated again. -/
def Staleness.isStale : Staleness → Bool
  | fresh => false
  | _ => true

/-- The virtual barrels of a session. -/
structure Registry where
  barrels : PathMap BarrelEntry
  deriving Inhabited

namespace Registry

/-- The registry without barrels. -/
def empty : Registry := ⟨.empty⟩

/-- Whether a path is that of a virtual barrel. -/
def isVirtual (registry : Registry) (path : Path) : Bool :=
  registry.barrels.contains path.normalize

/-- What is known of the barrel at a path. -/
def get? (registry : Registry) (path : Path) : Option BarrelEntry :=
  registry.barrels.get? path.normalize

/-- Registers a barrel, unless it is there already. -/
def register (registry : Registry) (path : Path) : Registry :=
  if registry.isVirtual path then registry
  else ⟨registry.barrels.insert path.normalize .registered⟩

/-- The registry with a barrel for every one of some folders. -/
def ofFolders (folders : List Path) : Registry :=
  folders.foldl (fun registry folder => registry.register (Folder.barrelPath folder)) empty

/-- Replaces what is known of a barrel by a new calculation. -/
def upsert (registry : Registry) (path : Path) (version : Path → String)
    (calculation : BarrelCalculation) : Registry :=
  ⟨registry.barrels.insert path.normalize (.ofCalculation version calculation)⟩

/-- Removes a barrel. -/
def erase (registry : Registry) (path : Path) : Registry :=
  ⟨registry.barrels.erase path.normalize⟩

/-- The text served for a barrel. -/
def text? (registry : Registry) (path : Path) : Option String :=
  (registry.get? path).map (·.text)

/-- What a barrel exports. -/
def manifest? (registry : Registry) (path : Path) : Option Manifest :=
  (registry.get? path).map (·.manifest)

/-- The paths of the barrels in ascending order. -/
def paths (registry : Registry) : List Path :=
  registry.barrels.keys

/-- The distinct paths of a list in ascending order. -/
def listingOf (files : List Path) : List Path :=
  distinctPaths (sortPaths files)

/-- Compares what is known of a barrel with the present files of its folder and their versions. -/
def staleness (registry : Registry) (path : Path) (files : List Path) (version : Path → String) :
    Staleness :=
  match registry.get? path with
  | some (.hydrated recorded _ _) =>
    if (listingOf files).map Path.components = recorded.keys.map Path.components then
      match recorded.entries.find? fun entry => version entry.1 ≠ entry.2 with
      | some (file, _) => .versionChanged file
      | none => .fresh
    else .fileListChanged
  | _ => .notHydrated

end Registry

end BarrelSynthesis
