/-
# What a hydrated barrel remembers

A session is asked at moments, each with the files and the project as they are then. Calculating a barrel
at a moment leaves an entry with the listing of the folder and the version of every listed file. When the
listing has the same paths at another moment, and every version is the same, the barrel has the same
statements, text and manifest there, provided that equal versions mean equal contents.
-/
import BarrelSynthesis.Proofs.Barrel.Listing
import BarrelSynthesis.Proofs.Path.Joining
import BarrelSynthesis.Proofs.Synthesis.Ordering
import BarrelSynthesis.Session.Editing

namespace BarrelSynthesis

/-! ## Listings and records -/

namespace Registry

/-- A listing ascends strictly. -/
theorem pairwise_listingOf (files : List Path) :
    (listingOf files).Pairwise fun a b => Path.order a b = .lt := by
  have ascends := (Folder.pairwise_sortPaths files).sublist (distinctPaths_sublist _)
  refine ascends.imp₂ (fun a b below differs => ?_) (pairwise_distinctPaths _)
  cases compared : Path.order a b with
  | lt => rfl
  | eq => exact absurd (Path.order_eq_iff.mp compared) differs
  | gt => rw [compared] at below; cases below

/-- A listing holds every file, in one of its spellings. -/
theorem mem_map_components_listingOf {files : List Path} {components : List Component} :
    components ∈ (listingOf files).map Path.components ↔ components ∈ files.map Path.components := by
  simp only [List.mem_map, listingOf]
  constructor
  · rintro ⟨file, listed, spelled⟩
    exact ⟨file, Folder.mem_sortPaths.mp (mem_of_mem_distinctPaths listed), spelled⟩
  · rintro ⟨file, member, spelled⟩
    obtain ⟨other, listed, same⟩ := exists_mem_distinctPaths (Folder.mem_sortPaths.mpr member)
    exact ⟨other, listed, same.trans spelled⟩

/-- A listing agrees with some ascending paths exactly when it has the same files. -/
theorem map_components_listingOf_eq_iff {files keys : List Path}
    (ascending : keys.Pairwise fun a b => Path.order a b = .lt) :
    (listingOf files).map Path.components = keys.map Path.components ↔
      ∀ components, components ∈ keys.map Path.components ↔ components ∈ files.map Path.components := by
  constructor
  · intro same components
    rw [← same, mem_map_components_listingOf]
  · intro members
    apply @Synthesis.eq_of_strictly_ascending _ (List.compareLex Component.order) _
    · exact List.pairwise_map.mpr (pairwise_listingOf files)
    · exact List.pairwise_map.mpr ascending
    · exact fun components => mem_map_components_listingOf.trans (members components).symm

/-- A listing of normalized files agrees with some normalized paths exactly when it has the same files. -/
theorem listingOf_eq_iff {files keys : List Path}
    (ascending : keys.Pairwise fun a b => Path.order a b = .lt)
    (filesNormal : ∀ file ∈ files, file.normalize = file)
    (keysNormal : ∀ key ∈ keys, key.normalize = key) :
    (listingOf files).map Path.components = keys.map Path.components ↔
      ∀ file, file ∈ keys ↔ file ∈ files := by
  have across {first second : List Path} (firstNormal : ∀ file ∈ first, file.normalize = file)
      (secondNormal : ∀ file ∈ second, file.normalize = file)
      (spelled : ∀ components ∈ first.map Path.components, components ∈ second.map Path.components)
      (file : Path) (listed : file ∈ first) : file ∈ second := by
    obtain ⟨other, member, same⟩ := List.mem_map.mp (spelled _ (List.mem_map_of_mem listed))
    have one := Path.eq_of_components_eq (secondNormal other member) (firstNormal file listed) same
    exact one ▸ member
  rw [map_components_listingOf_eq_iff ascending]
  constructor
  · intro members file
    exact ⟨across keysNormal filesNormal (fun components => (members components).mp) file,
      across filesNormal keysNormal (fun components => (members components).mpr) file⟩
  · intro members components
    simp only [List.mem_map, members]

end Registry

/-! ## Moments -/

/-- The files and the project of a session at one moment. -/
structure Moment where
  host : FileSystem
  project : Project

namespace Moment

/-- The version of a file at a moment. -/
def version (moment : Moment) (file : Path) : String :=
  Digest.fileVersion moment.host (moment.project.scriptVersion file) file

/-- The files that contribute to the barrel of a folder at a moment. -/
def files (moment : Moment) (folder : Path) : List Path :=
  Folder.files moment.host moment.project.options folder

/-- The barrel of a folder as it is calculated at a moment. -/
def barrel (moment : Moment) (folder : Path) : Barrel :=
  (Barrel.calculate moment.host moment.project.options folder).barrel

/-- The entry that calculating the barrel of a folder leaves at a moment. -/
def entry (moment : Moment) (folder : Path) : BarrelEntry :=
  .ofCalculation moment.version (Barrel.calculate moment.host moment.project.options folder)

/-- The versions that are recorded for the files of a folder at a moment. -/
def recorded (moment : Moment) (folder : Path) : PathMap String :=
  .ofList ((moment.files folder).map fun file => (file, moment.version file))

/-- The entry of a calculation has the versions that are recorded, with the manifest and the text of the
barrel. -/
theorem entry_eq (moment : Moment) (folder : Path) :
    moment.entry folder =
      .hydrated (moment.recorded folder) (moment.barrel folder).manifest
        (moment.barrel folder).text := rfl

/-- The files of a folder are normalized at every moment. -/
theorem normalize_of_mem_files {moment : Moment} {folder file : Path}
    (member : file ∈ moment.files folder) : file.normalize = file :=
  Folder.normalize_of_mem_files member

/-- The record holds exactly the listed files, each with its version. -/
theorem mem_recorded_iff {moment : Moment} {folder file : Path} {version : String} :
    (file, version) ∈ (moment.recorded folder).entries ↔
      file ∈ moment.files folder ∧ moment.version file = version :=
  PathMap.mem_ofList_map_iff fun _ listed => normalize_of_mem_files listed

/-- A version is recorded for each file of the folder and for nothing else. -/
theorem mem_keys_recorded_iff {moment : Moment} {folder file : Path} :
    file ∈ (moment.recorded folder).keys ↔ file ∈ moment.files folder := by
  rw [PathMap.mem_keys_iff]
  constructor
  · rintro ⟨version, written⟩
    exact (mem_recorded_iff.mp written).1
  · intro listed
    exact ⟨moment.version file, mem_recorded_iff.mpr ⟨listed, rfl⟩⟩

/-- What is assumed of the moments of a session: the compiler options stay, paths are asked for in the
case they have on disk, and two moments at which a file has the same version agree on its content. -/
structure Steady (moments : List Moment) : Prop where
  options : ∀ first ∈ moments, ∀ second ∈ moments, first.project.options = second.project.options
  cased : ∀ moment ∈ moments, ∀ path, moment.host.casedPath path = path
  versions : ∀ first ∈ moments, ∀ second ∈ moments, ∀ file,
    first.version file = second.version file → first.host.fileText file = second.host.fileText file

/-- A barrel is the same at two moments at which its folder has the same files in the same versions. -/
theorem barrel_eq_of_unchanged {moments : List Moment} {past now : Moment} {folder : Path}
    (steady : Steady moments) (pastListed : past ∈ moments) (nowListed : now ∈ moments)
    (listing : ∀ file, file ∈ past.files folder ↔ file ∈ now.files folder)
    (versions : ∀ file ∈ past.files folder, past.version file = now.version file) :
    past.barrel folder = now.barrel folder := by
  have options := steady.options past pastListed now nowListed
  rw [barrel, barrel, options]
  simp only [files, options] at listing versions
  apply Barrel.calculate_barrel_congr listing
  intro file member
  exact steady.versions past pastListed now nowListed file (versions file member)

end Moment

/-! ## The paths of barrels -/

/-- The paths under which barrels are registered: normalized, with the name of the synthesized
aggregator. -/
structure IsBarrelPath (path : Path) : Prop where
  normal : path.normalize = path
  named : path.fileName? = some Extension.barrelFileName

/-- The normalized path of an aggregator in a folder is a path where a barrel may stand. -/
theorem isBarrelPath_join (folder : Path) :
    IsBarrelPath (folder.join ⟨Extension.barrelFileName⟩).normalize := by
  have segment := Extension.isSegment_barrelFileName
  refine ⟨Path.normalize_normalize _, ?_⟩
  rw [folder.normalize_join_of_isSegment segment, Path.fileName?_join _ segment]

/-- Such a path has a parent, its folder. -/
theorem IsBarrelPath.parent {path : Path} (isBarrel : IsBarrelPath path) :
    ∃ folder, path.parent? = some folder := by
  obtain ⟨folder, parent, -⟩ := Path.exists_parent_of_fileName? isBarrel.named
  exact ⟨folder, parent⟩

/-- Two such paths with the same components are one path. -/
theorem IsBarrelPath.eq_of_components_eq {first second : Path} (left : IsBarrelPath first)
    (right : IsBarrelPath second) (same : first.components = second.components) : first = second :=
  Path.eq_of_components_eq left.normal right.normal same

end BarrelSynthesis
