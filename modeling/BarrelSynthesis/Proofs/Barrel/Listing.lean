/-
# Listings of folders

The files of a folder are normalized, stand in ascending order, and are no aggregators. A file that a
host lists twice stands twice in the listing; its entities are then written twice in a row, which is as
good as once. The barrel of a folder is therefore determined by the set of its files and their texts.
-/
import BarrelSynthesis.Proofs.Barrel.Calculation
import BarrelSynthesis.Proofs.Path.Map
import BarrelSynthesis.Proofs.Path.Parent
import BarrelSynthesis.Proofs.Project.Extension
import Mathlib.Data.List.Dedup

namespace BarrelSynthesis

namespace Path

theorem isLE_trans (a b c : Path) (first : (order a b).isLE) (second : (order b c).isLE) :
    (order a c).isLE :=
  Std.TransCmp.isLE_trans first second

theorem isLE_total (a b : Path) : (order a b).isLE || (order b a).isLE := by
  by_cases below : (order a b).isLE
  · simp [below]
  · have above := Std.OrientedCmp.lt_of_not_isLE below
    simp [above]

end Path

namespace Folder

/-- Sorted paths stand in ascending order. -/
theorem pairwise_sortPaths (paths : List Path) :
    (sortPaths paths).Pairwise fun a b => (Path.order a b).isLE :=
  List.pairwise_mergeSort Path.isLE_trans Path.isLE_total paths

theorem mem_sortPaths {paths : List Path} {path : Path} : path ∈ sortPaths paths ↔ path ∈ paths :=
  List.mem_mergeSort

variable {host : FileSystem} {options : CompilerOptions} {folder file : Path}

/-- The files of a folder are what the host lists of it, normalized, so far as it contributes. -/
theorem mem_files_iff :
    file ∈ files host options folder ↔
      (∃ listed ∈ host.readDirectory folder.normalize, listed.normalize = file) ∧
        contributes options folder.normalize file = true := by
  rw [files, mem_sortPaths, List.mem_filter, List.mem_map]

/-- The files of a folder stand in ascending order. Equal ones stand side by side, since nothing drops
repeats. -/
theorem pairwise_files (host : FileSystem) (options : CompilerOptions) (folder : Path) :
    (files host options folder).Pairwise fun a b => (Path.order a b).isLE :=
  pairwise_sortPaths _

/-- The files of a folder are normalized. -/
theorem normalize_of_mem_files (member : file ∈ files host options folder) :
    file.normalize = file := by
  obtain ⟨⟨listed, -, rfl⟩, -⟩ := mem_files_iff.mp member
  exact listed.normalize_normalize

/-- Whether files of a name contribute to the barrel of their folder: the name ends in a supported
extension, and is not the stem of aggregators with the extension of code. -/
def AdmitsName (options : CompilerOptions) (name : String) : Prop :=
  '/' ∉ name.toList ∧ ∃ extension ∈ Extension.supported options,
    Extension.ofName? name = some extension ∧
      ¬ (Extension.isCode extension = true ∧ Extension.strip extension name = Extension.barrelStem)

/-- An admitted name is a component of its own, having no separator and a stem that is not empty. -/
theorem AdmitsName.isSegment {name : String} (admits : AdmitsName options name) :
    (Component.name name).IsSegment := by
  obtain ⟨whole, _, -, found, -⟩ := admits
  exact Component.isSegment_of_ofName? whole found

/-- The files that contribute to the barrel of a folder are the admitted names in it. -/
theorem contributes_iff (normalFolder : folder.normalize = folder) (normal : file.normalize = file) :
    contributes options folder file = true ↔
      ∃ name, AdmitsName options name ∧ file = folder.join ⟨name⟩ := by
  constructor
  · intro kept
    simp only [contributes, Bool.and_eq_true, Bool.not_eq_true'] at kept
    obtain ⟨⟨inside, supported⟩, ordinary⟩ := kept
    cases named : file.fileName? with
    | none => simp [Extension.ofPath?, named] at supported
    | some name =>
        rw [Extension.ofPath?_of_fileName? named] at supported
        cases found : Extension.ofName? name with
        | none => simp [found] at supported
        | some extension =>
            have segment := Path.isSegment_of_fileName? named
            obtain ⟨parent, below, shape⟩ := Path.exists_parent_of_fileName? named
            have same : parent.components = folder.components := by
              rw [below] at inside
              exact Path.same_iff.mp inside
            refine ⟨name, ⟨segment.name_whole, extension, by simpa [found] using supported, found,
              fun aggregates => ?_⟩, ?_⟩
            · rw [(Extension.isBarrelFile_iff named found).mpr aggregates] at ordinary
              cases ordinary
            · rw [Path.join_eq_ofComponents normalFolder segment, ← same, ← shape,
                Path.ofComponents_components normal]
  · rintro ⟨name, admits, rfl⟩
    have segment := admits.isSegment
    obtain ⟨-, extension, supported, found, ordinary⟩ := admits
    have named := Path.fileName?_join folder segment
    have inside : (folder.join ⟨name⟩).parent? = some folder := Path.parent?_join normalFolder segment
    have itself : folder.same folder = true := Path.same_iff.mpr rfl
    have plain := Bool.eq_false_iff.mpr fun aggregates =>
      ordinary ((Extension.isBarrelFile_iff named found).mp aggregates)
    rw [contributes, inside, plain, Extension.ofPath?_of_fileName? named, found]
    simp [itself, supported]

/-- A listed file is a name in the folder, with a supported extension. -/
theorem exists_name_of_mem_files (member : file ∈ files host options folder) :
    ∃ name extension, file = folder.normalize.join ⟨name⟩ ∧ file.fileName? = some name ∧
      Extension.ofName? name = some extension ∧ extension ∈ Extension.supported options := by
  obtain ⟨name, admits, shape⟩ := (contributes_iff folder.normalize_normalize
    (normalize_of_mem_files member)).mp (mem_files_iff.mp member).2
  have segment := admits.isSegment
  obtain ⟨-, extension, supported, found, -⟩ := admits
  exact ⟨name, extension, shape, by rw [shape, Path.fileName?_join _ segment], found, supported⟩

/-- A listed file is no aggregator. -/
theorem not_isBarrelFile_of_mem_files (member : file ∈ files host options folder) :
    Extension.isBarrelFile file = false := by
  have kept := (mem_files_iff.mp member).2
  simp only [contributes, Bool.and_eq_true, Bool.not_eq_true'] at kept
  exact kept.2

theorem normalize_barrelPath (folder : Path) : (barrelPath folder).normalize = barrelPath folder :=
  Path.normalize_normalize _

/-- The name of the synthesized aggregator is that of an aggregator. -/
theorem isBarrelFile_of_fileName? (named : file.fileName? = some Extension.barrelFileName) :
    Extension.isBarrelFile file = true := by
  rw [Extension.isBarrelFile, Extension.stem, Extension.ofPath?, named]
  decide

end Folder

/-! ## Listing a file twice -/

/-- What a file adds is the same when it is added twice in a row. -/
theorem Manifest.writeAll_flatMap_dedup (added : Path → List Entity) {files : List Path}
    (ascending : files.Pairwise fun a b => (Path.order a b).isLE)
    (normal : ∀ file ∈ files, file.normalize = file) (manifest : Manifest) :
    manifest.writeAll (files.dedup.flatMap added) = manifest.writeAll (files.flatMap added) := by
  induction files generalizing manifest with
  | nil => rfl
  | cons file rest ih =>
      obtain ⟨lowest, others⟩ := List.pairwise_cons.mp ascending
      have later := ih others fun other member => normal other (List.mem_cons_of_mem _ member)
      by_cases again : file ∈ rest
      · rw [List.dedup_cons_of_mem again, later, List.flatMap_cons, Manifest.writeAll_append]
        -- A repeated file is the head of the rest, since the rest ascends from it.
        cases rest with
        | nil => cases again
        | cons second more =>
            have below : (Path.order second file).isLE := by
              rcases List.mem_cons.mp again with rfl | deep
              · exact Std.ReflCmp.isLE_rfl
              · exact (List.pairwise_cons.mp others).1 file deep
            have compared := Std.OrientedCmp.isLE_antisymm (lowest second List.mem_cons_self) below
            have same : file = second :=
              Path.eq_of_components_eq (normal file List.mem_cons_self)
                (normal second (List.mem_cons_of_mem _ List.mem_cons_self))
                (Path.order_eq_iff.mp compared)
            subst same
            rw [List.flatMap_cons, Manifest.writeAll_append, Manifest.writeAll_append,
              Manifest.writeAll_writeAll]
      · rw [List.dedup_cons_of_notMem again, List.flatMap_cons, List.flatMap_cons,
          Manifest.writeAll_append, Manifest.writeAll_append, later]

/-- Ascending lists of normalized paths that rearrange one another are equal. -/
theorem Path.eq_of_perm {first second : List Path}
    (firstAscends : first.Pairwise fun a b => (Path.order a b).isLE)
    (secondAscends : second.Pairwise fun a b => (Path.order a b).isLE)
    (normal : ∀ file ∈ first, file.normalize = file) (perm : first.Perm second) : first = second := by
  apply List.Perm.eq_of_pairwise _ firstAscends secondAscends perm
  intro a b left right below above
  exact Path.eq_of_components_eq (normal a left) (normal b (perm.mem_iff.mpr right))
    (Path.order_eq_iff.mp (Std.OrientedCmp.isLE_antisymm below above))

/-- Ascending lists of normalized paths with the same members are equal up to repetition. -/
theorem Path.dedup_eq_of_mem_iff {first second : List Path}
    (firstAscends : first.Pairwise fun a b => (Path.order a b).isLE)
    (secondAscends : second.Pairwise fun a b => (Path.order a b).isLE)
    (normal : ∀ file ∈ first, file.normalize = file) (members : ∀ file, file ∈ first ↔ file ∈ second) :
    first.dedup = second.dedup := by
  have perm : first.dedup.Perm second.dedup :=
    (List.perm_ext_iff_of_nodup first.nodup_dedup second.nodup_dedup).mpr fun file => by
      rw [List.mem_dedup, List.mem_dedup, members]
  apply eq_of_perm (firstAscends.sublist first.dedup_sublist)
    (secondAscends.sublist second.dedup_sublist) _ perm
  exact fun file member => normal file (List.mem_dedup.mp member)

/-- Strictly ascending lists of normalized paths with the same members are equal. -/
theorem Path.eq_of_mem_iff {first second : List Path}
    (firstAscends : first.Pairwise fun a b => order a b = .lt)
    (secondAscends : second.Pairwise fun a b => order a b = .lt)
    (normal : ∀ file ∈ first, file.normalize = file) (members : ∀ file, file ∈ first ↔ file ∈ second) :
    first = second := by
  have weaker {paths : List Path} (ascends : paths.Pairwise fun a b => order a b = .lt) :
      paths.Pairwise fun a b => (order a b).isLE :=
    ascends.imp fun below => by rw [below]; rfl
  have once := dedup_eq_of_mem_iff (weaker firstAscends) (weaker secondAscends) normal members
  rwa [(nodup_of_ascending firstAscends).dedup, (nodup_of_ascending secondAscends).dedup] at once

/-! ## Distinct spellings -/

theorem mem_of_mem_distinctPaths {path : Path} :
    ∀ {paths : List Path}, path ∈ distinctPaths paths → path ∈ paths
  | [], member => absurd member List.not_mem_nil
  | first :: rest, member => by
      rw [distinctPaths, List.eraseDupsBy_cons] at member
      rcases List.mem_cons.mp member with rfl | later
      · exact List.mem_cons_self
      · have kept := mem_of_mem_distinctPaths later
        exact List.mem_cons_of_mem _ (List.mem_filter.mp kept).1
termination_by paths => paths.length
decreasing_by
  exact Nat.lt_succ_of_le (List.length_filter_le _ _)

/-- Dropping later spellings keeps every path in some spelling. -/
theorem exists_mem_distinctPaths {path : Path} :
    ∀ {paths : List Path}, path ∈ paths →
      ∃ other ∈ distinctPaths paths, other.components = path.components
  | [], member => absurd member List.not_mem_nil
  | first :: rest, member => by
      rw [distinctPaths, List.eraseDupsBy_cons]
      by_cases same : first.components = path.components
      · exact ⟨first, List.mem_cons_self, same⟩
      · have later : path ∈ rest :=
          (List.mem_cons.mp member).resolve_left fun here => same (congrArg Path.components here.symm)
        have kept : path ∈ rest.filter fun other => Path.same other first = false := by
          refine List.mem_filter.mpr ⟨later, ?_⟩
          simpa [Path.not_same_iff] using Ne.symm same
        obtain ⟨other, listed, spelled⟩ := exists_mem_distinctPaths kept
        exact ⟨other, List.mem_cons_of_mem _ listed, spelled⟩
termination_by paths => paths.length
decreasing_by
  exact Nat.lt_succ_of_le (List.length_filter_le _ _)

/-- Dropping repeats keeps the others in order. -/
theorem distinctPaths_sublist : ∀ paths : List Path, (distinctPaths paths).Sublist paths
  | [] => .slnil
  | first :: rest => by
      rw [distinctPaths, List.eraseDupsBy_cons]
      have later := distinctPaths_sublist (rest.filter fun other => Path.same other first = false)
      exact .cons_cons first (later.trans List.filter_sublist)
termination_by paths => paths.length
decreasing_by
  exact Nat.lt_succ_of_le (List.length_filter_le _ _)

/-- No two of the paths that are left are spellings of one. -/
theorem pairwise_distinctPaths : ∀ paths : List Path,
    (distinctPaths paths).Pairwise fun a b => a.components ≠ b.components
  | [] => .nil
  | first :: rest => by
      rw [distinctPaths, List.eraseDupsBy_cons]
      refine .cons (fun other listed => ?_) (pairwise_distinctPaths _)
      have kept := (List.mem_filter.mp (mem_of_mem_distinctPaths listed)).2
      exact Ne.symm (Path.not_same_iff.mp (by simpa using kept))
termination_by paths => paths.length
decreasing_by
  exact Nat.lt_succ_of_le (List.length_filter_le _ _)

namespace Barrel

/-- The barrel of a folder is determined by the set of its files and by their texts. -/
theorem calculate_barrel_congr {first second : FileSystem} {options : CompilerOptions}
    {folder : Path}
    (listing : ∀ file, file ∈ Folder.files first options folder ↔
      file ∈ Folder.files second options folder)
    (texts : ∀ file ∈ Folder.files first options folder,
      first.fileText file = second.fileText file) :
    (calculate first options folder).barrel = (calculate second options folder).barrel := by
  have firstAscends := Folder.pairwise_files first options folder
  have secondAscends := Folder.pairwise_files second options folder
  have once := Path.dedup_eq_of_mem_iff firstAscends secondAscends
    (fun _ member => Folder.normalize_of_mem_files member) listing
  have added : ∀ file ∈ (Folder.files first options folder).dedup,
      Contribution.entitiesOf first file = Contribution.entitiesOf second file :=
    fun file member => Contribution.entitiesOf_congr (texts file (List.mem_dedup.mp member))
  have manifests : (calculate first options folder).barrel.manifest =
      (calculate second options folder).barrel.manifest := by
    rw [calculate_manifest, calculate_manifest,
      ← Manifest.writeAll_flatMap_dedup _ firstAscends
        fun _ member => Folder.normalize_of_mem_files member,
      ← Manifest.writeAll_flatMap_dedup _ secondAscends
        fun _ member => Folder.normalize_of_mem_files member,
      List.flatMap_congr added, once]
  rw [calculate_barrel, calculate_barrel second, manifests]

end Barrel

end BarrelSynthesis
