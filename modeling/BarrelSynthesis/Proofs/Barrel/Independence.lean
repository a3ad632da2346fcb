/-
# What a barrel depends on

A barrel is calculated from the files of admitted names in its folder, and from their texts. Hosts list a
folder in an order of their own, together with whatever else is in it, and spell what they list as they
like. Normalizing, filtering and sorting leave nothing of that: two hosts that list the same files of
admitted names, and read the same texts from them, lead to the same calculation, down to the order of the
manifest and the warnings. What else is on disk does not matter, and neither does the spelling of the
folder.

A file that is listed twice is gone through twice, so the same files are meant to be listed as often.
-/
import BarrelSynthesis.Disk.Flat
import BarrelSynthesis.Proofs.Barrel.Listing

namespace BarrelSynthesis

/-- Sorting normalized paths forgets the order they came in. -/
theorem sortPaths_eq_of_perm {first second : List Path} (perm : first.Perm second)
    (normal : ∀ path ∈ first, path.normalize = path) : sortPaths first = sortPaths second := by
  apply Path.eq_of_perm (Folder.pairwise_sortPaths first) (Folder.pairwise_sortPaths second)
  · exact fun path member => normal path (Folder.mem_sortPaths.mp member)
  · exact (List.mergeSort_perm first _).trans (perm.trans (List.mergeSort_perm second _).symm)

namespace Folder

variable {first second : FileSystem} {options : CompilerOptions} {folder spelled : Path}

/-- What a host lists for a folder, normalized. -/
def entries (host : FileSystem) (folder : Path) : List Path :=
  (host.readDirectory folder.normalize).map Path.normalize

theorem normalize_of_mem_entries {host : FileSystem} {path : Path}
    (listed : path ∈ entries host folder) : path.normalize = path := by
  obtain ⟨spelling, -, rfl⟩ := List.mem_map.mp listed
  exact spelling.normalize_normalize

/-- Two hosts show the same files for a barrel: each file of an admitted name is listed as often by the one
as by the other, once by most hosts, and has the same text. -/
structure Alike (options : CompilerOptions) (folder : Path) (first second : FileSystem) : Prop where
  listed : ∀ name, AdmitsName options name →
    (entries first folder).count (folder.normalize.join ⟨name⟩) =
      (entries second folder).count (folder.normalize.join ⟨name⟩)
  texts : ∀ name, AdmitsName options name →
    folder.normalize.join ⟨name⟩ ∈ entries first folder →
      first.fileText (folder.normalize.join ⟨name⟩) = second.fileText (folder.normalize.join ⟨name⟩)

/-- The files of admitted names are those that are left of a listing. -/
theorem perm_contributing_iff :
    ((entries first folder).filter (contributes options folder.normalize)).Perm
        ((entries second folder).filter (contributes options folder.normalize)) ↔
      ∀ name, AdmitsName options name →
        (entries first folder).count (folder.normalize.join ⟨name⟩) =
          (entries second folder).count (folder.normalize.join ⟨name⟩) := by
  have normal := folder.normalize_normalize
  rw [List.perm_iff_count]
  constructor
  · intro counts name admits
    have kept : contributes options folder.normalize (folder.normalize.join ⟨name⟩) = true :=
      (contributes_iff normal (Path.normalize_join normal admits.isSegment)).mpr ⟨name, admits, rfl⟩
    rw [← List.count_filter kept, counts, List.count_filter kept]
  · intro counts path
    by_cases listed : path.normalize = path ∧ contributes options folder.normalize path = true
    · obtain ⟨spelling, kept⟩ := listed
      obtain ⟨name, admits, rfl⟩ := (contributes_iff normal spelling).mp kept
      rw [List.count_filter kept, List.count_filter kept, counts name admits]
    · have absent (host : FileSystem) :
          ((entries host folder).filter (contributes options folder.normalize)).count path = 0 := by
        rw [List.count_eq_zero]
        intro member
        obtain ⟨present, kept⟩ := List.mem_filter.mp member
        exact listed ⟨normalize_of_mem_entries present, kept⟩
      rw [absent, absent]

/-- Hosts that are alike have the same files to offer, in the same order. -/
theorem Alike.files_eq (alike : Alike options folder first second)
    (same : folder.normalize = spelled.normalize) :
    files first options folder = files second options spelled := by
  have perm := perm_contributing_iff.mpr alike.listed
  rw [files, files, ← same]
  exact sortPaths_eq_of_perm perm fun path kept =>
    normalize_of_mem_entries (List.mem_filter.mp kept).1

/-- A contributing file has the same text on both hosts. -/
theorem Alike.text_eq {file : Path} (alike : Alike options folder first second)
    (member : file ∈ files first options folder) : first.fileText file = second.fileText file := by
  obtain ⟨⟨spelling, listed, rfl⟩, kept⟩ := mem_files_iff.mp member
  obtain ⟨name, admits, shape⟩ := (contributes_iff folder.normalize_normalize
    spelling.normalize_normalize).mp kept
  rw [shape]
  exact alike.texts name admits (shape ▸ List.mem_map_of_mem listed)

end Folder

namespace Barrel

/-- A calculation sees a host through the listed files and their texts. -/
theorem calculate_congr {first second : FileSystem} {options : CompilerOptions}
    {folder spelled : Path}
    (files : Folder.files first options folder = Folder.files second options spelled)
    (texts : ∀ file ∈ Folder.files first options folder,
      first.fileText file = second.fileText file) :
    calculate first options folder = calculate second options spelled := by
  rw [files] at texts
  have contributions : Contribution.ofFiles first (Folder.files second options spelled) =
      Contribution.ofFiles second (Folder.files second options spelled) :=
    List.filterMap_congr fun file member => by rw [texts file member]
  simp only [calculate, files, contributions]

/-- Two hosts that show the same files of admitted names in a folder, however they list them and whatever
else they have, lead to the same barrel of the folder, the same included files and the same warnings,
also under two spellings of the folder. -/
theorem calculation_depends_on_admitted_files {first second : FileSystem}
    {options : CompilerOptions} {folder spelled : Path}
    (same : folder.normalize = spelled.normalize)
    (alike : Folder.Alike options folder first second) :
    calculate first options folder = calculate second options spelled :=
  calculate_congr (alike.files_eq same) fun _ => alike.text_eq

/-- Two files, listed the other way round beside an aggregator, in a folder spelled in another way. -/
theorem calculation_of_files_listed_backwards :
    let files : List (Path × String) :=
      [(⟨"/c/a.ts"⟩, "export let v"), (⟨"/c/b.ts"⟩, "export let v, w")]
    let first := (Disk.ofList files []).fileSystem
    let second := (Disk.ofList (files ++ [(⟨"/c/index.js"⟩, "")]) []).fileSystem
    let backwards : FileSystem := { second with
      readDirectory := fun folder => (second.readDirectory folder).reverse }
    Path.normalize ⟨"/c"⟩ = Path.normalize ⟨"/./x/../c/"⟩ ∧
      Folder.Alike {} ⟨"/c"⟩ first backwards ∧
      calculate first {} ⟨"/c"⟩ = calculate backwards {} ⟨"/./x/../c/"⟩ := by
  intro files first second backwards
  have same : Path.normalize ⟨"/c"⟩ = Path.normalize ⟨"/./x/../c/"⟩ := by decide
  have alike : Folder.Alike {} ⟨"/c"⟩ first backwards := by
    have texts : ∀ path ∈ Folder.entries first ⟨"/c"⟩,
        first.fileText path = backwards.fileText path := by decide
    have listed : ((Folder.entries first ⟨"/c"⟩).filter
        (Folder.contributes {} (Path.normalize ⟨"/c"⟩))).Perm
          ((Folder.entries backwards ⟨"/c"⟩).filter
            (Folder.contributes {} (Path.normalize ⟨"/c"⟩))) := by decide
    exact ⟨Folder.perm_contributing_iff.mp listed, fun _ _ => texts _⟩
  exact ⟨same, alike, calculation_depends_on_admitted_files same alike⟩

end Barrel

end BarrelSynthesis
