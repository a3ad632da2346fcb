/-
# The warnings of a build

A build collects the warnings of its folders one calculation after the other, and what is collected about a
file replaces what was collected about it before. Nothing is lost all the same: a calculation warns only
about files that stand immediately in its folder, under their normalized paths, and never with an empty
list. So two calculations that speak of one file are of the same folder, and then they are the same.

What a host is told about a file is therefore what the calculation of the folder of the file found, and
what it is told about the whole program are the findings of every folder, each once, in the order of the
paths.
-/
import BarrelSynthesis.Disk.Flat
import BarrelSynthesis.Proofs.Build.Store

namespace BarrelSynthesis

/-! ## What one calculation warns about -/

namespace BarrelTally

variable {tally : BarrelTally} {files : List Path} {contribution : Contribution}

/-- Only some files are warned about, and none of them without a warning. -/
def WarnsOnly (tally : BarrelTally) (files : List Path) : Prop :=
  ∀ file warnings, (file, warnings) ∈ tally.diagnostics.entries → file ∈ files ∧ warnings ≠ []

/-- Warning about one of the files keeps this, since an empty list of warnings is not noted. -/
theorem WarnsOnly.warn {file : Path} (kept : tally.WarnsOnly files) (listed : file ∈ files)
    (diagnostics : List Diagnostic) : (tally.warn file diagnostics).WarnsOnly files := by
  rw [BarrelTally.warn]
  cases diagnostics with
  | nil => exact kept
  | cons first rest =>
      intro other found member
      rcases PathMap.mem_insert member with ⟨-, written, spelled⟩ | ⟨-, present⟩
      · refine ⟨?_, by simp [written]⟩
        rcases spelled with rfl | known
        · exact listed
        · obtain ⟨old, present⟩ := PathMap.mem_keys_iff.mp known
          exact (kept other old present).1
      · exact kept other found present

/-- Adding an entity warns about the file it comes from, if about any. -/
theorem WarnsOnly.addEntity (kept : tally.WarnsOnly files) (listed : contribution.file ∈ files)
    (entity : Entity) : (addEntity contribution tally entity).WarnsOnly files := by
  cases known : tally.origins.lookup entity.identifier with
  | none =>
      simp only [BarrelTally.addEntity, known]
      exact kept
  | some shadowed =>
      simp only [BarrelTally.addEntity, known]
      exact kept.warn listed _

/-- Adding what a file contributes warns about this file only. -/
theorem WarnsOnly.add (kept : tally.WarnsOnly files) (listed : contribution.file ∈ files) :
    (tally.add contribution).WarnsOnly files := by
  have gathered (entities : List Entity) {tally : BarrelTally} (kept : tally.WarnsOnly files) :
      (entities.foldl (BarrelTally.addEntity contribution) tally).WarnsOnly files := by
    induction entities generalizing tally with
    | nil => exact kept
    | cons entity rest ih => exact ih (kept.addEntity listed entity)
  exact gathered _ (kept.warn listed _)

/-- A tally warns only about files that contribute. -/
theorem warnsOnly_ofContributions {contributions : List Contribution}
    (listed : ∀ contribution ∈ contributions, contribution.file ∈ files) :
    (ofContributions contributions).WarnsOnly files := by
  have gathered {tally : BarrelTally} (kept : tally.WarnsOnly files) :
      (contributions.foldl BarrelTally.add tally).WarnsOnly files := by
    induction contributions generalizing tally with
    | nil => exact kept
    | cons contribution rest ih =>
        obtain ⟨here, later⟩ := List.forall_mem_cons.mp listed
        exact ih later (kept.add here)
  exact gathered fun _ _ absent => nomatch absent

end BarrelTally

/-- What contributes is one of the files. -/
theorem Contribution.file_mem_of_mem_ofFiles {host : FileSystem} {files : List Path}
    {contribution : Contribution} (member : contribution ∈ ofFiles host files) :
    contribution.file ∈ files := by
  obtain ⟨file, listed, read⟩ := List.mem_filterMap.mp member
  obtain ⟨source, -, rfl⟩ := Option.map_eq_some_iff.mp read
  exact listed

variable {host : FileSystem} {options : CompilerOptions} {folder file : Path}
  {warnings : List Diagnostic}

/-- The folder of a file that is listed for a folder is that folder. -/
theorem Folder.folderOf?_of_mem_files (member : file ∈ files host options folder) :
    folderOf? file = some folder.normalize := by
  have normal := folder.normalize_normalize
  obtain ⟨name, admits, rfl⟩ :=
    (contributes_iff normal (normalize_of_mem_files member)).mp (mem_files_iff.mp member).2
  rw [folderOf?, Path.parent?_join normal admits.isSegment, Option.map_some, normal]

namespace Barrel

/-- A calculation warns about files that are listed for its folder, and never with an empty list. -/
theorem mem_files_of_mem_diagnostics
    (member : (file, warnings) ∈ (calculate host options folder).diagnostics.entries) :
    file ∈ Folder.files host options folder ∧ warnings ≠ [] :=
  BarrelTally.warnsOnly_ofContributions (fun _ => Contribution.file_mem_of_mem_ofFiles) _ _ member

/-- Calculations that warn about one file are of one folder. -/
theorem calculate_eq_of_folderOf? {other : Path}
    (member : (file, warnings) ∈ (calculate host options other).diagnostics.entries)
    (inside : Folder.folderOf? file = some folder.normalize) :
    calculate host options other = calculate host options folder := by
  have there := Folder.folderOf?_of_mem_files (mem_files_of_mem_diagnostics member).1
  have one : other.normalize = folder.normalize := Option.some.inj (there.symm.trans inside)
  rw [← calculate_normalize, one, calculate_normalize]

end Barrel

/-! ## What a build collects -/

namespace DiagnosticCache

/-- A list of warnings that is not empty is noted under its file. -/
theorem entries_set_of_ne_nil {cache : DiagnosticCache} (filled : warnings ≠ []) :
    (cache.set file warnings).entries = cache.entries.insert file warnings := by
  cases warnings with
  | nil => exact absurd rfl filled
  | cons first rest => rfl

/-- Lists that are not empty are written one after the other. -/
theorem entries_extend {cache : DiagnosticCache} {map : PathMap (List Diagnostic)}
    (filled : ∀ entry ∈ map.entries, entry.2 ≠ []) :
    (cache.extend map).entries = cache.entries.writeAll map.entries := by
  have written (entries : List (Path × List Diagnostic)) (cache : DiagnosticCache)
      (filled : ∀ entry ∈ entries, entry.2 ≠ []) :
      (entries.foldl (fun cache entry => cache.set entry.1 entry.2) cache).entries =
        cache.entries.writeAll entries := by
    induction entries generalizing cache with
    | nil => rfl
    | cons entry rest ih =>
        obtain ⟨here, later⟩ := List.forall_mem_cons.mp filled
        refine (ih _ later).trans ?_
        rw [entries_set_of_ne_nil here]
        rfl
  exact written map.entries cache filled

variable {folders : List Path}

/-- The warnings of a build are those of its folders, written one folder after the other. -/
theorem generateBarrels_entries (host : FileSystem) (options : CompilerOptions)
    (folders : List Path) :
    (generateBarrels host options folders).2.entries =
      PathMap.empty.writeAll
        (folders.flatMap fun folder => (Barrel.calculate host options folder).diagnostics.entries) := by
  rw [PathMap.writeAll, List.foldl_flatMap]
  refine (List.foldl_hom (fun state : BarrelStore × DiagnosticCache => state.2.entries)
    fun state folder => ?_).symm
  exact (entries_extend fun entry member => (Barrel.mem_files_of_mem_diagnostics member).2).symm

/-- A build keeps every finding of its folders, and no other. -/
theorem mem_generateBarrels_iff :
    (file, warnings) ∈ (generateBarrels host options folders).2.entries.entries ↔
      ∃ folder ∈ folders,
        (file, warnings) ∈ (Barrel.calculate host options folder).diagnostics.entries := by
  rw [generateBarrels_entries, PathMap.mem_writeAll_empty_iff, List.mem_flatMap]
  · intro entry listed
    obtain ⟨folder, -, member⟩ := List.mem_flatMap.mp listed
    exact Folder.normalize_of_mem_files (Barrel.mem_files_of_mem_diagnostics member).1
  · intro first listed second also same
    obtain ⟨folder, -, here⟩ := List.mem_flatMap.mp listed
    obtain ⟨other, -, there⟩ := List.mem_flatMap.mp also
    have inside := Folder.folderOf?_of_mem_files (Barrel.mem_files_of_mem_diagnostics here).1
    rw [Barrel.calculate_eq_of_folderOf? there (same ▸ inside)] at there
    exact PathMap.entry_unique here there (congrArg Path.components same)

/-- What a build keeps about a file of one of its folders is what the calculation of the folder found. -/
theorem get?_generateBarrels (normal : file.normalize = file) (listed : folder ∈ folders)
    (inside : Folder.folderOf? file = some folder.normalize) :
    (generateBarrels host options folders).2.get? file =
      (Barrel.calculate host options folder).diagnostics.get? file := by
  apply Option.ext
  intro found
  rw [get?, PathMap.get?_eq_some_iff, PathMap.get?_eq_some_iff]
  refine exists_congr fun other => and_congr_left fun same => ?_
  rw [mem_generateBarrels_iff]
  refine ⟨fun ⟨source, _, member⟩ => ?_, fun member => ⟨folder, listed, member⟩⟩
  have one := Path.eq_of_components_eq
    (Folder.normalize_of_mem_files (Barrel.mem_files_of_mem_diagnostics member).1) normal same
  rwa [Barrel.calculate_eq_of_folderOf? member (one ▸ inside)] at member

/-- Nothing is kept about a file outside the folders of a build. -/
theorem get?_generateBarrels_eq_none (normal : file.normalize = file)
    (outside : ∀ folder ∈ folders, Folder.folderOf? file ≠ some folder.normalize) :
    (generateBarrels host options folders).2.get? file = none := by
  rw [Option.eq_none_iff_forall_ne_some]
  intro found present
  obtain ⟨other, member, same⟩ := PathMap.get?_eq_some_iff.mp present
  obtain ⟨folder, listed, warned⟩ := mem_generateBarrels_iff.mp member
  have inside := (Barrel.mem_files_of_mem_diagnostics warned).1
  have one := Path.eq_of_components_eq (Folder.normalize_of_mem_files inside) normal same
  exact outside folder listed (one ▸ Folder.folderOf?_of_mem_files inside)

end DiagnosticCache

/-! ## All warnings in path order -/

/-- The folders of a list, each once and normalized. -/
def Folder.each (folders : List Path) : List Path :=
  distinctPaths (folders.map Path.normalize)

/-- A folder is met once it is listed, in whatever spelling. -/
theorem Folder.exists_mem_each_iff {folders : List Path} {holds : Path → Prop} :
    (∃ folder ∈ each folders, holds folder) ↔ ∃ folder ∈ folders, holds folder.normalize := by
  constructor
  · rintro ⟨_, listed, held⟩
    obtain ⟨folder, member, rfl⟩ := List.mem_map.mp (mem_of_mem_distinctPaths listed)
    exact ⟨folder, member, held⟩
  · rintro ⟨folder, listed, held⟩
    obtain ⟨other, member, same⟩ := exists_mem_distinctPaths (List.mem_map_of_mem listed)
    obtain ⟨source, -, rfl⟩ := List.mem_map.mp (mem_of_mem_distinctPaths member)
    have one := Path.eq_of_components_eq source.normalize_normalize folder.normalize_normalize same
    exact ⟨_, member, one ▸ held⟩

/-- Each folder is met in its normalized spelling. -/
theorem Folder.normalize_of_mem_each {folders : List Path} (member : folder ∈ each folders) :
    folder.normalize = folder := by
  obtain ⟨source, -, rfl⟩ := List.mem_map.mp (mem_of_mem_distinctPaths member)
  exact source.normalize_normalize

namespace DiagnosticCache

/-- The findings of some folders, folder by folder. -/
def findingsOf (host : FileSystem) (options : CompilerOptions) (folders : List Path) :
    List (Path × List Diagnostic) :=
  folders.flatMap fun folder => (Barrel.calculate host options folder).diagnostics.entries

/-- No two findings of distinct folders are about one file. -/
theorem pairwise_findingsOf_each (host : FileSystem) (options : CompilerOptions)
    (folders : List Path) :
    (findingsOf host options (Folder.each folders)).Pairwise
      fun a b => a.1.components ≠ b.1.components := by
  rw [findingsOf, List.pairwise_flatMap]
  constructor
  · intro folder _
    exact (Barrel.calculate host options folder).diagnostics.ascending.imp
      Path.components_ne_of_order_lt
  · refine (pairwise_distinctPaths _).imp_of_mem fun {first second} listed also differs => ?_
    rintro ⟨file, found⟩ here ⟨other, warned⟩ there same
    have inside := (Barrel.mem_files_of_mem_diagnostics here).1
    have within := (Barrel.mem_files_of_mem_diagnostics there).1
    have one := Path.eq_of_components_eq (Folder.normalize_of_mem_files inside)
      (Folder.normalize_of_mem_files within) same
    have folders := (Folder.folderOf?_of_mem_files inside).symm.trans
      (one ▸ Folder.folderOf?_of_mem_files within)
    apply differs
    rw [← Folder.normalize_of_mem_each listed, ← Folder.normalize_of_mem_each also,
      Option.some.inj folders]

/-- Whether the file of a finding stands no later than that of another. -/
def precedes (first second : Path × List Diagnostic) : Bool :=
  (Path.order first.1 second.1).isLE

/-- Findings in the order of the paths that they are about. -/
def inPathOrder (findings : List (Path × List Diagnostic)) : List (Path × List Diagnostic) :=
  findings.mergeSort precedes

/-- The findings stand in the order of their paths. -/
theorem pairwise_inPathOrder (findings : List (Path × List Diagnostic)) :
    (inPathOrder findings).Pairwise fun first second => precedes first second := by
  apply List.pairwise_mergeSort
  · intro first second third
    exact Path.isLE_trans first.1 second.1 third.1
  · intro first second
    exact Path.isLE_total first.1 second.1

/-- Findings about distinct files that a map holds, and no others, are its entries in path order. -/
theorem entries_eq_inPathOrder {map : PathMap (List Diagnostic)}
    {findings : List (Path × List Diagnostic)}
    (distinct : findings.Pairwise fun first second => first.1.components ≠ second.1.components)
    (members : ∀ entry, entry ∈ map.entries ↔ entry ∈ findings) :
    map.entries = inPathOrder findings := by
  have once : map.entries.Nodup := map.ascending.imp fun below same => by
    rw [same] at below
    exact Path.components_ne_of_order_lt below rfl
  have alsoOnce : findings.Nodup := distinct.imp fun differs same => differs (by rw [same])
  have perm : map.entries.Perm (inPathOrder findings) :=
    ((List.perm_ext_iff_of_nodup once alsoOnce).mpr members).trans (List.mergeSort_perm _ _).symm
  have ascends : map.entries.Pairwise fun first second => precedes first second :=
    map.ascending.imp fun below => by rw [precedes, below]; rfl
  refine List.Perm.eq_of_pairwise ?_ ascends (pairwise_inPathOrder findings) perm
  intro first second left right below above
  exact PathMap.entry_unique left (perm.mem_iff.mpr right)
    (Path.order_eq_iff.mp (Std.OrientedCmp.isLE_antisymm below above))

/-- A build keeps the findings of its folders, each once, in the order of the paths. -/
theorem entries_generateBarrels (host : FileSystem) (options : CompilerOptions)
    (folders : List Path) :
    (generateBarrels host options folders).2.entries.entries =
      inPathOrder (findingsOf host options (Folder.each folders)) := by
  refine entries_eq_inPathOrder (pairwise_findingsOf_each host options folders) ?_
  rintro ⟨file, warnings⟩
  rw [mem_generateBarrels_iff, findingsOf, List.mem_flatMap, Folder.exists_mem_each_iff]
  simp only [Barrel.calculate_normalize]

end DiagnosticCache

/-- A build loses and misplaces no warning, in whatever spellings its folders are listed and however often.
What it keeps about a file is what the calculation of the folder of the file found, and nothing when this
folder is not listed. A host is told about the file behind its own findings, and about the whole program
all findings of the folders, each folder once, in the order of the paths. -/
theorem generated_warnings_are_kept (host : FileSystem) (options : CompilerOptions)
    (folders : List Path) :
    let cache := (generateBarrels host options folders).2
    (∀ file, file.normalize = file →
      (∀ folder ∈ folders, Folder.folderOf? file = some folder.normalize →
        cache.get? file = (Barrel.calculate host options folder).diagnostics.get? file ∧
          ∀ own, cache.merge own (some file) =
            own ++ ((Barrel.calculate host options folder).diagnostics.get? file).getD []) ∧
      ((∀ folder ∈ folders, Folder.folderOf? file ≠ some folder.normalize) →
        cache.get? file = none ∧ ∀ own, cache.merge own (some file) = own)) ∧
    ∀ own, cache.merge own none =
      own ++ (DiagnosticCache.inPathOrder
        (DiagnosticCache.findingsOf host options (Folder.each folders))).flatMap (·.2) := by
  intro cache
  refine ⟨fun file normal => ⟨fun folder listed inside => ?_, fun outside => ?_⟩, fun own => ?_⟩
  · have found : cache.get? file = (Barrel.calculate host options folder).diagnostics.get? file :=
      DiagnosticCache.get?_generateBarrels normal listed inside
    exact ⟨found, fun own => by rw [DiagnosticCache.merge, found]⟩
  · have absent : cache.get? file = none :=
      DiagnosticCache.get?_generateBarrels_eq_none normal outside
    exact ⟨absent, fun own => by simp only [DiagnosticCache.merge, absent, Option.getD_none,
      List.append_nil]⟩
  · rw [DiagnosticCache.merge, DiagnosticCache.all, PathMap.values,
      DiagnosticCache.entries_generateBarrels, List.flatMap_def]

/-- A folder that is listed before and behind another one, in two spellings. What is known about its file
is what a calculation of it finds, and the folder above is not among those of the build. -/
theorem warnings_of_respelled_folder_are_kept :
    let folders : List Path := [⟨"/p/./c"⟩, ⟨"/p/d"⟩, ⟨"/p/c/"⟩]
    let disk : Disk := .ofList [(⟨"/p/c/a.ts"⟩, "export default 1"),
      (⟨"/p/d/b.ts"⟩, "export default () => 1"), (⟨"/p/e.ts"⟩, "export default 2")] []
    let cache := (generateBarrels disk.fileSystem {} folders).2
    Path.normalize ⟨"/p/c/a.ts"⟩ = ⟨"/p/c/a.ts"⟩ ∧
      ((cache.get? ⟨"/p/c/a.ts"⟩).getD []).map (·.code) = [Diagnostic.missingIdentifierCode] ∧
      cache.get? ⟨"/p/e.ts"⟩ = none := by
  intro folders disk cache
  obtain ⟨told, -⟩ := generated_warnings_are_kept disk.fileSystem {} folders
  have normal : Path.normalize ⟨"/p/c/a.ts"⟩ = ⟨"/p/c/a.ts"⟩ := by decide
  have outside : ∀ folder ∈ folders, Folder.folderOf? ⟨"/p/e.ts"⟩ ≠ some folder.normalize := by decide
  have kept := ((told ⟨"/p/c/a.ts"⟩ normal).1 ⟨"/p/c/"⟩ (by decide) (by decide)).1
  refine ⟨normal, ?_, ((told ⟨"/p/e.ts"⟩ (by decide)).2 outside).1⟩
  have found : (((Barrel.calculate disk.fileSystem {} ⟨"/p/c/"⟩).diagnostics.get?
      ⟨"/p/c/a.ts"⟩).getD []).map (·.code) = [Diagnostic.missingIdentifierCode] := by decide +kernel
  rwa [← kept] at found

end BarrelSynthesis
