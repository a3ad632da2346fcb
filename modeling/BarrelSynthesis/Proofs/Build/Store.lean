/-
# The barrels of a build

A build gives a barrel to the folder of every root file, unless one of the roots in it is an aggregator.
Roots come in any spelling. Aggregators are told by the name at the end of the spelled path, while the
folders of roots, the paths of barrels and the keys under which barrels are looked up are each normalized
on their own. As normalizing keeps a name at the end of a path, all of them speak of the same places: a
root at the path of a barrel would be an aggregator in the folder of this barrel. So no barrel hides a
root, and the barrels stand behind the roots of the program as they are.
-/
import BarrelSynthesis.Build
import BarrelSynthesis.Disk.Flat
import BarrelSynthesis.Proofs.Barrel.Listing
import BarrelSynthesis.Proofs.Imports.Resolution

namespace BarrelSynthesis

/-! ## Folders and the paths of their barrels -/

namespace Folder

variable {roots : List Path} {folder root : Path}

/-- A folder of some roots, none of which is an aggregator in it. -/
def NeedsBarrel (roots : List Path) (folder : Path) : Prop :=
  (∃ root ∈ roots, folderOf? root = some folder) ∧
    ∀ root ∈ roots, folderOf? root = some folder → Extension.isBarrelFile root = false

/-- The folder of a root is normalized. -/
theorem normalize_of_folderOf? (inside : folderOf? root = some folder) :
    folder.normalize = folder := by
  obtain ⟨parent, -, rfl⟩ := Option.map_eq_some_iff.mp inside
  exact parent.normalize_normalize

/-- The folders that are found without an aggregator are those that need a barrel. -/
theorem mem_withoutIndex_iff : folder ∈ withoutIndex roots ↔ NeedsBarrel roots folder := by
  constructor
  · intro member
    obtain ⟨listed, free⟩ := List.mem_filter.mp (mem_of_mem_distinctPaths member)
    refine ⟨List.mem_filterMap.mp listed, fun root isRoot inside => ?_⟩
    rw [Bool.not_eq_true', List.any_eq_false] at free
    cases isAggregator : Extension.isBarrelFile root with
    | false => rfl
    | true =>
        have aggregated : folder ∈ (roots.filter Extension.isBarrelFile).filterMap folderOf? :=
          List.mem_filterMap.mpr ⟨root, List.mem_filter.mpr ⟨isRoot, isAggregator⟩, inside⟩
        exact absurd (Path.same_iff.mpr rfl) (free folder aggregated)
  · rintro ⟨⟨root, isRoot, inside⟩, free⟩
    have normal := normalize_of_folderOf? inside
    have kept : folder ∈ (roots.filterMap folderOf?).filter fun folder =>
        !((roots.filter Extension.isBarrelFile).filterMap folderOf?).any (·.same folder) := by
      refine List.mem_filter.mpr ⟨List.mem_filterMap.mpr ⟨root, isRoot, inside⟩, ?_⟩
      rw [Bool.not_eq_true', List.any_eq_false]
      intro other aggregated same
      obtain ⟨source, listed, within⟩ := List.mem_filterMap.mp aggregated
      obtain ⟨isRoot, isAggregator⟩ := List.mem_filter.mp listed
      have one := Path.eq_of_components_eq (normalize_of_folderOf? within) normal
        (Path.same_iff.mp same)
      rw [free source isRoot (one ▸ within)] at isAggregator
      cases isAggregator
    -- Of the spellings of a folder the first one stays, and a normalized folder has one only.
    obtain ⟨other, member, same⟩ := exists_mem_distinctPaths kept
    have source := (List.mem_filter.mp (mem_of_mem_distinctPaths member)).1
    obtain ⟨_, -, within⟩ := List.mem_filterMap.mp source
    rwa [Path.eq_of_components_eq (normalize_of_folderOf? within) normal same] at member

/-- So is a folder that needs a barrel. -/
theorem NeedsBarrel.normal (needs : NeedsBarrel roots folder) : folder.normalize = folder := by
  obtain ⟨⟨root, -, inside⟩, -⟩ := needs
  exact normalize_of_folderOf? inside

/-- Its barrel is the aggregator in it. -/
theorem NeedsBarrel.barrelPath_eq (needs : NeedsBarrel roots folder) :
    barrelPath folder = folder.join ⟨Extension.barrelFileName⟩ := by
  rw [Resolution.barrelPath_eq_join, needs.normal]

/-- The folder of a barrel that is made for some roots is the folder it is made for. -/
theorem parent?_barrelPath_of_mem (member : folder ∈ withoutIndex roots) :
    (barrelPath folder).parent? = some folder := by
  rw [Resolution.parent?_barrelPath, (mem_withoutIndex_iff.mp member).normal]

/-- A file with a name at its end is that name in its folder. -/
theorem components_normalize_of_folderOf? {text : String} (named : root.fileName? = some text)
    (inside : folderOf? root = some folder) :
    root.normalize.components = folder.components ++ [.name text] := by
  obtain ⟨parent, below, shape⟩ := Path.exists_parent_of_fileName? named
  rw [folderOf?, below, Option.map_some, Option.some.injEq] at inside
  rw [Path.components_normalize, shape, Path.normalizeComponents_append_name, ← inside,
    Path.components_normalize]

/-- No root stands at the path of the barrel of a folder that needs one. -/
theorem NeedsBarrel.barrelPath_ne (needs : NeedsBarrel roots folder) (isRoot : root ∈ roots)
    (named : root.fileName?.isSome = true) :
    (barrelPath folder).components ≠ root.normalize.components := by
  intro same
  obtain ⟨text, named⟩ := Option.isSome_iff_exists.mp named
  obtain ⟨parent, below, -⟩ := Path.exists_parent_of_fileName? named
  have inside : folderOf? root = some parent.normalize := by rw [folderOf?, below, Option.map_some]
  rw [needs.barrelPath_eq, components_normalize_of_folderOf? named inside,
    Path.components_join_name folder Extension.isSegment_barrelFileName] at same
  obtain ⟨front, last⟩ := List.append_inj' same rfl
  have isBarrelName : text = Extension.barrelFileName := by simpa [eq_comm] using last
  subst isBarrelName
  have within := Path.eq_of_components_eq needs.normal parent.normalize_normalize front
  have free := needs.2 root isRoot (within ▸ inside)
  rw [isBarrelFile_of_fileName? named] at free
  cases free

end Folder

/-! ## The store of a build -/

/-- Calculating a barrel depends on the normalized folder only. -/
theorem Barrel.calculate_normalize (host : FileSystem) (options : CompilerOptions) (folder : Path) :
    calculate host options folder.normalize = calculate host options folder := by
  rw [calculate, calculate, Folder.files, Folder.files, folder.normalize_normalize]

namespace BarrelStore

variable {host : FileSystem} {options : CompilerOptions} {folders roots : List Path}
  {path root : Path}

/-- The barrel that belongs at a path: that of the folder of the path. -/
def barrelAt (host : FileSystem) (options : CompilerOptions) (path : Path) : Barrel :=
  (Barrel.calculate host options (path.parent?.getD path)).barrel

/-- At the path of its barrel a folder has what is calculated for it. -/
theorem barrelAt_barrelPath (host : FileSystem) (options : CompilerOptions) (folder : Path) :
    barrelAt host options (Folder.barrelPath folder) = (Barrel.calculate host options folder).barrel := by
  rw [barrelAt, Resolution.parent?_barrelPath, Option.getD_some, Barrel.calculate_normalize]

/-- The barrels of some folders are written one after the other. -/
theorem generateBarrels_store (host : FileSystem) (options : CompilerOptions) (folders : List Path) :
    (generateBarrels host options folders).1.barrels =
      PathMap.empty.writeAll
        ((folders.map Folder.barrelPath).map fun path => (path, barrelAt host options path)) := by
  rw [PathMap.writeAll, List.foldl_map, List.foldl_map]
  refine (List.foldl_hom (fun state : BarrelStore × DiagnosticCache => state.1.barrels)
    fun state folder => ?_).symm
  show _ = state.1.barrels.insert (Folder.barrelPath folder).normalize _
  rw [Folder.normalize_barrelPath, ← barrelAt_barrelPath]

/-- The store of a build holds the barrels of its folders. -/
theorem mem_generateBarrels_iff {barrel : Barrel} :
    (path, barrel) ∈ (generateBarrels host options folders).1.barrels.entries ↔
      path ∈ folders.map Folder.barrelPath ∧ barrelAt host options path = barrel := by
  rw [generateBarrels_store]
  apply PathMap.mem_writeAll_map_iff
  intro path listed
  obtain ⟨folder, -, rfl⟩ := List.mem_map.mp listed
  exact Folder.normalize_barrelPath folder

/-- The store has the barrels of the folders and no others. -/
theorem mem_paths_generateBarrels_iff :
    path ∈ (generateBarrels host options folders).1.paths ↔
      path ∈ folders.map Folder.barrelPath := by
  rw [paths, PathMap.mem_keys_iff]
  simp only [mem_generateBarrels_iff, exists_and_left, exists_eq', and_true]

/-- Under the barrel of each folder stands what is calculated for it. -/
theorem get?_generateBarrels (listed : path ∈ folders.map Folder.barrelPath) :
    (generateBarrels host options folders).1.get? path = some (barrelAt host options path) := by
  have normal : path.normalize = path := by
    obtain ⟨folder, -, rfl⟩ := List.mem_map.mp listed
    exact Folder.normalize_barrelPath folder
  rw [get?, normal]
  exact PathMap.get?_of_mem (mem_generateBarrels_iff.mpr ⟨listed, rfl⟩)

/-- Where a root stands, the store of a build has no barrel. -/
theorem contains_root_eq_false (isRoot : root ∈ roots) (named : root.fileName?.isSome = true) :
    (generateBarrels host options (Folder.withoutIndex roots)).1.contains root = false := by
  rw [Bool.eq_false_iff]
  intro present
  obtain ⟨key, listed, same⟩ := PathMap.contains_iff.mp present
  obtain ⟨folder, member, rfl⟩ := List.mem_map.mp (mem_paths_generateBarrels_iff.mp listed)
  exact (Folder.mem_withoutIndex_iff.mp member).barrelPath_ne isRoot named same

end BarrelStore

/-- Where no barrel stands, a host answers as the host does whose files it serves. -/
theorem BuildHost.answers_of_not_contains {host : BuildHost} {path : Path}
    (absent : host.store.contains path = false) :
    host.fileSystem.fileExists path = host.inner.fileExists path ∧
      host.fileSystem.fileText path = host.inner.fileText path := by
  have missing : host.store.get? path = none := by
    rw [BarrelStore.contains, PathMap.contains_eq_isSome_get?] at absent
    exact Option.isNone_iff_eq_none.mp (Option.isSome_eq_false_iff.mp absent)
  constructor
  · simp only [fileSystem, absent, Bool.false_or]
  · simp only [fileSystem, missing]

/-! ## The roots of a build -/

/-- Barrels that are told apart, and that no name is a spelling of, are put behind the names. -/
theorem BarrelProgram.rootFileNames_of_fresh (program : BarrelProgram)
    (fresh : ∀ barrel ∈ program.barrelFiles, ∀ name ∈ program.inner.rootFileNames,
      name.components ≠ barrel.components)
    (distinct : program.barrelFiles.Pairwise fun a b => a.components ≠ b.components) :
    program.rootFileNames = program.inner.rootFileNames ++ program.barrelFiles := by
  obtain ⟨inner, barrels, warnings⟩ := program
  have gathered (names : List Path)
      (fresh : ∀ barrel ∈ barrels, ∀ name ∈ names, name.components ≠ barrel.components) :
      barrels.foldl
        (fun names barrel => if names.any (·.same barrel) then names else names ++ [barrel])
        names = names ++ barrels := by
    clear * - distinct fresh
    induction barrels generalizing names with
    | nil => exact (List.append_nil _).symm
    | cons barrel rest ih =>
        obtain ⟨first, others⟩ := List.pairwise_cons.mp distinct
        have absent : names.any (·.same barrel) = false := by
          rw [List.any_eq_false]
          intro name listed same
          exact fresh barrel List.mem_cons_self name listed (Path.same_iff.mp same)
        rw [List.foldl_cons, absent, if_neg Bool.false_ne_true, ih others, List.append_assoc,
          List.singleton_append]
        intro other member name listed
        rcases List.mem_append.mp listed with listed | here
        · exact fresh other (List.mem_cons_of_mem _ member) name listed
        · rw [List.mem_singleton.mp here]
          exact first other member
  exact gathered inner.rootFileNames fresh

/-- The store of a build has one barrel for every folder of the roots in which none of them is an
aggregator, under the path of `index.ts` in the normalized folder, and no other. No root is hidden by a
barrel: the host of the build answers about it as the host of the program does. The roots of the built
program are those of the program as they are spelled, with the paths of the barrels behind them, each
once. -/
theorem build_barrels_hide_no_root (program : Program) (host : FileSystem) (transformImports : Bool)
    (named : ∀ root ∈ program.rootFileNames, root.fileName?.isSome = true) :
    let built := (program.transform host transformImports).1
    let served := (program.transform host transformImports).2
    (∀ path barrel, (path, barrel) ∈ served.store.barrels.entries ↔
      ∃ folder, Folder.NeedsBarrel program.rootFileNames folder ∧
        path = folder.join ⟨Extension.barrelFileName⟩ ∧
        barrel = (Barrel.calculate host program.options folder).barrel) ∧
      served.store.paths.Pairwise (fun a b => a.components ≠ b.components) ∧
      (∀ root ∈ program.rootFileNames,
        served.fileSystem.fileExists root = host.fileExists root ∧
          served.fileSystem.fileText root = host.fileText root) ∧
      built.rootFileNames = program.rootFileNames ++ served.store.paths := by
  intro built served
  have distinct : served.store.paths.Pairwise (fun a b => a.components ≠ b.components) :=
    served.store.barrels.ascending_keys.imp Path.components_ne_of_order_lt
  have absent : ∀ root ∈ program.rootFileNames, served.store.contains root = false :=
    fun root isRoot => BarrelStore.contains_root_eq_false isRoot (named root isRoot)
  refine ⟨fun path barrel => ?_, distinct,
    fun root isRoot => BuildHost.answers_of_not_contains (absent root isRoot), ?_⟩
  · rw [show (path, barrel) ∈ served.store.barrels.entries ↔ _ from
      BarrelStore.mem_generateBarrels_iff, List.mem_map]
    constructor
    · rintro ⟨⟨folder, member, rfl⟩, rfl⟩
      have needs := Folder.mem_withoutIndex_iff.mp member
      exact ⟨folder, needs, needs.barrelPath_eq, BarrelStore.barrelAt_barrelPath ..⟩
    · rintro ⟨folder, needs, rfl, rfl⟩
      rw [← needs.barrelPath_eq]
      exact ⟨⟨folder, Folder.mem_withoutIndex_iff.mpr needs, rfl⟩,
        BarrelStore.barrelAt_barrelPath ..⟩
  · refine built.rootFileNames_of_fresh (fun barrel member name listed same => ?_) distinct
    -- A root spelled like a barrel would be found in the store under its normalized path.
    have present : served.store.contains name = true := by
      refine PathMap.contains_iff.mpr ⟨barrel, member, ?_⟩
      obtain ⟨folder, -, rfl⟩ := List.mem_map.mp (BarrelStore.mem_paths_generateBarrels_iff.mp member)
      rw [Path.components_normalize, same, ← Path.components_normalize, Folder.normalize_barrelPath]
    rw [absent name listed] at present
    cases present

/-- Two spellings of one folder, and another folder whose aggregator is spelled with dots. -/
theorem build_of_spelled_roots_hides_no_root :
    let roots : List Path := [⟨"/x/../a.ts"⟩, ⟨"/./b.ts"⟩, ⟨"/c/v.ts"⟩, ⟨"/d/../c/index.js"⟩]
    let disk : Disk := .ofList [(⟨"/a.ts"⟩, "export let a"), (⟨"/b.ts"⟩, ""),
      (⟨"/c/v.ts"⟩, "export let v"), (⟨"/c/index.js"⟩, "")] []
    let program : Program := ⟨roots, {}, fun _ => []⟩
    let built := (program.transform disk.fileSystem true).1
    let served := (program.transform disk.fileSystem true).2
    (∀ root ∈ roots, root.fileName?.isSome = true) ∧ served.store.paths = [⟨"/index.ts"⟩] ∧
      built.rootFileNames = roots ++ [⟨"/index.ts"⟩] ∧
      ∀ root ∈ roots, served.fileSystem.fileText root = disk.fileSystem.fileText root := by
  intro roots disk program built served
  have named : ∀ root ∈ roots, root.fileName?.isSome = true := by decide
  obtain ⟨-, -, read, names⟩ := build_barrels_hide_no_root program disk.fileSystem true named
  have paths : served.store.paths = [⟨"/index.ts"⟩] := by decide
  exact ⟨named, paths, by rw [← paths]; exact names, fun root isRoot => (read root isRoot).2⟩

end BarrelSynthesis
