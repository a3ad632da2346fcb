/-
# Builds and sessions synthesize the same barrels

A build and an editing session both give a barrel to every folder of the root files that has no aggregator
among them, and both calculate it from the folder as the host lists it. They part in one place. A session
goes by the disk as well: an update drops the barrel of a folder that holds an aggregator on disk, even if
no root names it, so that what stands there is not hidden. A build goes by its roots alone.

So the barrels of a session are those of a build, with the same text and manifest, as far as their folders
hold no aggregator on disk; and the two are the same exactly when no folder that gets a barrel holds one.
-/
import BarrelSynthesis.Proofs.Build.Store
import BarrelSynthesis.Proofs.Disk.Contents
import BarrelSynthesis.Proofs.Session.Recalculation

namespace BarrelSynthesis

/-- The folder of a file on disk exists. -/
theorem Disk.folderExists_of_fileExists {disk : Disk} {file folder : Path} {text : String}
    (present : disk.fileExists file = true) (named : file.fileName? = some text)
    (inside : Folder.folderOf? file = some folder) : disk.folderExists folder = true := by
  obtain ⟨key, listed, same⟩ := PathMap.contains_iff.mp present
  have spelled : key.components = folder.normalize.components ++ [.name text] := by
    rw [same, Folder.components_normalize_of_folderOf? named inside,
      Folder.normalize_of_folderOf? inside]
  rw [folderExists_iff]
  refine .inr ⟨key, listed, ?_, ?_⟩
  · rw [spelled]
    exact List.prefix_append _ _
  · rw [spelled]
    exact fun equal => List.cons_ne_nil _ _ (List.append_right_eq_self.mp equal)

/-! ## The registry of a session -/

namespace Session

variable {project : Project} {projectDirs : List Path} {disk : Disk} {barrel folder path : Path}

theorem mem_paths_create_iff :
    path ∈ (create project projectDirs).registry.paths ↔
      path ∈ (Folder.withoutIndex project.rootFileNames).map Folder.barrelPath := by
  have orderly := Orderly.create project projectDirs
  constructor
  · intro listed
    have normal := orderly.barrels.isNormal path listed
    obtain ⟨entry, found⟩ := (orderly.mem_paths_iff normal).mp listed
    have registered := (Registry.get?_ofFolders _ path).symm.trans found
    rw [normal] at registered
    exact (Option.ite_none_right_eq_some.mp registered).1
  · intro member
    have normal : path.normalize = path := by
      obtain ⟨folder, -, rfl⟩ := List.mem_map.mp member
      exact Folder.normalize_barrelPath folder
    refine (orderly.mem_paths_iff normal).mpr ⟨.registered, ?_⟩
    refine (Registry.get?_ofFolders _ path).trans ?_
    rw [normal, if_pos member]

/-- A disk is asked for paths as they are spelled. -/
theorem noStandIn_create (disk : Disk) (project : Project) (projectDirs : List Path) :
    NoStandIn ⟨disk.fileSystem, project⟩ (create project projectDirs) :=
  noStandIn_of_cased (Orderly.create project projectDirs).barrels fun _ => rfl

/-- What a first update takes for granted: the root files are on disk, under ordinary names, and the project
knows the barrels that the session begins with. -/
structure Begins (disk : Disk) (project : Project) (projectDirs : List Path) : Prop where
  named : ∀ root ∈ project.rootFileNames, root.fileName?.isSome = true
  present : ∀ root ∈ project.rootFileNames, disk.fileExists root = true
  known : ∀ barrel ∈ (create project projectDirs).registry.paths, project.hasScriptInfo barrel = true

/-- The folder of a root can hold a barrel unless an aggregator is in it. -/
theorem Begins.canHoldBarrel_eq (begins : Begins disk project projectDirs)
    (listed : folder ∈ Folder.withoutIndex project.rootFileNames) :
    canHoldBarrel disk.fileSystem folder = !Folder.hasAggregator disk.fileSystem folder := by
  obtain ⟨root, isRoot, inside⟩ := (Folder.mem_withoutIndex_iff.mp listed).1
  obtain ⟨text, named⟩ := Option.isSome_iff_exists.mp (begins.named root isRoot)
  have there : disk.fileSystem.directoryExists folder = true :=
    Disk.folderExists_of_fileExists (begins.present root isRoot) named inside
  rw [canHoldBarrel, there, Bool.true_and]

/-- The first update of a session calculates the barrel of every folder without an aggregator on disk, and
drops the others. -/
theorem Begins.get?_updateGraph (begins : Begins disk project projectDirs)
    (listed : folder ∈ Folder.withoutIndex project.rootFileNames) :
    ((create project projectDirs).updateGraph disk.fileSystem project).1.registry.get?
        (Folder.barrelPath folder) =
      if Folder.hasAggregator disk.fileSystem folder then none
      else some (Moment.entry ⟨disk.fileSystem, project⟩ folder) := by
  let now : Moment := ⟨disk.fileSystem, project⟩
  have orderly := Orderly.create project projectDirs
  have clear := noStandIn_create disk project projectDirs
  have registered : Folder.barrelPath folder ∈ (create project projectDirs).registry.paths :=
    mem_paths_create_iff.mpr (List.mem_map_of_mem listed)
  have renewed := (updateGraph_renews clear orderly).2 _ (Folder.normalize_barrelPath folder)
  rw [if_pos registered] at renewed
  refine renewed.trans ?_
  have known := begins.known _ registered
  have parent := Folder.parent?_barrelPath_of_mem listed
  have room := begins.canHoldBarrel_eq listed
  cases holds : Folder.hasAggregator disk.fileSystem folder with
  | true =>
      rw [holds] at room
      rw [renew_of_full known parent room]
      rfl
  | false =>
      rw [holds] at room
      have fresh : (create project projectDirs).registry.get? (Folder.barrelPath folder) =
          some .registered := by
        refine (Registry.get?_ofFolders _ _).trans ?_
        rw [Folder.normalize_barrelPath, if_pos (List.mem_map_of_mem listed)]
      have stale : ((create project projectDirs).registry.staleness (Folder.barrelPath folder)
          (now.files folder) now.version).isStale = true := by
        rw [Registry.staleness, fresh]
        rfl
      rw [renew_of_room known parent room, if_pos stale]
      rfl

theorem Begins.mem_paths_updateGraph_iff (begins : Begins disk project projectDirs) :
    path ∈ ((create project projectDirs).updateGraph disk.fileSystem project).1.registry.paths ↔
      ∃ folder ∈ Folder.withoutIndex project.rootFileNames, Folder.barrelPath folder = path ∧
        Folder.hasAggregator disk.fileSystem folder = false := by
  let now : Moment := ⟨disk.fileSystem, project⟩
  have orderly := Orderly.create project projectDirs
  have clear := noStandIn_create disk project projectDirs
  have after := orderly.updateGraph now
  constructor
  · intro listed
    have registered := mem_paths_of_mem_paths_updateGraph clear orderly listed
    obtain ⟨folder, member, rfl⟩ := List.mem_map.mp (mem_paths_create_iff.mp registered)
    obtain ⟨entry, found⟩ := (after.mem_paths_iff (Folder.normalize_barrelPath folder)).mp listed
    rw [begins.get?_updateGraph member] at found
    exact ⟨folder, member, rfl,
      Bool.eq_false_iff.mpr (Option.ite_none_left_eq_some.mp found).1⟩
  · rintro ⟨folder, member, rfl, free⟩
    refine (after.mem_paths_iff (Folder.normalize_barrelPath folder)).mpr ⟨now.entry folder, ?_⟩
    refine (begins.get?_updateGraph member).trans ?_
    rw [free]
    rfl

/-- The folder that decides about a barrel is the one that the barrel was made for. -/
theorem any_parent?_barrelPath {roots : List Path} (listed : folder ∈ Folder.withoutIndex roots)
    (decides : Path → Bool) : (Folder.barrelPath folder).parent?.any decides = decides folder := by
  rw [Folder.parent?_barrelPath_of_mem listed, Option.any_some]

/-- A first update leaves those barrels of the folders without an aggregator among the roots whose folders
have none on disk either. -/
theorem Begins.paths_updateGraph (begins : Begins disk project projectDirs) {store : BarrelStore}
    (stored : ∀ path, path ∈ store.paths ↔
      path ∈ (Folder.withoutIndex project.rootFileNames).map Folder.barrelPath) :
    ((create project projectDirs).updateGraph disk.fileSystem project).1.registry.paths =
      store.paths.filter fun barrel =>
        !(barrel.parent?.any (Folder.hasAggregator disk.fileSystem)) := by
  apply Path.eq_of_mem_iff (PathMap.ascending_keys _) (store.barrels.ascending_keys.filter _)
  · intro path listed
    obtain ⟨folder, -, rfl, -⟩ := begins.mem_paths_updateGraph_iff.mp listed
    exact Folder.normalize_barrelPath folder
  · intro path
    refine begins.mem_paths_updateGraph_iff.trans ?_
    show _ ↔ path ∈ store.paths.filter _
    rw [List.mem_filter, stored, List.mem_map]
    constructor
    · rintro ⟨folder, listed, rfl, free⟩
      exact ⟨⟨folder, listed, rfl⟩, by rw [any_parent?_barrelPath listed, free]; rfl⟩
    · rintro ⟨⟨folder, listed, rfl⟩, free⟩
      rw [any_parent?_barrelPath listed, Bool.not_eq_true'] at free
      exact ⟨folder, listed, rfl, free⟩

end Session

/-! ## Agreement -/

/-- A session that is created for the roots of a program, and updated once, has those barrels of the build
whose folders hold no aggregator on disk, each with the text and the manifest that the build gives it. It
has all of them exactly when no folder that gets a barrel holds an aggregator. -/
theorem session_agrees_with_build (disk : Disk) (program : Program) (project : Project)
    (projectDirs : List Path) (transformImports : Bool)
    (roots : project.rootFileNames = program.rootFileNames)
    (options : project.options = program.options)
    (begins : Session.Begins disk project projectDirs) :
    let store := (program.transform disk.fileSystem transformImports).2.store
    let registry :=
      ((Session.create project projectDirs).updateGraph disk.fileSystem project).1.registry
    registry.paths =
        store.paths.filter (fun barrel =>
          !(barrel.parent?.any (Folder.hasAggregator disk.fileSystem))) ∧
      (∀ barrel ∈ registry.paths, ∃ built, store.get? barrel = some built ∧
        registry.text? barrel = some built.text ∧
        registry.manifest? barrel = some built.manifest) ∧
      (registry.paths = store.paths ↔ ∀ folder ∈ Folder.withoutIndex program.rootFileNames,
        Folder.hasAggregator disk.fileSystem folder = false) := by
  intro store registry
  have stored (path : Path) : path ∈ store.paths ↔
      path ∈ (Folder.withoutIndex program.rootFileNames).map Folder.barrelPath :=
    BarrelStore.mem_paths_generateBarrels_iff
  have kept := begins.paths_updateGraph (roots.symm ▸ stored)
  refine ⟨kept, fun barrel listed => ?_, ?_⟩
  · obtain ⟨folder, member, rfl, free⟩ := begins.mem_paths_updateGraph_iff.mp listed
    have calculated : registry.get? (Folder.barrelPath folder) =
        some (Moment.entry ⟨disk.fileSystem, project⟩ folder) := by
      refine (begins.get?_updateGraph member).trans ?_
      rw [free]
      rfl
    refine ⟨(Barrel.calculate disk.fileSystem program.options folder).barrel, ?_, ?_, ?_⟩
    · rw [← BarrelStore.barrelAt_barrelPath]
      exact BarrelStore.get?_generateBarrels (List.mem_map_of_mem (roots ▸ member))
    · rw [Registry.text?, calculated, ← options]
      rfl
    · rw [Registry.manifest?, calculated, ← options]
      rfl
  · show registry.paths = _ ↔ _
    rw [kept, List.filter_eq_self]
    simp only [stored, List.forall_mem_map]
    refine forall₂_congr fun folder listed => ?_
    rw [Session.any_parent?_barrelPath listed, Bool.not_eq_true']

/-- A folder with one file. -/
theorem session_agrees_with_build_on_file :
    let disk : Disk := .ofList [(⟨"/p/a.ts"⟩, "export const v = 1")] []
    let program : Program := ⟨[⟨"/p/a.ts"⟩], {}, fun _ => []⟩
    let project : Project :=
      ⟨[⟨"/p/a.ts"⟩], [], {}, fun _ => none, fun _ => true, fun _ _ => []⟩
    let store := (program.transform disk.fileSystem true).2.store
    let registry :=
      ((Session.create project [⟨"/p"⟩]).updateGraph disk.fileSystem project).1.registry
    Session.Begins disk project [⟨"/p"⟩] ∧ store.paths = [⟨"/p/index.ts"⟩] ∧
      registry.paths = store.paths := by
  intro disk program project store registry
  have begins : Session.Begins disk project [⟨"/p"⟩] :=
    ⟨by decide +kernel, by decide +kernel, fun _ _ => rfl⟩
  obtain ⟨-, -, same⟩ :=
    session_agrees_with_build disk program project [⟨"/p"⟩] true rfl rfl begins
  exact ⟨begins, by decide +kernel, same.mpr (by decide +kernel)⟩

/-- An aggregator on disk that is no root: the build puts a barrel beside it, and the session does not. -/
theorem session_drops_barrel_that_build_keeps :
    let disk : Disk := .ofList [(⟨"/p/a.ts"⟩, "export const v = 1"), (⟨"/p/index.js"⟩, "")] []
    let program : Program := ⟨[⟨"/p/a.ts"⟩], {}, fun _ => []⟩
    let project : Project :=
      ⟨[⟨"/p/a.ts"⟩], [], {}, fun _ => none, fun _ => true, fun _ _ => []⟩
    let store := (program.transform disk.fileSystem true).2.store
    let registry :=
      ((Session.create project [⟨"/p"⟩]).updateGraph disk.fileSystem project).1.registry
    Session.Begins disk project [⟨"/p"⟩] ∧ store.paths = [⟨"/p/index.ts"⟩] ∧
      registry.paths = [] := by
  intro disk program project store registry
  exact ⟨⟨by decide +kernel, by decide +kernel, fun _ _ => rfl⟩, by decide +kernel,
    by decide +kernel⟩

end BarrelSynthesis
