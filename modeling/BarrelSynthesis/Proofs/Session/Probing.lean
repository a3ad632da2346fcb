/-
# Questions in any order

A question about a file is answered from the disk and from the registry, and may change the registry: it
drops the barrel in the place of a file on disk, or brings a barrel into a folder that has room for one.
While the disk stays as it is, none of this depends on the order of the questions. What one question does
leaves the answer to every other as it was, and two questions can be exchanged, up to the order in which
tasks are queued.

Sessions are compared by what they say of every path and of every task. Tasks are compared as the queue
does, by the components of their paths.
-/
import BarrelSynthesis.Disk.Flat
import BarrelSynthesis.Proofs.Barrel.Listing
import BarrelSynthesis.Session.Editing

namespace BarrelSynthesis

/-! ## Tasks -/

/-- A task is the same as all tasks that another one is the same as. -/
theorem Task.same_congr {first second : Task} (same : first.same second = true) (task : Task) :
    first.same task = second.same task := by
  cases first <;> cases second <;> cases task <;> simp_all [Task.same, Path.same]

/-- Queuing a task makes it wait, and no other. -/
theorem TaskQueue.isPending_schedule (queue : TaskQueue) (task other : Task) :
    (queue.schedule task).isPending other = (queue.isPending other || task.same other) := by
  rw [schedule]
  by_cases waits : queue.isPending task = true
  · rw [if_neg (by simp [accepts, waits])]
    obtain ⟨first, listed, same⟩ := List.any_eq_true.mp waits
    cases asked : task.same other with
    | false => rw [Bool.or_false]
    | true =>
        rw [Bool.or_true]
        exact List.any_eq_true.mpr ⟨first, listed, (Task.same_congr same other).trans asked⟩
  · rw [if_pos (by simp [accepts, waits]), isPending, isPending, List.any_append, List.any_cons,
      List.any_nil, Bool.or_false]

/-! ## Registries -/

namespace Registry

theorem isVirtual_eq (registry : Registry) (path : Path) :
    registry.isVirtual path = (registry.get? path).isSome :=
  PathMap.contains_eq_isSome_get? _ _

/-- A registry is asked by normalized paths, so spellings do not matter. -/
theorem get?_congr {registry : Registry} {first second : Path}
    (same : first.normalize = second.normalize) : registry.get? first = registry.get? second := by
  rw [get?, get?, same]

/-- Registering a barrel shows at its own path only, and keeps what is known there. -/
theorem get?_register (registry : Registry) (barrel path : Path) :
    (registry.register barrel).get? path = (registry.get? path).or
      (if barrel.normalize = path.normalize then some .registered else none) := by
  by_cases known : registry.isVirtual barrel = true
  · rw [register, if_pos known]
    split
    · next same =>
        rw [isVirtual_eq, get?_congr same, Option.isSome_iff_exists] at known
        obtain ⟨entry, found⟩ := known
        rw [found, Option.some_or]
    · rw [Option.or_none]
  · rw [register, if_neg known, get?, PathMap.get?_insert]
    simp only [Path.same_normalize_iff]
    split
    · next same =>
        rw [isVirtual_eq, get?_congr same, Bool.not_eq_true, Option.isSome_eq_false_iff,
          Option.isNone_iff_eq_none] at known
        rw [known, Option.none_or]
    · rw [Option.or_none]
      rfl

/-- Erasing a barrel shows at its own path only. -/
theorem get?_erase (registry : Registry) (barrel path : Path) :
    (registry.erase barrel).get? path =
      if barrel.normalize = path.normalize then none else registry.get? path := by
  rw [erase, get?, PathMap.get?_erase]
  simp only [Path.same_normalize_iff]
  rfl

end Registry

/-- A disk is asked by normalized paths, so spellings do not matter. -/
theorem Disk.fileExists_congr {disk : Disk} {first second : Path}
    (same : first.normalize = second.normalize) : disk.fileExists first = disk.fileExists second := by
  rw [Disk.fileExists, Disk.fileExists, same]

namespace Session

variable {session : Session} {host : FileSystem} {disk : Disk}

/-! ## What a session says -/

/-- Two sessions with the same folders that know the same barrels and have the same tasks waiting. -/
structure Agree (first second : Session) : Prop where
  dirs : first.projectDirs = second.projectDirs
  entries : ∀ path, first.registry.get? path = second.registry.get? path
  tasks : ∀ task, first.tasks.isPending task = second.tasks.isPending task

namespace Agree

variable {first second third : Session}

theorem refl (session : Session) : Agree session session :=
  ⟨rfl, fun _ => rfl, fun _ => rfl⟩

theorem symm (agree : Agree first second) : Agree second first :=
  ⟨agree.dirs.symm, fun path => (agree.entries path).symm, fun task => (agree.tasks task).symm⟩

theorem trans (left : Agree first second) (right : Agree second third) : Agree first third :=
  ⟨left.dirs.trans right.dirs, fun path => (left.entries path).trans (right.entries path),
    fun task => (left.tasks task).trans (right.tasks task)⟩

/-- Sessions that agree know the same barrels. -/
theorem isVirtual (agree : Agree first second) (path : Path) :
    first.isVirtual path = second.isVirtual path := by
  rw [Session.isVirtual, Session.isVirtual, Registry.isVirtual_eq, Registry.isVirtual_eq,
    agree.entries]

end Agree

theorem isVirtual_eq (session : Session) (path : Path) :
    session.isVirtual path = (session.registry.get? path).isSome :=
  Registry.isVirtual_eq _ _

/-- Whether a path is virtual does not depend on its spelling. -/
theorem isVirtual_congr {first second : Path} (same : first.normalize = second.normalize) :
    session.isVirtual first = session.isVirtual second := by
  rw [isVirtual_eq, isVirtual_eq, Registry.get?_congr same]

/-- Creating a barrel shows at its own path only, and keeps what is known there. -/
theorem get?_createBarrel (session : Session) (barrel path : Path) :
    (session.createBarrel barrel).registry.get? path = (session.registry.get? path).or
      (if barrel.normalize = path.normalize then some .registered else none) := by
  rw [← Registry.get?_register, createBarrel]
  split
  · next known =>
      have registered : session.registry.isVirtual barrel = true := known
      rw [Registry.register, if_pos registered]
  · rfl

/-- Creating a barrel asks for an update of the graph when the barrel is new. -/
theorem isPending_createBarrel (session : Session) (barrel : Path) (task : Task) :
    (session.createBarrel barrel).tasks.isPending task =
      (session.tasks.isPending task ||
        (!session.isVirtual barrel && Task.same .updateGraph task)) := by
  rw [createBarrel]
  split
  · next known => simp [known]
  · next unknown => simp [unknown, TaskQueue.isPending_schedule]

/-- Dropping a barrel shows at its own path only. -/
theorem get?_deleteBarrel (session : Session) (barrel path : Path) :
    (session.deleteBarrel barrel).registry.get? path =
      if barrel.normalize = path.normalize then none else session.registry.get? path := by
  rw [deleteBarrel]
  split
  · exact Registry.get?_erase _ _ _
  · next unknown =>
      split
      · next same =>
          rw [isVirtual_eq, Registry.get?_congr same, Bool.not_eq_true, Option.isSome_eq_false_iff,
            Option.isNone_iff_eq_none] at unknown
          exact unknown
      · rfl

/-- Dropping a known barrel asks for its removal and an update of the graph. -/
theorem isPending_deleteBarrel (session : Session) (barrel : Path) (task : Task) :
    (session.deleteBarrel barrel).tasks.isPending task =
      (session.tasks.isPending task ||
        (session.isVirtual barrel &&
          (Task.same (.removeFile barrel.normalize) task || Task.same .updateGraph task))) := by
  rw [deleteBarrel]
  split
  · next known => simp [known, TaskQueue.isPending_schedule, Bool.or_assoc]
  · next unknown => simp [unknown]

theorem projectDirs_createBarrel (session : Session) (barrel : Path) :
    (session.createBarrel barrel).projectDirs = session.projectDirs := by
  rw [createBarrel]
  split <;> rfl

theorem projectDirs_deleteBarrel (session : Session) (barrel : Path) :
    (session.deleteBarrel barrel).projectDirs = session.projectDirs := by
  rw [deleteBarrel]
  split <;> rfl

/-! ## What a question does -/

/-- What a question about a file does to a session. -/
inductive Deed
  | nothing
  | drop (barrel : Path)
  | bring (barrel : Path)
  deriving DecidableEq

/-- Does to a session what a question does. -/
def perform (session : Session) : Deed → Session
  | .nothing => session
  | .drop barrel => session.deleteBarrel barrel
  | .bring barrel => session.createBarrel barrel

/-- What a question about a file does to a session at a host. -/
def deed (host : FileSystem) (session : Session) (path : Path) : Deed :=
  let candidate := (host.casedPath path).normalize
  if host.fileExists path then .drop candidate
  else if session.isVirtual candidate || !session.isProjectPath candidate then .nothing
  else if (Extension.ofPath? candidate).isNone && host.directoryExists candidate then
    if Folder.hasAggregator host candidate then .nothing
    else .bring (candidate.join ⟨Extension.barrelFileName⟩)
  else if candidate.fileName? = some Extension.barrelFileName
      && (candidate.parent?.map (canHoldBarrel host)).getD false then
    .bring candidate
  else .nothing

/-- A question changes a session by its deed and by nothing else. -/
theorem fileExists_snd (host : FileSystem) (session : Session) (path : Path) :
    (session.fileExists host path).2 = session.perform (deed host session path) := by
  rw [fileExists, deed]
  cases host.fileExists path
  · cases session.isVirtual (host.casedPath path).normalize
    · cases session.isProjectPath (host.casedPath path).normalize
      · rfl
      · simp only [Bool.false_eq_true, if_false, Bool.not_true, Bool.or_false]
        split
        · split <;> rfl
        · split <;> rfl
    · rfl
  · rfl

/-- A barrel is another path than its folder. -/
theorem join_ne_self (folder : Path) : folder.join ⟨Extension.barrelFileName⟩ ≠ folder :=
  Path.join_name_ne_self Extension.isSegment_barrelFileName

/-- A file exists when it stands on disk, when its barrel is there already, and when it is the barrel
that the question brings. -/
theorem fileExists_fst (host : FileSystem) (session : Session) (path : Path) :
    (session.fileExists host path).1 = (host.fileExists path ||
      session.isVirtual (host.casedPath path).normalize ||
      decide (deed host session path = .bring (host.casedPath path).normalize)) := by
  rw [fileExists, deed]
  cases host.fileExists path
  · cases session.isVirtual (host.casedPath path).normalize
    · cases session.isProjectPath (host.casedPath path).normalize
      · simp
      · simp only [Bool.false_eq_true, if_false, Bool.not_true, Bool.or_false]
        split
        · split
          · simp
          · simp [join_ne_self]
        · split
          · simp
          · simp
    · simp
  · simp

/-! ## Where a question brings a barrel -/

/-- There is room for a barrel: it lies in the project, and its folder is there without an aggregator. -/
structure HasRoom (host : FileSystem) (session : Session) (barrel : Path) : Prop where
  project : session.isProjectPath barrel = true
  folder : ∃ folder : Path, folder.normalize = folder ∧ canHoldBarrel host folder = true ∧
    barrel = folder.join ⟨Extension.barrelFileName⟩

/-- Where a folder has room for a barrel, the path of the barrel is normal. -/
theorem HasRoom.normal {barrel : Path} (room : HasRoom host session barrel) :
    barrel.normalize = barrel := by
  obtain ⟨folder, normal, -, rfl⟩ := room.folder
  exact Path.normalize_join normal Extension.isSegment_barrelFileName

/-- The barrel of a folder of the project lies in the project. -/
theorem isProjectPath_join {folder : Path} (inside : session.isProjectPath folder = true) :
    session.isProjectPath (folder.join ⟨Extension.barrelFileName⟩) = true := by
  have shape := Path.components_join_name folder Extension.isSegment_barrelFileName
  simp only [isProjectPath, Bool.and_eq_true, Bool.not_eq_true', List.any_eq_true,
    Path.startsWith_iff, shape] at inside ⊢
  obtain ⟨outside, above, listed, starts⟩ := inside
  refine ⟨?_, above, listed, starts.trans (List.prefix_append _ _)⟩
  simpa [Extension.barrelFileName] using outside

/-- A question drops what stands in the place of a file on disk, and brings a barrel only where there is
room for it. -/
theorem deed_cases (host : FileSystem) (session : Session) (path : Path) :
    host.fileExists path = true ∧ deed host session path = .drop (host.casedPath path).normalize ∨
      host.fileExists path = false ∧ (deed host session path = .nothing ∨
        ∃ barrel, deed host session path = .bring barrel ∧ HasRoom host session barrel) := by
  rw [deed]
  cases present : host.fileExists path with
  | true => exact .inl ⟨rfl, rfl⟩
  | false =>
      refine .inr ⟨rfl, ?_⟩
      simp only [Bool.false_eq_true, if_false]
      split
      · exact .inl rfl
      next elsewhere =>
      simp only [Bool.or_eq_true, Bool.not_eq_true', not_or, Bool.not_eq_false] at elsewhere
      split
      · next isFolder =>
          split
          · exact .inl rfl
          · next free =>
              simp only [Bool.and_eq_true] at isFolder
              refine .inr ⟨_, rfl, isProjectPath_join elsewhere.2, _, Path.normalize_normalize _, ?_,
                rfl⟩
              simp [canHoldBarrel, isFolder.2, free]
      split
      · next lookup =>
          simp only [Bool.and_eq_true, decide_eq_true_eq] at lookup
          obtain ⟨named, holds⟩ := lookup
          obtain ⟨folder, normal, same⟩ :=
            Path.exists_folder_of_fileName? (Path.normalize_normalize _) named
          refine .inr ⟨_, rfl, elsewhere.2, folder, normal, ?_, same⟩
          rw [same, Path.parent?_join normal Extension.isSegment_barrelFileName] at holds
          exact holds
      · exact .inl rfl

/-- The question for a barrel that there is room for brings it, unless it is there. -/
theorem deed_eq_bring {path : Path} (missing : host.fileExists path = false)
    (unknown : session.isVirtual (host.casedPath path).normalize = false)
    (room : HasRoom host session (host.casedPath path).normalize) :
    deed host session path = .bring (host.casedPath path).normalize := by
  obtain ⟨folder, normal, holds, same⟩ := room.folder
  have named : (host.casedPath path).normalize.fileName? = some Extension.barrelFileName := by
    rw [same]
    exact Path.fileName?_join folder Extension.isSegment_barrelFileName
  have parent : (host.casedPath path).normalize.parent? = some folder := by
    rw [same]
    exact Path.parent?_join normal Extension.isSegment_barrelFileName
  have typed : (Extension.ofPath? (host.casedPath path).normalize).isNone = false := by
    rw [Extension.ofPath?, named]
    decide
  simp [deed, missing, unknown, room.project, typed, named, parent, holds]

/-- No file stands where there is room for a barrel. -/
theorem HasRoom.missing {barrel : Path} (room : HasRoom disk.fileSystem session barrel) :
    disk.fileExists barrel = false := by
  by_contra present
  obtain ⟨folder, normal, holds, same⟩ := room.folder
  rw [Bool.not_eq_false, Disk.fileExists, room.normal, PathMap.contains_iff] at present
  obtain ⟨file, listed, spelled⟩ := present
  rw [same, Path.components_join_name folder Extension.isSegment_barrelFileName] at spelled
  obtain ⟨parent, below, above⟩ := Path.exists_parent_of_components spelled
  have child : Disk.isChildOf folder file = true := by
    rw [Disk.isChildOf, below]
    exact Path.same_iff.mpr above
  have named : file.fileName? = some Extension.barrelFileName := by
    rw [Path.fileName?_eq_some_iff, spelled, List.getLast?_concat]
  have inside : file ∈ disk.fileSystem.readDirectory folder := by
    refine List.mem_filter.mpr ⟨listed, ?_⟩
    rw [normal]
    exact child
  have aggregator : Folder.hasAggregator disk.fileSystem folder = true :=
    List.any_eq_true.mpr ⟨file, inside, Folder.isBarrelFile_of_fileName? named⟩
  simp [canHoldBarrel, aggregator] at holds

/-! ## Two questions -/

theorem projectDirs_perform (session : Session) (deed : Deed) :
    (session.perform deed).projectDirs = session.projectDirs := by
  cases deed with
  | nothing => rfl
  | drop barrel => exact projectDirs_deleteBarrel session barrel
  | bring barrel => exact projectDirs_createBarrel session barrel

/-- What a question does depends on the folders of the project and on whether its path is virtual, and on
nothing else of a session. -/
theorem deed_congr {first second : Session} {path : Path}
    (dirs : first.projectDirs = second.projectDirs)
    (virtual : first.isVirtual (host.casedPath path).normalize =
      second.isVirtual (host.casedPath path).normalize) :
    deed host first path = deed host second path := by
  rw [deed, deed, virtual, isProjectPath, isProjectPath, dirs]

/-- On a disk, a path exists when there is a file, a barrel, or room for one that the question brings. -/
theorem fileExists_fst_disk (disk : Disk) (session : Session) (path : Path) :
    (session.fileExists disk.fileSystem path).1 = (disk.fileExists path ||
      session.isVirtual path.normalize ||
      decide (deed disk.fileSystem session path = .bring path.normalize)) :=
  fileExists_fst disk.fileSystem session path

/-- Where a file is, a question drops the barrel of its path. -/
theorem deed_of_present {path : Path} (present : disk.fileExists path = true) :
    deed disk.fileSystem session path = .drop path.normalize :=
  if_pos present

/-- Where a barrel is known and no file is, a question does nothing. -/
theorem deed_of_virtual {path : Path} (missing : disk.fileExists path = false)
    (known : session.isVirtual path.normalize = true) :
    deed disk.fileSystem session path = .nothing := by
  have absent : disk.fileSystem.fileExists path = false := missing
  have there : session.isVirtual (disk.fileSystem.casedPath path).normalize = true := known
  simp [deed, absent, there]

/-- Creating a barrel makes its own path virtual and no other. -/
theorem isVirtual_createBarrel (session : Session) (barrel path : Path) :
    (session.createBarrel barrel).isVirtual path =
      (session.isVirtual path || decide (barrel.normalize = path.normalize)) := by
  rw [isVirtual_eq, isVirtual_eq, get?_createBarrel, Option.isSome_or]
  split <;> simp [*]

/-- Dropping a barrel takes its own path and no other. -/
theorem isVirtual_deleteBarrel (session : Session) (barrel path : Path) :
    (session.deleteBarrel barrel).isVirtual path =
      (session.isVirtual path && !decide (barrel.normalize = path.normalize)) := by
  rw [isVirtual_eq, isVirtual_eq, get?_deleteBarrel]
  split <;> simp [*]

/-- After a question, a path without a file on disk is virtual as it was before, unless it is the barrel
that was brought; then a question for it would have brought it as well. -/
theorem isVirtual_after_question {path : Path} (asked : Path) (missing : disk.fileExists path = false) :
    let after := session.perform (deed disk.fileSystem session asked)
    after.isVirtual path.normalize = session.isVirtual path.normalize ∨
      after.isVirtual path.normalize = true ∧ session.isVirtual path.normalize = false ∧
        deed disk.fileSystem session path = .bring path.normalize := by
  intro after
  have done : after = session.perform (deed disk.fileSystem session asked) := rfl
  rcases deed_cases disk.fileSystem session asked with
    ⟨present, drops⟩ | ⟨-, nothing | ⟨barrel, brings, room⟩⟩
  · left
    have apart : asked.normalize ≠ path.normalize := by
      intro same
      have here : disk.fileExists asked = true := present
      rw [Disk.fileExists_congr same, missing] at here
      cases here
    have dropped : after = session.deleteBarrel asked.normalize := by
      rw [done, drops]
      rfl
    rw [dropped, isVirtual_deleteBarrel, Path.normalize_normalize, Path.normalize_normalize,
      decide_eq_false apart, Bool.not_false, Bool.and_true]
  · left
    rw [done, nothing]
    rfl
  · have brought : after = session.createBarrel barrel := by
      rw [done, brings]
      rfl
    rw [brought, isVirtual_createBarrel, Path.normalize_normalize, room.normal]
    by_cases same : barrel = path.normalize
    · cases known : session.isVirtual path.normalize with
      | true => exact .inl rfl
      | false =>
          rw [same] at room
          exact .inr ⟨by simp [same], rfl, deed_eq_bring missing known room⟩
    · left
      rw [decide_eq_false same, Bool.or_false]

/-- A question that another one has been asked before does what it would have done, and has the answer that
it would have had. -/
theorem after_question (disk : Disk) (session : Session) (asked path : Path) :
    let after := (session.fileExists disk.fileSystem asked).2
    (after.fileExists disk.fileSystem path).2 =
        after.perform (deed disk.fileSystem session path) ∧
      (after.fileExists disk.fileSystem path).1 = (session.fileExists disk.fileSystem path).1 := by
  intro after
  have done : after = session.perform (deed disk.fileSystem session asked) := fileExists_snd _ _ _
  have dirs : after.projectDirs = session.projectDirs := by
    rw [done, projectDirs_perform]
  rw [fileExists_snd, fileExists_fst_disk, fileExists_fst_disk]
  cases present : disk.fileExists path with
  | true =>
      rw [deed_of_present present, deed_of_present present]
      exact ⟨rfl, rfl⟩
  | false =>
      rcases isVirtual_after_question asked present with same | ⟨known, unknown, brings⟩
      · rw [← done] at same
        have deeds : deed disk.fileSystem after path = deed disk.fileSystem session path :=
          deed_congr dirs same
        rw [deeds, same]
        exact ⟨rfl, rfl⟩
      · rw [← done] at known
        have nothing : deed disk.fileSystem after path = .nothing :=
          deed_of_virtual present known
        have kept : after.createBarrel path.normalize = after := if_pos known
        rw [nothing, brings, known, unknown]
        exact ⟨kept.symm, by simp⟩

/-! ## Exchanging questions -/

/-- Barrels may be created in any order. -/
theorem createBarrel_comm (session : Session) (first second : Path) :
    Agree ((session.createBarrel first).createBarrel second)
      ((session.createBarrel second).createBarrel first) := by
  refine ⟨by simp only [projectDirs_createBarrel], fun path => ?_, fun task => ?_⟩
  · simp only [get?_createBarrel, Option.or_assoc]
    split <;> split <;> rfl
  · simp only [isPending_createBarrel, isVirtual_createBarrel]
    by_cases same : first.normalize = second.normalize
    · rw [isVirtual_congr same, same]
    · rw [decide_eq_false same, decide_eq_false (Ne.symm same), Bool.or_false, Bool.or_false,
        Bool.or_right_comm]

/-- Barrels may be dropped in any order. -/
theorem deleteBarrel_comm (session : Session) (first second : Path) :
    Agree ((session.deleteBarrel first).deleteBarrel second)
      ((session.deleteBarrel second).deleteBarrel first) := by
  refine ⟨by simp only [projectDirs_deleteBarrel], fun path => ?_, fun task => ?_⟩
  · simp only [get?_deleteBarrel]
    split <;> split <;> rfl
  · simp only [isPending_deleteBarrel, isVirtual_deleteBarrel]
    by_cases same : first.normalize = second.normalize
    · rw [isVirtual_congr same, same]
    · rw [decide_eq_false same, decide_eq_false (Ne.symm same), Bool.not_false, Bool.and_true,
        Bool.and_true, Bool.or_right_comm]

/-- Of two barrels of different paths, one may be dropped before or after the other is created. -/
theorem deleteBarrel_createBarrel_comm (session : Session) {dropped brought : Path}
    (apart : dropped.normalize ≠ brought.normalize) :
    Agree ((session.deleteBarrel dropped).createBarrel brought)
      ((session.createBarrel brought).deleteBarrel dropped) := by
  refine ⟨by simp only [projectDirs_createBarrel, projectDirs_deleteBarrel], fun path => ?_,
    fun task => ?_⟩
  · simp only [get?_createBarrel, get?_deleteBarrel]
    by_cases here : dropped.normalize = path.normalize
    · have elsewhere : brought.normalize ≠ path.normalize := fun there =>
        apart (here.trans there.symm)
      rw [if_pos here, if_pos here, if_neg elsewhere]
      rfl
    · rw [if_neg here, if_neg here]
  · simp only [isPending_createBarrel, isPending_deleteBarrel, isVirtual_createBarrel,
      isVirtual_deleteBarrel]
    rw [decide_eq_false apart, decide_eq_false (Ne.symm apart), Bool.or_false, Bool.not_false,
      Bool.and_true, Bool.or_right_comm]

/-- What two questions do can be exchanged: no barrel is brought where another question finds a file. -/
theorem perform_comm (disk : Disk) (session : Session) (first second : Path) :
    let left := deed disk.fileSystem session first
    let right := deed disk.fileSystem session second
    Agree ((session.perform left).perform right) ((session.perform right).perform left) := by
  intro left right
  have apart {asked barrel : Path} (present : disk.fileExists asked = true)
      (room : HasRoom disk.fileSystem session barrel) :
      asked.normalize.normalize ≠ barrel.normalize := by
    intro same
    rw [Path.normalize_normalize] at same
    rw [Disk.fileExists_congr same, room.missing] at present
    cases present
  rcases deed_cases disk.fileSystem session first with
    ⟨here, drops⟩ | ⟨-, nothing | ⟨barrel, brings, room⟩⟩
  · rcases deed_cases disk.fileSystem session second with
      ⟨-, dropsToo⟩ | ⟨-, nothing | ⟨barrel, brings, room⟩⟩
    · simp only [left, right, drops, dropsToo]
      exact deleteBarrel_comm _ _ _
    · simp only [left, right, nothing]
      exact .refl _
    · simp only [left, right, drops, brings]
      exact deleteBarrel_createBarrel_comm _ (apart here room)
  · simp only [left, right, nothing]
    exact .refl _
  · rcases deed_cases disk.fileSystem session second with
      ⟨there, drops⟩ | ⟨-, nothing | ⟨other, bringsToo, _⟩⟩
    · simp only [left, right, drops, brings]
      exact (deleteBarrel_createBarrel_comm _ (apart there room)).symm
    · simp only [left, right, nothing]
      exact .refl _
    · simp only [left, right, brings, bringsToo]
      exact createBarrel_comm _ _ _

/-- Questions in either order leave sessions that agree. -/
theorem question_comm (disk : Disk) (session : Session) (first second : Path) :
    Agree ((session.fileExists disk.fileSystem first).2.fileExists disk.fileSystem second).2
      ((session.fileExists disk.fileSystem second).2.fileExists disk.fileSystem first).2 := by
  rw [(after_question disk session first second).1, (after_question disk session second first).1,
    fileExists_snd, fileExists_snd]
  exact perform_comm disk session first second

/-- Sessions that agree answer a question alike and agree after it. -/
theorem Agree.question {first second : Session} (agree : Agree first second) (disk : Disk)
    (path : Path) :
    Agree (first.fileExists disk.fileSystem path).2 (second.fileExists disk.fileSystem path).2 ∧
      (first.fileExists disk.fileSystem path).1 = (second.fileExists disk.fileSystem path).1 := by
  have virtual := agree.isVirtual path.normalize
  have deeds : deed disk.fileSystem first path = deed disk.fileSystem second path :=
    deed_congr agree.dirs virtual
  rw [fileExists_snd, fileExists_snd, fileExists_fst_disk, fileExists_fst_disk, deeds, virtual]
  refine ⟨?_, rfl⟩
  cases deed disk.fileSystem second path with
  | nothing => exact agree
  | drop barrel =>
      refine ⟨?_, fun path => ?_, fun task => ?_⟩
      · simp only [perform, projectDirs_deleteBarrel, agree.dirs]
      · simp only [perform, get?_deleteBarrel, agree.entries]
      · simp only [perform, isPending_deleteBarrel, agree.tasks, agree.isVirtual]
  | bring barrel =>
      refine ⟨?_, fun path => ?_, fun task => ?_⟩
      · simp only [perform, projectDirs_createBarrel, agree.dirs]
      · simp only [perform, get?_createBarrel, agree.entries]
      · simp only [perform, isPending_createBarrel, agree.tasks, agree.isVirtual]

/-! ## Many questions -/

/-- Asks for files one after the other and keeps every answer with the path that was asked for. -/
def askAll (host : FileSystem) (session : Session) : List Path → List (Path × Bool) × Session
  | [] => ([], session)
  | path :: rest =>
    let first := session.fileExists host path
    let others := first.2.askAll host rest
    ((path, first.1) :: others.1, others.2)

/-- Every question of many has the answer that it has as the only one. -/
theorem askAll_fst (disk : Disk) (session : Session) (paths : List Path) :
    (session.askAll disk.fileSystem paths).1 =
      paths.map fun path => (path, (session.fileExists disk.fileSystem path).1) := by
  induction paths generalizing session with
  | nil => rfl
  | cons first rest ih =>
      rw [askAll, ih, List.map_cons]
      refine congrArg (List.cons _) (List.map_congr_left fun path _ => ?_)
      rw [(after_question disk session first path).2]

/-- Sessions that agree still do after the same questions. -/
theorem Agree.askAll {first second : Session} (agree : Agree first second) (disk : Disk)
    (paths : List Path) :
    Agree (first.askAll disk.fileSystem paths).2 (second.askAll disk.fileSystem paths).2 := by
  induction paths generalizing first second with
  | nil => exact agree
  | cons path rest ih =>
      rw [Session.askAll, Session.askAll]
      exact ih (agree.question disk path).1

/-- Questions in another order leave a session that agrees. -/
theorem askAll_perm (disk : Disk) (session : Session) {first second : List Path}
    (reordered : first.Perm second) :
    Agree (session.askAll disk.fileSystem first).2 (session.askAll disk.fileSystem second).2 := by
  induction reordered generalizing session with
  | nil => exact .refl _
  | cons path _ ih =>
      rw [askAll, askAll]
      exact ih _
  | swap first second rest =>
      simp only [askAll]
      exact (question_comm disk session second first).askAll disk rest
  | trans _ _ left right => exact (left session).trans (right session)

/-- While the disk stays as it is, the order of questions does not matter, whatever state a session is
in: every question has the same answer wherever it stands and however often it is repeated, the one it
has as the only question, and in the end the same barrels are registered and the same tasks wait. -/
theorem askAll_reordered (disk : Disk) (session : Session) (first second : List Path)
    (reordered : first.Perm second) :
    let answered := fun path => (path, (session.fileExists disk.fileSystem path).1)
    let left := session.askAll disk.fileSystem first
    let right := session.askAll disk.fileSystem second
    left.1 = first.map answered ∧ right.1 = second.map answered ∧
      (∀ path, left.2.registry.get? path = right.2.registry.get? path) ∧
      ∀ task, left.2.tasks.isPending task = right.2.tasks.isPending task := by
  intro answered left right
  have agree : Agree left.2 right.2 := askAll_perm disk session reordered
  exact ⟨askAll_fst disk session first, askAll_fst disk session second, agree.entries, agree.tasks⟩

/-- Three questions that drop a barrel and bring another. -/
theorem askAll_reordered_dropping_and_bringing :
    let disk : Disk := .ofList [(⟨"/c/a.ts"⟩, ""), (⟨"/d/index.ts"⟩, "")] []
    let session : Session := ⟨.ofFolders [⟨"/d"⟩], .empty, [⟨"/"⟩]⟩
    let first : List Path := [⟨"/c"⟩, ⟨"/c/index.ts"⟩, ⟨"/d/index.ts"⟩]
    let second : List Path := [⟨"/d/index.ts"⟩, ⟨"/c/index.ts"⟩, ⟨"/c"⟩]
    let left := session.askAll disk.fileSystem first
    let right := session.askAll disk.fileSystem second
    left.1.map (·.2) = [false, true, true] ∧ left.2.registry.paths = [⟨"/c/index.ts"⟩] ∧
      (∀ path, left.2.registry.get? path = right.2.registry.get? path) ∧
      ∀ task, left.2.tasks.isPending task = right.2.tasks.isPending task := by
  intro disk session first second left right
  obtain ⟨-, -, entries, tasks⟩ := askAll_reordered disk session first second (by decide)
  exact ⟨by decide +kernel, by decide +kernel, entries, tasks⟩

end Session

end BarrelSynthesis
