/-
# Stale removals

Dropping a barrel queues a task that has the project remove its file. The task is not taken back when the
barrel is registered again before the queue runs, and running it does not look at the registry: it removes
whatever the project knows under the path. A removal therefore evicts a registered barrel exactly when the
project knows the barrel, the barrel was registered when the queue began to run, and no update ran before
it that dropped the barrel. An update that runs first keeps the barrel as long as its folder has room.
-/
import BarrelSynthesis.Proofs.Session.Freshness
import BarrelSynthesis.Proofs.Session.Probing

namespace BarrelSynthesis

/-- Scheduling a task brings no other task into the queue. -/
theorem TaskQueue.mem_schedule {queue : TaskQueue} {task other : Task}
    (waits : other ∈ (queue.schedule task).pending) : other ∈ queue.pending ∨ other = task := by
  rw [schedule] at waits
  split at waits
  · exact (List.mem_append.mp waits).imp_right List.mem_singleton.mp
  · exact .inl waits

namespace Registry

/-- The barrels of a registry stand under paths of a kind. -/
def PathsAre (registry : Registry) (kind : Path → Prop) : Prop :=
  ∀ barrel ∈ registry.paths, kind barrel

namespace PathsAre

variable {registry : Registry} {kind : Path → Prop}

theorem empty : PathsAre .empty kind := fun _ listed => absurd listed List.not_mem_nil

/-- A registry that is written for a path of a kind holds paths of that kind only. -/
theorem insert (pathsAre : registry.PathsAre kind) {path : Path} (new : kind path.normalize)
    (entry : BarrelEntry) : PathsAre ⟨registry.barrels.insert path.normalize entry⟩ kind := by
  intro barrel listed
  obtain ⟨found, member⟩ := PathMap.mem_keys_iff.mp listed
  rcases PathMap.mem_insert member with ⟨-, -, rfl | known⟩ | ⟨-, kept⟩
  · exact new
  · exact pathsAre barrel known
  · exact pathsAre barrel (PathMap.mem_keys_iff.mpr ⟨found, kept⟩)

/-- Registering brings no path of another kind. -/
theorem register (pathsAre : registry.PathsAre kind) {path : Path} (new : kind path.normalize) :
    (registry.register path).PathsAre kind := by
  rw [Registry.register]
  split
  · exact pathsAre
  · exact pathsAre.insert new .registered

/-- Erasing brings no path at all. -/
theorem erase (pathsAre : registry.PathsAre kind) (path : Path) :
    (registry.erase path).PathsAre kind := by
  intro barrel listed
  obtain ⟨found, member⟩ := PathMap.mem_keys_iff.mp listed
  exact pathsAre barrel (PathMap.mem_keys_iff.mpr ⟨found, (PathMap.mem_erase_iff.mp member).2⟩)

/-- The barrels that a project begins with are of a kind when those of its folders are. -/
theorem ofFolders {folders : List Path}
    (each : ∀ folder ∈ folders, kind (Folder.barrelPath folder).normalize) :
    PathsAre (.ofFolders folders) kind := by
  rw [Registry.ofFolders]
  refine List.foldlRecOn (motive := fun registry : Registry => registry.PathsAre kind)
    _ _ empty fun registry pathsAre folder listed => ?_
  exact pathsAre.register (each folder listed)

end PathsAre

/-- The barrels of a registry stand under normalized paths. -/
def IsNormal (registry : Registry) : Prop :=
  registry.PathsAre fun path => path.normalize = path

/-- The path of a barrel is normal, so a registry of barrels is. -/
theorem PathsAre.isNormal {registry : Registry} (barrels : registry.PathsAre IsBarrelPath) :
    registry.IsNormal :=
  fun path listed => (barrels path listed).normal

namespace IsNormal

variable {registry : Registry}

/-- Paths are normalized before they are written, so a registry stays normal. -/
theorem insert (normal : registry.IsNormal) (path : Path) (entry : BarrelEntry) :
    IsNormal ⟨registry.barrels.insert path.normalize entry⟩ :=
  PathsAre.insert normal path.normalize_normalize entry

theorem register (normal : registry.IsNormal) (path : Path) : (registry.register path).IsNormal :=
  PathsAre.register normal path.normalize_normalize

theorem erase (normal : registry.IsNormal) (path : Path) : (registry.erase path).IsNormal :=
  PathsAre.erase normal path

/-- A project begins with a normal registry, however its folders are spelled. -/
theorem ofFolders (folders : List Path) : IsNormal (.ofFolders folders) :=
  PathsAre.ofFolders fun folder _ => (Folder.barrelPath folder).normalize_normalize

/-- A normalized path is virtual when it is listed. -/
theorem isVirtual_iff (normal : registry.IsNormal) {path : Path} (isNormal : path.normalize = path) :
    registry.isVirtual path = true ↔ path ∈ registry.paths := by
  rw [Registry.isVirtual, PathMap.contains_iff, isNormal]
  constructor
  · rintro ⟨barrel, listed, same⟩
    have one := Path.eq_of_components_eq (normal barrel listed) isNormal same
    exact one ▸ listed
  · exact fun listed => ⟨path, listed, rfl⟩

end IsNormal

/-- Writing the calculation of a barrel changes what is known of this barrel only. -/
theorem get?_upsert (registry : Registry) (barrel path : Path) (version : Path → String)
    (calculation : BarrelCalculation) :
    (registry.upsert barrel version calculation).get? path =
      if barrel.normalize = path.normalize then some (.ofCalculation version calculation)
      else registry.get? path := by
  rw [upsert, get?, PathMap.get?_insert]
  simp only [Path.same_normalize_iff]
  rfl

end Registry

namespace Session

variable {session : Session} {now : Moment}

/-! ## Normalized paths -/

/-- The barrels and the waiting removals of a session have normalized paths. -/
structure Tidy (session : Session) : Prop where
  barrels : session.registry.IsNormal
  removals : ∀ path, .removeFile path ∈ session.tasks.pending → path.normalize = path

/-- Creating a barrel registers a normalized path and asks for no removal. -/
theorem Tidy.createBarrel (tidy : Tidy session) (path : Path) : Tidy (session.createBarrel path) := by
  rw [Session.createBarrel]
  split
  · exact tidy
  · refine ⟨tidy.barrels.register path, fun removed waits => ?_⟩
    rcases TaskQueue.mem_schedule waits with before | new
    · exact tidy.removals removed before
    · cases new

/-- Dropping a barrel asks for its removal by its normalized path. -/
theorem Tidy.deleteBarrel (tidy : Tidy session) (path : Path) : Tidy (session.deleteBarrel path) := by
  rw [Session.deleteBarrel]
  split
  · refine ⟨tidy.barrels.erase path, fun removed waits => ?_⟩
    rcases TaskQueue.mem_schedule waits with earlier | new
    · rcases TaskQueue.mem_schedule earlier with before | same
      · exact tidy.removals removed before
      · obtain rfl := Task.removeFile.inj same
        exact path.normalize_normalize
    · cases new
  · exact tidy

/-- A question about a file creates or drops a barrel at most, and leaves the session tidy. -/
theorem Tidy.question (host : FileSystem) (tidy : Tidy session) (path : Path) :
    Tidy (session.fileExists host path).2 := by
  rw [fileExists_snd]
  cases deed host session path with
  | nothing => exact tidy
  | drop barrel => exact tidy.deleteBarrel barrel
  | bring barrel => exact tidy.createBarrel barrel

/-! ## What an update keeps -/

/-- The project knows a barrel, and its folder has room for it. -/
structure IsKept (now : Moment) (barrel : Path) : Prop where
  known : now.project.hasScriptInfo barrel = true
  room : ∀ folder, barrel.parent? = some folder → canHoldBarrel now.host folder = true

/-- A barrel is kept by an update when the project knows its file and its folder can still hold a barrel. -/
theorem IsKept.of_parent {barrel folder : Path} (known : now.project.hasScriptInfo barrel = true)
    (parent : barrel.parent? = some folder) (holds : canHoldBarrel now.host folder = true) :
    IsKept now barrel := by
  refine ⟨known, fun other same => ?_⟩
  obtain rfl := Option.some.inj (parent.symm.trans same)
  exact holds

/-- What updating one barrel does to a session: it drops the barrel, leaves it, or calculates it. -/
theorem updateBarrel_session (now : Moment) (session : Session) (barrel : Path) :
    let after := (session.updateBarrel now.host now.project barrel).1
    after.tasks = session.tasks ∧
      (¬IsKept now barrel ∧ after.registry = session.registry.erase barrel ∨
        IsKept now barrel ∧ (after.registry = session.registry ∨ ∃ version calculation,
          after.registry = session.registry.upsert barrel version calculation)) := by
  intro after
  have update := barrelUpdate now session barrel
  have here : after = (session.updateBarrel now.host now.project barrel).1 := rfl
  generalize session.updateBarrel now.host now.project barrel = reached at update here
  rw [here]
  cases update with
  | unknown unknown =>
      refine ⟨rfl, .inl ⟨fun kept => ?_, rfl⟩⟩
      rw [kept.known] at unknown
      cases unknown
  | outermost known outermost =>
      refine ⟨rfl, .inr ⟨⟨known, fun folder parent => ?_⟩, .inl rfl⟩⟩
      rw [outermost] at parent
      cases parent
  | full folder known parent full =>
      refine ⟨rfl, .inl ⟨fun kept => ?_, rfl⟩⟩
      rw [kept.room folder parent] at full
      cases full
  | fresh folder known parent holds =>
      exact ⟨rfl, .inr ⟨.of_parent known parent holds, .inl rfl⟩⟩
  | stale folder known parent holds =>
      exact ⟨rfl, .inr ⟨.of_parent known parent holds, .inr ⟨_, _, rfl⟩⟩⟩

/-- An update of one barrel writes or drops it, and leaves the session tidy. -/
theorem Tidy.updateBarrel (tidy : Tidy session) (now : Moment) (barrel : Path) :
    Tidy (session.updateBarrel now.host now.project barrel).1 := by
  obtain ⟨tasks, registry⟩ := updateBarrel_session now session barrel
  refine ⟨?_, fun path waits => tidy.removals path (tasks ▸ waits)⟩
  rcases registry with ⟨-, dropped⟩ | ⟨-, same | ⟨version, calculation, calculated⟩⟩
  · rw [dropped]
    exact tidy.barrels.erase barrel
  · rw [same]
    exact tidy.barrels
  · rw [calculated]
    exact tidy.barrels.insert barrel _

/-- Updating a barrel leaves the others as they are, and keeps the barrel if anything says so. -/
theorem isVirtual_updateBarrel (now : Moment) (session : Session) {barrel path : Path}
    (barrelNormal : barrel.normalize = barrel) (pathNormal : path.normalize = path) :
    let after := (session.updateBarrel now.host now.project barrel).1
    (path ≠ barrel → after.isVirtual path = session.isVirtual path) ∧
      (path = barrel → after.isVirtual path = true → IsKept now path) ∧
      (IsKept now path → session.isVirtual path = true → after.isVirtual path = true) := by
  intro after
  have entries : after.isVirtual path = (after.registry.get? path).isSome := isVirtual_eq _ _
  rw [entries, isVirtual_eq session]
  rcases (updateBarrel_session now session barrel).2 with
    ⟨notKept, dropped⟩ | ⟨kept, same | ⟨version, calculation, calculated⟩⟩
  · have erased : after.registry = session.registry.erase barrel := dropped
    rw [erased, Registry.get?_erase, barrelNormal, pathNormal]
    by_cases here : barrel = path
    · subst here
      simp [notKept]
    · simp [here, Ne.symm here]
  · have unchanged : after.registry = session.registry := same
    rw [unchanged]
    exact ⟨fun _ => rfl, fun here _ => here ▸ kept, fun _ known => known⟩
  · have written : after.registry = session.registry.upsert barrel version calculation := calculated
    rw [written, Registry.get?_upsert, barrelNormal, pathNormal]
    by_cases here : barrel = path
    · subst here
      simp [kept]
    · simp [here, Ne.symm here]

/-- Updating barrels one after the other: one that is not among them stays as it is, one that is among
them stays only if it is kept, and whatever is kept stays. -/
theorem isVirtual_foldl_updateNext (now : Moment) {barrels : List Path} {path : Path}
    (state : Session × List ProjectCall) (areNormal : ∀ barrel ∈ barrels, barrel.normalize = barrel)
    (pathNormal : path.normalize = path) :
    let after := (barrels.foldl (updateNext now) state).1
    (path ∉ barrels → after.isVirtual path = state.1.isVirtual path) ∧
      (path ∈ barrels → after.isVirtual path = true → IsKept now path) ∧
      (IsKept now path → state.1.isVirtual path = true → after.isVirtual path = true) := by
  induction barrels generalizing state with
  | nil => exact ⟨fun _ => rfl, fun listed => absurd listed List.not_mem_nil, fun _ known => known⟩
  | cons first rest ih =>
      have one := isVirtual_updateBarrel now state.1 (areNormal first List.mem_cons_self) pathNormal
      have others := ih (updateNext now state first) fun barrel listed =>
        areNormal barrel (List.mem_cons_of_mem _ listed)
      refine ⟨fun absent => ?_, fun listed virtual => ?_, fun kept known => ?_⟩
      · rw [List.mem_cons, not_or] at absent
        exact (others.1 absent.2).trans (one.1 absent.1)
      · by_cases later : path ∈ rest
        · exact others.2.1 later virtual
        · have here : path = first := (List.mem_cons.mp listed).resolve_right later
          exact one.2.1 here ((others.1 later).symm.trans virtual)
      · exact others.2.2 kept (one.2.2 kept known)

/-- An update of all barrels leaves the session tidy. -/
theorem Tidy.updateBarrels (tidy : Tidy session) (now : Moment) :
    Tidy (session.updateBarrels now.host now.project).1 := by
  rw [updateBarrels_eq]
  refine List.foldlRecOn (motive := fun (state : Session × List ProjectCall) => Tidy state.1)
    _ _ tidy fun state tidy barrel _ => ?_
  exact tidy.updateBarrel now barrel

/-- After an update exactly those barrels are registered that were and that it keeps. -/
theorem isVirtual_updateBarrels (tidy : Tidy session) (now : Moment) {path : Path}
    (normal : path.normalize = path) :
    (session.updateBarrels now.host now.project).1.isVirtual path = true ↔
      session.isVirtual path = true ∧ IsKept now path := by
  obtain ⟨absent, dropped, kept⟩ :=
    isVirtual_foldl_updateNext now (session, []) tidy.barrels normal
  rw [updateBarrels_eq]
  refine ⟨fun virtual => ?_, fun registered => kept registered.2 registered.1⟩
  by_cases listed : path ∈ session.registry.paths
  · exact ⟨(tidy.barrels.isVirtual_iff normal).mpr listed, dropped listed virtual⟩
  · have known : session.isVirtual path = true := (absent listed).symm.trans virtual
    exact absurd ((tidy.barrels.isVirtual_iff normal).mp known) listed

/-! ## Tasks -/

/-- Carrying out a task leaves the session tidy. -/
theorem Tidy.runTask (tidy : Tidy session) (now : Moment) (task : Task) :
    Tidy (session.runTask now.host now.project task).1 := by
  cases task with
  | updateGraph => exact tidy.updateBarrels now
  | removeFile path => exact tidy

/-- After a task a path is virtual when it was before, and, where the task is an update, when the barrel is
kept. -/
theorem isVirtual_runTask (tidy : Tidy session) (now : Moment) (task : Task) {path : Path}
    (normal : path.normalize = path) :
    (session.runTask now.host now.project task).1.isVirtual path = true ↔
      session.isVirtual path = true ∧ (task = .updateGraph → IsKept now path) := by
  cases task with
  | updateGraph =>
      refine (isVirtual_updateBarrels tidy now normal).trans (and_congr_right fun _ => ?_)
      exact ⟨fun kept _ => kept, fun kept => kept rfl⟩
  | removeFile other =>
      refine ⟨fun known => ⟨known, fun different => nomatch different⟩, fun known => known.1⟩

/-- Tasks are carried out one after the other, each with the calls of those before it behind them. -/
theorem doTasks_eq (now : Moment) (session : Session) (tasks : List Task) :
    session.doTasks now.host now.project tasks = tasks.foldl (runNext now) (session, []) := rfl

/-- Carrying out tasks leaves the session tidy. -/
theorem Tidy.doTasks (tidy : Tidy session) (now : Moment) (tasks : List Task) :
    Tidy (session.doTasks now.host now.project tasks).1 := by
  rw [doTasks_eq]
  refine List.foldlRecOn (motive := fun (state : Session × List ProjectCall) => Tidy state.1)
    _ _ tidy fun state tidy task _ => ?_
  exact tidy.runTask now task

/-- After some tasks exactly those barrels are registered that were, and that an update keeps if there is
one among the tasks. -/
theorem isVirtual_doTasks (tidy : Tidy session) (now : Moment) (tasks : List Task) {path : Path}
    (normal : path.normalize = path) :
    (session.doTasks now.host now.project tasks).1.isVirtual path = true ↔
      session.isVirtual path = true ∧ (.updateGraph ∈ tasks → IsKept now path) := by
  have gathered (tasks : List Task) (state : Session × List ProjectCall) (tidy : Tidy state.1) :
      (tasks.foldl (runNext now) state).1.isVirtual path = true ↔
        state.1.isVirtual path = true ∧ (.updateGraph ∈ tasks → IsKept now path) := by
    induction tasks generalizing state with
    | nil => simp
    | cons task rest ih =>
        have done : Tidy (runNext now state task).1 := tidy.runTask now task
        rw [List.foldl_cons, ih _ done, runNext, isVirtual_runTask tidy now task normal,
          List.mem_cons, and_assoc]
        refine and_congr_right fun _ => ?_
        constructor
        · rintro ⟨here, later⟩ (same | listed)
          · exact here same.symm
          · exact later listed
        · intro kept
          exact ⟨fun same => kept (.inl same.symm), fun listed => kept (.inr listed)⟩
  rw [doTasks_eq]
  exact gathered tasks (session, []) tidy

/-! ## Runs -/

theorem Tidy.drained (tidy : Tidy session) : Tidy { session with tasks := .empty } :=
  ⟨tidy.barrels, fun _ waits => absurd waits List.not_mem_nil⟩

/-- Emptying the queue and carrying out what was in it leaves the session tidy. -/
theorem Tidy.runPendingTasks (tidy : Tidy session) (now : Moment) :
    Tidy (session.runPendingTasks now.host now.project).1 :=
  tidy.drained.doTasks now session.tasks.drain.1

/-- No action leaves a session untidy. -/
theorem Tidy.act (tidy : Tidy session) (now : Moment) (action : Action) :
    Tidy (Session.act now session action).1 := by
  cases action with
  | probe path => exact tidy.question now.host path
  | resolve names containingFile =>
      exact resolveNames_keeps now.host (fun _ path tidy => tidy.question now.host path) tidy
  | updateBarrels => exact tidy.updateBarrels now
  | updateGraph => exact tidy.updateBarrels now
  | runTask task => exact tidy.runTask now task
  | runPendingTasks => exact tidy.runPendingTasks now

/-- A session begins tidy, with nothing waiting. -/
theorem tidy_create (project : Project) (projectDirs : List Path) :
    Tidy (create project projectDirs) :=
  ⟨.ofFolders _, fun _ waits => absurd waits List.not_mem_nil⟩

/-- A session that acts in changing surroundings stays tidy. -/
theorem Tidy.run (tidy : Tidy session) (events : List (Moment × Action)) :
    Tidy (session.run events).1 := by
  induction events generalizing session with
  | nil => exact tidy
  | cons event later ih => exact ih (tidy.act event.1 event.2)

/-! ## Removals -/

/-- Steps that gather calls put them behind those that were there. -/
theorem foldl_gather {State Item Call : Type} (step : State → Item → State × List Call)
    (items : List Item) (state : State × List Call) :
    let next := fun (state : State × List Call) item =>
      ((step state.1 item).1, state.2 ++ (step state.1 item).2)
    items.foldl next state =
      ((items.foldl next (state.1, [])).1, state.2 ++ (items.foldl next (state.1, [])).2) := by
  intro next
  induction items generalizing state with
  | nil => simp
  | cons item rest ih =>
      have alone : next (state.1, []) item = step state.1 item := rfl
      rw [List.foldl_cons, ih, List.foldl_cons, alone, ih (step state.1 item), ← List.append_assoc]

/-- Carrying out some tasks and then others is carrying out all of them. -/
theorem doTasks_append (now : Moment) (session : Session) (before after : List Task) :
    let first := session.doTasks now.host now.project before
    let rest := first.1.doTasks now.host now.project after
    session.doTasks now.host now.project (before ++ after) = (rest.1, first.2 ++ rest.2) := by
  intro first rest
  have whole : session.doTasks now.host now.project (before ++ after) =
      after.foldl (runNext now) first := List.foldl_append
  rw [whole]
  exact foldl_gather (runTask now.host now.project) after first

/-- The session at the moment at which a waiting task is done: those before it have been done. -/
def atTask (now : Moment) (session : Session) (before : List Task) : Session :=
  (doTasks now.host now.project { session with tasks := .empty } before).1

/-- Running the waiting tasks makes the calls of each of them where it stands. -/
theorem runPendingTasks_of_split {before after : List Task} {task : Task} (now : Moment)
    (waits : session.tasks.pending = before ++ task :: after) :
    ∃ earlier later, (session.runPendingTasks now.host now.project).2 =
      earlier ++ ((session.atTask now before).runTask now.host now.project task).2 ++ later := by
  have run : session.runPendingTasks now.host now.project =
      doTasks now.host now.project { session with tasks := .empty } (before ++ [task] ++ after) := by
    rw [List.append_assoc, List.singleton_append, ← waits]
    rfl
  have calls := congrArg Prod.snd (doTasks_append now { session with tasks := .empty } before [task])
  rw [run, doTasks_append, calls]
  exact ⟨_, _, rfl⟩

/-- Whenever the waiting tasks are run, a removal is made only of a path that is not registered at that
moment. -/
def RemovesOnlyDropped (now : Moment) (session : Session) : Prop :=
  ∀ before path after, session.tasks.pending = before ++ .removeFile path :: after →
    let reached := session.atTask now before
    .removeFile path ∈ (reached.runTask now.host now.project (.removeFile path)).2 →
      reached.isVirtual path = false

/-- The project is told to remove a file exactly when it knows the file. -/
theorem mem_runTask_removeFile {host : FileSystem} {project : Project} {path : Path} :
    .removeFile path ∈ (session.runTask host project (.removeFile path)).2 ↔
      project.hasScriptInfo path = true := by
  rw [runTask]
  split
  · next known => simp [known]
  · next unknown => simp [unknown]

/-- The first of the waiting tasks is done while the registry is still as it is. -/
theorem not_removesOnlyDropped_of_first {path : Path} {rest : List Task}
    (waits : session.tasks.pending = .removeFile path :: rest)
    (known : now.project.hasScriptInfo path = true) (virtual : session.isVirtual path = true) :
    ¬RemovesOnlyDropped now session := by
  intro removesOnlyDropped
  have absent := removesOnlyDropped [] path rest waits (mem_runTask_removeFile.mpr known)
  have present : (session.atTask now []).isVirtual path = true := virtual
  rw [present] at absent
  cases absent

/-- Running the waiting tasks of a session, however it was reached, evicts no registered barrel exactly
when every waiting removal of a path that is registered and known to the project stands behind an update
that finds no room for a barrel there. -/
theorem removesOnlyDropped_iff (project : Project) (projectDirs : List Path)
    (events : List (Moment × Action)) (now : Moment) :
    let session := ((create project projectDirs).run events).1
    RemovesOnlyDropped now session ↔
      ∀ before path after, session.tasks.pending = before ++ .removeFile path :: after →
        session.isVirtual path = true → now.project.hasScriptInfo path = true →
          .updateGraph ∈ before ∧
            ∃ folder, path.parent? = some folder ∧ canHoldBarrel now.host folder = false := by
  intro session
  have tidy : Tidy session := (tidy_create project projectDirs).run events
  refine forall_congr' fun before => forall_congr' fun path => forall_congr' fun after =>
    forall_congr' fun waits => ?_
  have normal : path.normalize = path := by
    apply tidy.removals
    rw [waits]
    exact List.mem_append_right _ List.mem_cons_self
  have registered : (session.atTask now before).isVirtual path = true ↔
      session.isVirtual path = true ∧ (.updateGraph ∈ before → IsKept now path) :=
    isVirtual_doTasks tidy.drained now before normal
  dsimp only
  rw [mem_runTask_removeFile, ← Bool.not_eq_true, registered, not_and, Classical.not_imp]
  constructor
  · intro dropped virtual known
    obtain ⟨updated, notKept⟩ := dropped known virtual
    refine ⟨updated, ?_⟩
    by_contra none
    refine notKept ⟨known, fun folder parent => ?_⟩
    by_contra full
    exact none ⟨folder, parent, by simpa using full⟩
  · intro dropped known virtual
    obtain ⟨updated, folder, parent, full⟩ := dropped virtual known
    refine ⟨updated, fun kept => ?_⟩
    rw [kept.room folder parent] at full
    cases full

/-- A barrel that is dropped for a file on disk and registered again once the file has gone, before the
queue runs, is evicted by the removal that still waits. -/
theorem reborn_barrel_is_evicted :
    let project : Project := ⟨[⟨"/p/c/a.ts"⟩], [], {}, fun _ => none, fun _ => true, fun _ _ => []⟩
    let source : Path × String := (⟨"/p/c/a.ts"⟩, "export const v = 1")
    let covered : Moment :=
      ⟨(Disk.ofList [source, (⟨"/p/c/index.ts"⟩, "export \x7b\x7d")] []).fileSystem, project⟩
    let now : Moment := ⟨(Disk.ofList [source] []).fileSystem, project⟩
    let session := ((create project [⟨"/p"⟩]).run
      [(covered, .probe ⟨"/p/c/index.ts"⟩), (now, .probe ⟨"/p/c/index.ts"⟩)]).1
    session.tasks.pending = [.removeFile ⟨"/p/c/index.ts"⟩, .updateGraph] ∧
      session.isVirtual ⟨"/p/c/index.ts"⟩ = true ∧ ¬RemovesOnlyDropped now session := by
  intro project source covered now session
  have waits : session.tasks.pending = [.removeFile ⟨"/p/c/index.ts"⟩, .updateGraph] := by
    decide +kernel
  have virtual : session.isVirtual ⟨"/p/c/index.ts"⟩ = true := by decide +kernel
  exact ⟨waits, virtual, not_removesOnlyDropped_of_first waits rfl virtual⟩

end Session

end BarrelSynthesis
