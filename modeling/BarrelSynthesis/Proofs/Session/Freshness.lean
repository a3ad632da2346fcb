/-
# Virtual barrels are current after an update

A session is driven by questions about files, by updates and by its queued tasks, while files change in
between. Every hydrated entry of its registry is the calculation of some earlier moment, and its text is
what the project was last told about the barrel. An update drops every barrel whose folder cannot hold
one and calculates those again whose folder has other files or other versions; what it leaves alone is
therefore what it would have calculated. So the update leaves no barrel behind the files.
-/
import BarrelSynthesis.Disk.Flat
import BarrelSynthesis.Proofs.Session.Record

namespace BarrelSynthesis

namespace Session

variable {moments : List Moment} {calls : List ProjectCall} {session : Session} {now : Moment}

/-! ## One barrel -/

/-- What holds of a barrel that is current at a moment: the project knows it, its folder is there and
has no aggregator on disk, and the barrel is what calculating the folder gives, in the registry as well
as in what the project was last told. -/
structure Current (now : Moment) (calls : List ProjectCall) (barrel : Path) (entry : BarrelEntry)
    (folder : Path) : Prop where
  known : now.project.hasScriptInfo barrel = true
  parent : barrel.parent? = some folder
  present : now.host.directoryExists folder = true
  virtual : ∀ file ∈ now.host.readDirectory folder, Extension.isBarrelFile file = false
  calculated : ∃ files, entry =
    .hydrated files (now.barrel folder).manifest (now.barrel folder).text
  pushed : pushedText? calls barrel = some (now.barrel folder).text

/-- There is room for a barrel in a folder that is there and has no aggregator on disk. -/
theorem canHoldBarrel_iff {host : FileSystem} {folder : Path} :
    canHoldBarrel host folder = true ↔ host.directoryExists folder = true ∧
      ∀ file ∈ host.readDirectory folder, Extension.isBarrelFile file = false := by
  rw [canHoldBarrel, Folder.hasAggregator, Bool.and_eq_true, Bool.not_eq_true', List.any_eq_false]
  simp only [Bool.not_eq_true]

/-- A barrel stays current while the project is told nothing new about it. -/
theorem Current.of_pushed {later : List ProjectCall} {barrel folder : Path} {entry : BarrelEntry}
    (current : Current now calls barrel entry folder)
    (pushed : pushedText? later barrel = pushedText? calls barrel) :
    Current now later barrel entry folder :=
  { current with pushed := pushed.trans current.pushed }

/-- A barrel that is found fresh is hydrated, and neither the listing nor any version differs from the
record. -/
theorem of_staleness_fresh {registry : Registry} {barrel : Path} {files : List Path}
    {version : Path → String} (fresh : (registry.staleness barrel files version).isStale = false) :
    ∃ recorded manifest text,
      registry.get? barrel = some (.hydrated recorded manifest text) ∧
        (Registry.listingOf files).map Path.components = recorded.keys.map Path.components ∧
        ∀ file recordedVersion, (file, recordedVersion) ∈ recorded.entries →
          version file = recordedVersion := by
  rw [Registry.staleness] at fresh
  cases found : registry.get? barrel with
  | none => simp [found, Staleness.isStale] at fresh
  | some entry =>
      cases entry with
      | registered => simp [found, Staleness.isStale] at fresh
      | hydrated recorded manifest text =>
          simp only [found] at fresh
          split at fresh
          · next listing =>
              refine ⟨recorded, manifest, text, rfl, listing, ?_⟩
              cases changed : recorded.entries.find? fun entry => version entry.1 ≠ entry.2 with
              | some entry =>
                  rw [changed] at fresh
                  cases fresh
              | none =>
                  intro file recordedVersion member
                  simpa using List.find?_eq_none.mp changed _ member
          · simp [Staleness.isStale] at fresh

/-- A listing that agrees with the record of an earlier moment has the files of that moment. -/
theorem mem_files_iff_of_listing {past : Moment} {folder : Path}
    (listing : (Registry.listingOf (now.files folder)).map Path.components =
      (past.recorded folder).keys.map Path.components) (file : Path) :
    file ∈ past.files folder ↔ file ∈ now.files folder := by
  have keysNormal : ∀ key ∈ (past.recorded folder).keys, key.normalize = key := fun _ listed =>
    Moment.normalize_of_mem_files (Moment.mem_keys_recorded_iff.mp listed)
  have members := (Registry.listingOf_eq_iff (past.recorded folder).ascending_keys
    (fun _ listed => Moment.normalize_of_mem_files listed) keysNormal).mp listing
  exact Moment.mem_keys_recorded_iff.symm.trans (members file)

/-- A barrel that is left alone is what would have been calculated for it. -/
theorem current_of_fresh {barrel folder : Path} {entry : BarrelEntry}
    (steady : Moment.Steady moments) (present : now ∈ moments)
    (recorded : Recorded moments calls session.registry)
    (known : now.project.hasScriptInfo barrel = true) (parent : barrel.parent? = some folder)
    (holds : canHoldBarrel now.host folder = true)
    (fresh : (session.registry.staleness barrel (now.files folder)
      (session.versionOf now.host now.project)).isStale = false)
    (member : (barrel, entry) ∈ session.registry.barrels.entries) :
    Current now calls barrel entry folder := by
  obtain ⟨path, snapshot⟩ := recorded barrel entry member
  obtain ⟨files, manifest, text, found, listing, versions⟩ := of_staleness_fresh fresh
  rw [Registry.get?, path.normal, PathMap.get?_of_mem member] at found
  obtain rfl := Option.some.inj found
  rcases snapshot with registered | ⟨past, pastPresent, home, pastParent, calculated, pushed⟩
  · cases registered
  obtain rfl := Option.some.inj (parent.symm.trans pastParent)
  rw [Moment.entry_eq] at calculated
  obtain ⟨rfl, rfl, rfl⟩ := BarrelEntry.hydrated.inj calculated
  have sameFiles := mem_files_iff_of_listing listing
  have sameVersions : ∀ file ∈ past.files folder, past.version file = now.version file := by
    intro file listed
    have unchanged := versions file _ (Moment.mem_recorded_iff.mpr ⟨listed, rfl⟩)
    rw [← unchanged]
    have reads := readsThrough_of_steady folder steady present recorded
    exact versionOf_of_readsThrough reads ((sameFiles file).mp listed)
  have same := Moment.barrel_eq_of_unchanged steady pastPresent present sameFiles sameVersions
  obtain ⟨there, virtual⟩ := canHoldBarrel_iff.mp holds
  rw [same] at pushed ⊢
  exact ⟨known, parent, there, virtual, ⟨_, rfl⟩, pushed⟩

/-- What updating one barrel can do to a session, and the calls that it makes. -/
inductive BarrelUpdate (now : Moment) (session : Session) (barrel : Path) :
    Session × List ProjectCall → Prop
  /-- The project does not know the barrel, and it is dropped. -/
  | unknown (unknown : now.project.hasScriptInfo barrel = false) :
      BarrelUpdate now session barrel
        ({ session with registry := session.registry.erase barrel }, [])
  /-- The barrel has no folder. -/
  | outermost (known : now.project.hasScriptInfo barrel = true) (parent : barrel.parent? = none) :
      BarrelUpdate now session barrel (session, [])
  /-- There is no room for the barrel in its folder, and it is dropped. -/
  | full (folder : Path) (known : now.project.hasScriptInfo barrel = true)
      (parent : barrel.parent? = some folder) (full : canHoldBarrel now.host folder = false) :
      BarrelUpdate now session barrel
        ({ session with registry := session.registry.erase barrel }, [.removeFile barrel])
  /-- The barrel is up to date, and it is left alone. -/
  | fresh (folder : Path) (known : now.project.hasScriptInfo barrel = true)
      (parent : barrel.parent? = some folder) (holds : canHoldBarrel now.host folder = true)
      (fresh : (session.registry.staleness barrel (now.files folder)
        (session.versionOf now.host now.project)).isStale = false) :
      BarrelUpdate now session barrel (session, [])
  /-- The barrel is calculated again. -/
  | stale (folder : Path) (known : now.project.hasScriptInfo barrel = true)
      (parent : barrel.parent? = some folder) (holds : canHoldBarrel now.host folder = true)
      (stale : (session.registry.staleness barrel (now.files folder)
        (session.versionOf now.host now.project)).isStale = true) :
      BarrelUpdate now session barrel
        (let calculation :=
          Barrel.calculate (session.served now.host) now.project.options folder
        ({ session with registry :=
            session.registry.upsert barrel (session.versionOf now.host now.project) calculation },
          [.editContent barrel calculation.barrel.text]))

/-- Updating one barrel does one of these five things. -/
theorem barrelUpdate (now : Moment) (session : Session) (barrel : Path) :
    BarrelUpdate now session barrel (session.updateBarrel now.host now.project barrel) := by
  rw [updateBarrel]
  cases known : now.project.hasScriptInfo barrel with
  | false => exact .unknown known
  | true =>
      cases parent : barrel.parent? with
      | none => exact .outermost known parent
      | some folder =>
          cases holds : canHoldBarrel now.host folder with
          | false => simpa [holds] using BarrelUpdate.full folder known parent holds
          | true =>
              simp only [Bool.not_true, Bool.false_eq_true, if_false, holds]
              split
              · next stale => exact .stale folder known parent holds stale
              · next fresh => exact .fresh folder known parent holds (Bool.eq_false_iff.mpr fresh)

/-- What updating one barrel does: it drops it, finds it fresh in a folder that can hold it, or
calculates it there and pushes its text. -/
theorem updateBarrel_cases {barrel : Path} (steady : Moment.Steady moments) (present : now ∈ moments)
    (recorded : Recorded moments calls session.registry) (isBarrel : IsBarrelPath barrel) :
    let after := session.updateBarrel now.host now.project barrel
    (after.1.registry = session.registry.erase barrel ∧
        ∀ other, ∀ call ∈ after.2, call.textFor? other = none) ∨
      ∃ folder, now.project.hasScriptInfo barrel = true ∧ barrel.parent? = some folder ∧
        canHoldBarrel now.host folder = true ∧
        (after = (session, []) ∧
            (session.registry.staleness barrel (now.files folder)
              (session.versionOf now.host now.project)).isStale = false ∨
          after.1.registry = ⟨session.registry.barrels.insert barrel (now.entry folder)⟩ ∧
            after.2 = [.editContent barrel (now.barrel folder).text]) := by
  intro after
  have update : BarrelUpdate now session barrel after := barrelUpdate now session barrel
  generalize after = reached at update ⊢
  cases update with
  | unknown => exact .inl ⟨rfl, fun _ _ made => nomatch made⟩
  | outermost _ outermost =>
      obtain ⟨folder, parent⟩ := isBarrel.parent
      rw [parent] at outermost
      cases outermost
  | full =>
      refine .inl ⟨rfl, fun other call made => ?_⟩
      obtain rfl := List.mem_singleton.mp made
      rfl
  | fresh folder known parent holds fresh =>
      exact .inr ⟨folder, known, parent, holds, .inl ⟨rfl, fresh⟩⟩
  | stale folder known parent holds =>
      have reads := readsThrough_of_steady folder steady present recorded
      refine .inr ⟨folder, known, parent, holds, .inr ⟨?_, ?_⟩⟩
      · show session.registry.upsert barrel _ _ = _
        rw [Registry.upsert, ofCalculation_of_readsThrough reads, isBarrel.normal]
      · show [ProjectCall.editContent barrel _] = _
        rw [calculate_of_readsThrough reads]

/-- Updating one barrel keeps the record, leaves this barrel current if it leaves it at all, and does
nothing to the others. -/
theorem updateBarrel_spec {barrel : Path} (steady : Moment.Steady moments) (present : now ∈ moments)
    (recorded : Recorded moments calls session.registry) (isBarrel : IsBarrelPath barrel) :
    let after := session.updateBarrel now.host now.project barrel
    Recorded moments (calls ++ after.2) after.1.registry ∧
      ∀ other entry, (other, entry) ∈ after.1.registry.barrels.entries →
        (other = barrel → ∃ folder, Current now (calls ++ after.2) other entry folder) ∧
        (other ≠ barrel → (other, entry) ∈ session.registry.barrels.entries ∧
          pushedText? (calls ++ after.2) other = pushedText? calls other) := by
  intro after
  rcases updateBarrel_cases steady present recorded isBarrel with
    ⟨dropped, silent⟩ | ⟨folder, known, parent, holds, ⟨kept, fresh⟩ | ⟨calculated, pushed⟩⟩
  · refine ⟨?_, fun other entry member => ?_⟩
    · rw [dropped]
      exact (recorded.erase barrel).append_silent silent
    · rw [dropped] at member
      obtain ⟨differs, member⟩ := PathMap.mem_erase_iff.mp member
      rw [isBarrel.normal] at differs
      refine ⟨fun same => absurd (congrArg Path.components same) differs, fun _ => ⟨member, ?_⟩⟩
      exact pushedText?_append_of_silent (silent other)
  · have unchanged : after = (session, []) := kept
    rw [unchanged, List.append_nil]
    refine ⟨recorded, fun other entry member => ⟨?_, fun _ => ⟨member, rfl⟩⟩⟩
    rintro rfl
    exact ⟨folder, current_of_fresh steady present recorded known parent holds fresh member⟩
  · have pushedHere : pushedText? (calls ++ after.2) barrel = some (now.barrel folder).text := by
      rw [pushed]
      exact pushedText?_append_editContent
    obtain ⟨there, virtual⟩ := canHoldBarrel_iff.mp holds
    have current : Current now (calls ++ after.2) barrel (now.entry folder) folder :=
      ⟨known, parent, there, virtual, ⟨_, now.entry_eq folder⟩, pushedHere⟩
    have elsewhere : ∀ other, IsBarrelPath other → other ≠ barrel →
        pushedText? (calls ++ after.2) other = pushedText? calls other := by
      intro other isOther differs
      rw [pushed]
      exact pushedText?_append_editContent_of_ne isBarrel isOther differs
    have entries : ∀ other entry, (other, entry) ∈ after.1.registry.barrels.entries →
        other = barrel ∧ entry = now.entry folder ∨
          other ≠ barrel ∧ (other, entry) ∈ session.registry.barrels.entries := by
      intro other entry member
      rw [calculated] at member
      exact recorded.mem_insert isBarrel member
    refine ⟨fun other entry member => ?_, fun other entry member => ?_⟩
    · rcases entries other entry member with ⟨rfl, rfl⟩ | ⟨differs, old⟩
      · exact ⟨isBarrel, .inr ⟨now, present, folder, parent, rfl, pushedHere⟩⟩
      · have stands := recorded other entry old
        exact stands.of_pushed (elsewhere other stands.path differs)
    · rcases entries other entry member with ⟨rfl, rfl⟩ | ⟨differs, old⟩
      · exact ⟨fun _ => ⟨folder, current⟩, fun differs => absurd rfl differs⟩
      · exact ⟨fun same => absurd same differs, fun _ => ⟨old,
          elsewhere other (recorded other entry old).path differs⟩⟩

/-! ## All barrels -/

/-- One step of an update of all barrels, with the calls made so far. -/
def updateNext (now : Moment) (state : Session × List ProjectCall) (barrel : Path) :
    Session × List ProjectCall :=
  let after := state.1.updateBarrel now.host now.project barrel
  (after.1, state.2 ++ after.2)

/-- An update of all barrels takes one step for each path of the registry. -/
theorem updateBarrels_eq (now : Moment) (session : Session) :
    session.updateBarrels now.host now.project =
      session.registry.paths.foldl (updateNext now) (session, []) := rfl

/-- Updating barrels one after the other keeps the record. When every barrel of the registry is current
or still to come, every one is current in the end. -/
theorem foldl_updateNext_spec {barrels : List Path} {state : Session × List ProjectCall}
    (steady : Moment.Steady moments) (present : now ∈ moments)
    (areBarrels : ∀ barrel ∈ barrels, IsBarrelPath barrel)
    (recorded : Recorded moments (calls ++ state.2) state.1.registry)
    (covered : ∀ barrel entry, (barrel, entry) ∈ state.1.registry.barrels.entries →
      barrel ∈ barrels ∨ ∃ folder, Current now (calls ++ state.2) barrel entry folder) :
    let after := barrels.foldl (updateNext now) state
    Recorded moments (calls ++ after.2) after.1.registry ∧
      ∀ barrel entry, (barrel, entry) ∈ after.1.registry.barrels.entries →
        ∃ folder, Current now (calls ++ after.2) barrel entry folder := by
  induction barrels generalizing state with
  | nil =>
      refine ⟨recorded, fun barrel entry member => ?_⟩
      exact (covered barrel entry member).resolve_left List.not_mem_nil
  | cons first rest ih =>
      have step := updateBarrel_spec steady present recorded (areBarrels first List.mem_cons_self)
      have restBarrels : ∀ barrel ∈ rest, IsBarrelPath barrel := fun barrel member =>
        areBarrels barrel (List.mem_cons_of_mem _ member)
      apply ih restBarrels
      · rw [updateNext, ← List.append_assoc]
        exact step.1
      · intro barrel entry member
        obtain ⟨here, elsewhere⟩ := step.2 barrel entry member
        rw [updateNext, ← List.append_assoc]
        by_cases same : barrel = first
        · exact .inr (here same)
        · obtain ⟨old, silent⟩ := elsewhere same
          rcases covered barrel entry old with listed | ⟨folder, current⟩
          · exact .inl ((List.mem_cons.mp listed).resolve_left same)
          · exact .inr ⟨folder, current.of_pushed silent⟩

/-- An update of all barrels keeps the record and leaves every barrel current. -/
theorem updateBarrels_spec (steady : Moment.Steady moments) (present : now ∈ moments)
    (recorded : Recorded moments calls session.registry) :
    let after := session.updateBarrels now.host now.project
    Recorded moments (calls ++ after.2) after.1.registry ∧
      ∀ barrel entry, (barrel, entry) ∈ after.1.registry.barrels.entries →
        ∃ folder, Current now (calls ++ after.2) barrel entry folder := by
  rw [updateBarrels_eq]
  apply foldl_updateNext_spec steady present
  · intro barrel listed
    exact recorded.of_mem_keys listed
  · rw [List.append_nil]
    exact recorded
  · intro barrel entry member
    exact .inl (PathMap.mem_keys_iff.mpr ⟨entry, member⟩)

/-- Updating the graph keeps the record. Telling the project so pushes no text. -/
theorem updateGraph_recorded (steady : Moment.Steady moments) (present : now ∈ moments)
    (recorded : Recorded moments calls session.registry) :
    let after := session.updateGraph now.host now.project
    Recorded moments (calls ++ after.2) after.1.registry := by
  have announced : Recorded moments (calls ++ [.updateGraph]) session.registry := by
    apply recorded.append_silent
    intro barrel call member
    obtain rfl := List.mem_singleton.mp member
    rfl
  have updated := (updateBarrels_spec steady present announced).1
  rw [List.append_assoc] at updated
  exact updated

/-! ## Tasks -/

/-- Doing a task keeps the record. -/
theorem runTask_recorded (steady : Moment.Steady moments) (present : now ∈ moments)
    (recorded : Recorded moments calls session.registry) (task : Task) :
    let after := session.runTask now.host now.project task
    Recorded moments (calls ++ after.2) after.1.registry := by
  cases task with
  | updateGraph => exact updateGraph_recorded steady present recorded
  | removeFile path =>
      apply recorded.append_silent
      intro barrel call member
      rw [runTask] at member
      split at member
      · obtain rfl := List.mem_singleton.mp member
        rfl
      · cases member

/-- One task of several, with the calls made so far. -/
def runNext (now : Moment) (state : Session × List ProjectCall) (task : Task) :
    Session × List ProjectCall :=
  let after := state.1.runTask now.host now.project task
  (after.1, state.2 ++ after.2)

/-- Doing several tasks keeps it. -/
theorem doTasks_recorded {tasks : List Task} (steady : Moment.Steady moments)
    (present : now ∈ moments) (recorded : Recorded moments calls session.registry) :
    let after := session.doTasks now.host now.project tasks
    Recorded moments (calls ++ after.2) after.1.registry := by
  have gathered (tasks : List Task) (state : Session × List ProjectCall)
      (recorded : Recorded moments (calls ++ state.2) state.1.registry) :
      Recorded moments (calls ++ (tasks.foldl (runNext now) state).2)
        (tasks.foldl (runNext now) state).1.registry := by
    induction tasks generalizing state with
    | nil => exact recorded
    | cons task rest ih =>
        apply ih
        rw [runNext, ← List.append_assoc]
        exact runTask_recorded steady present recorded task
  apply gathered tasks (session, [])
  rw [List.append_nil]
  exact recorded

/-- So does running the queue, which takes its tasks before it does them. -/
theorem runPendingTasks_recorded (steady : Moment.Steady moments) (present : now ∈ moments)
    (recorded : Recorded moments calls session.registry) :
    let after := session.runPendingTasks now.host now.project
    Recorded moments (calls ++ after.2) after.1.registry := by
  have drained : Recorded moments calls
      { session with tasks := session.tasks.drain.2 }.registry := recorded
  exact doTasks_recorded steady present drained

/-! ## Runs -/

/-- What is done with a session. -/
inductive Action
  /-- Asks whether a file exists. -/
  | probe (path : Path)
  /-- Resolves the module names of a file. -/
  | resolve (names : List String) (containingFile : Path)
  | updateBarrels
  | updateGraph
  /-- Does a single task. -/
  | runTask (task : Task)
  | runPendingTasks

/-- Does something with a session at a moment. -/
def act (moment : Moment) (session : Session) : Action → Session × List ProjectCall
  | .probe path => ((session.fileExists moment.host path).2, [])
  | .resolve names containingFile =>
    ((session.resolveModuleNames moment.host moment.project names containingFile).2, [])
  | .updateBarrels => session.updateBarrels moment.host moment.project
  | .updateGraph => session.updateGraph moment.host moment.project
  | .runTask task => session.runTask moment.host moment.project task
  | .runPendingTasks => session.runPendingTasks moment.host moment.project

/-- Does several things with a session, each at its moment, and gathers the calls to the project. -/
def run (session : Session) : List (Moment × Action) → Session × List ProjectCall
  | [] => (session, [])
  | (moment, action) :: later =>
    let first := act moment session action
    let rest := run first.1 later
    (rest.1, first.2 ++ rest.2)

/-- Every action keeps the record. -/
theorem act_recorded (steady : Moment.Steady moments) (present : now ∈ moments)
    (recorded : Recorded moments calls session.registry) (action : Action) :
    let after := act now session action
    Recorded moments (calls ++ after.2) after.1.registry := by
  cases action with
  | probe path =>
      show Recorded moments (calls ++ []) _
      rw [List.append_nil]
      exact fileExists_recorded now.host recorded path
  | resolve names containingFile =>
      show Recorded moments (calls ++ []) _
      rw [List.append_nil]
      exact resolveNames_recorded now.host recorded
  | updateBarrels => exact (updateBarrels_spec steady present recorded).1
  | updateGraph => exact updateGraph_recorded steady present recorded
  | runTask task => exact runTask_recorded steady present recorded task
  | runPendingTasks => exact runPendingTasks_recorded steady present recorded

/-- Any run keeps it. -/
theorem run_recorded {events : List (Moment × Action)} (steady : Moment.Steady moments)
    (present : ∀ event ∈ events, event.1 ∈ moments)
    (recorded : Recorded moments calls session.registry) :
    let after := session.run events
    Recorded moments (calls ++ after.2) after.1.registry := by
  induction events generalizing session calls with
  | nil =>
      show Recorded moments (calls ++ []) session.registry
      rw [List.append_nil]
      exact recorded
  | cons event later ih =>
      obtain ⟨moment, action⟩ := event
      have here : moment ∈ moments := present (moment, action) List.mem_cons_self
      have first := act_recorded steady here recorded action
      show Recorded moments (calls ++ ((act moment session action).2 ++ _)) _
      rw [← List.append_assoc]
      exact ih (fun event member => present event (List.mem_cons_of_mem _ member)) first

/-- However a session was driven while files changed, an update leaves every barrel that is still
registered current. -/
theorem updateBarrels_leaves_current (project : Project) (projectDirs : List Path)
    (events : List (Moment × Action)) (now : Moment)
    (steady : Moment.Steady (now :: events.map (·.1))) :
    let reached := (create project projectDirs).run events
    let after := reached.1.updateBarrels now.host now.project
    ∀ barrel ∈ after.1.registry.paths, ∃ folder entry,
      after.1.registry.get? barrel = some entry ∧
        Current now (reached.2 ++ after.2) barrel entry folder := by
  intro reached after barrel listed
  have created : Recorded (now :: events.map (·.1)) [] (create project projectDirs).registry :=
    Recorded.ofFolders _
  have present : ∀ event ∈ events, event.1 ∈ now :: events.map (·.1) := fun event member =>
    List.mem_cons_of_mem _ (List.mem_map_of_mem member)
  have recorded : Recorded (now :: events.map (·.1)) reached.2 reached.1.registry :=
    run_recorded steady present created
  obtain ⟨kept, current⟩ := updateBarrels_spec steady List.mem_cons_self recorded
  obtain ⟨entry, member⟩ := PathMap.mem_keys_iff.mp listed
  obtain ⟨folder, isCurrent⟩ := current barrel entry member
  refine ⟨folder, entry, ?_, isCurrent⟩
  rw [Registry.get?, (kept barrel entry member).path.normal]
  exact PathMap.get?_of_mem member

/-- The moment at which a project knows every file of a host and tracks its text as its version. -/
def trackingMoment (host : FileSystem) (options : CompilerOptions) : Moment where
  host := host
  project :=
    { rootFileNames := []
      scriptFileNames := []
      options := options
      scriptVersion := fun file => some (((host.fileText file).map fun text => "text " ++ text).getD "")
      hasScriptInfo := fun _ => true
      resolveModuleNames := fun _ _ => [] }

/-- Versions that are the texts themselves are equal only if the texts are. -/
theorem steady_trackingMoment (disks : List Disk) (options : CompilerOptions) :
    Moment.Steady (disks.map fun disk => trackingMoment disk.fileSystem options) where
  options := by
    intro first firstListed second secondListed
    obtain ⟨_, -, rfl⟩ := List.mem_map.mp firstListed
    obtain ⟨_, -, rfl⟩ := List.mem_map.mp secondListed
    rfl
  cased := by
    intro moment listed path
    obtain ⟨disk, -, rfl⟩ := List.mem_map.mp listed
    rfl
  versions := by
    intro first firstListed second secondListed file same
    obtain ⟨before, -, rfl⟩ := List.mem_map.mp firstListed
    obtain ⟨behind, -, rfl⟩ := List.mem_map.mp secondListed
    have tagged : ((before.fileText file).map fun text => "text " ++ text).getD "" =
        ((behind.fileText file).map fun text => "text " ++ text).getD "" := same
    show before.fileText file = behind.fileText file
    cases firstText : before.fileText file with
    | none =>
        cases secondText : behind.fileText file with
        | none => rfl
        | some text => simp [firstText, secondText] at tagged
    | some text =>
        cases secondText : behind.fileText file with
        | none => simp [firstText, secondText] at tagged
        | some other => simpa [firstText, secondText] using tagged

/-- The barrel of a folder whose one file is edited between two updates. -/
theorem updateBarrels_leaves_current_after_edit :
    let before := trackingMoment (Disk.ofList [(⟨"/p/a.ts"⟩, "export const a = 1;")] []).fileSystem {}
    let now := trackingMoment (Disk.ofList [(⟨"/p/a.ts"⟩, "export const b = 1;")] []).fileSystem {}
    let reached := (create before.project [⟨"/p"⟩]).run
      [(before, .probe ⟨"/p/index.ts"⟩), (before, .updateBarrels)]
    let after := reached.1.updateBarrels now.host now.project
    after.1.registry.paths = [⟨"/p/index.ts"⟩] ∧
      ∀ barrel ∈ after.1.registry.paths, ∃ folder entry,
        after.1.registry.get? barrel = some entry ∧
          Current now (reached.2 ++ after.2) barrel entry folder := by
  refine ⟨by decide +kernel, ?_⟩
  apply updateBarrels_leaves_current
  exact steady_trackingMoment
    [.ofList [(⟨"/p/a.ts"⟩, "export const b = 1;")] [],
     .ofList [(⟨"/p/a.ts"⟩, "export const a = 1;")] [],
     .ofList [(⟨"/p/a.ts"⟩, "export const a = 1;")] []] {}

end Session

end BarrelSynthesis
