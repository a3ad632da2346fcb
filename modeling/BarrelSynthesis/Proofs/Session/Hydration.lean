/-
# Barrels that wait to be calculated

A barrel is registered before it is calculated: all at once when the session is created, or one by one as
questions bring them. A question that changes anything queues an update, and an update calculates every
barrel that it keeps. As long as the project asks nothing while it is told something, an update therefore
leaves no barrel without a calculation, and a barrel that a question has brought never waits for one that
is not queued.
-/
import BarrelSynthesis.Proofs.Session.History

namespace BarrelSynthesis

/-- After an update of the graph was asked for, one waits, the new one or one that waited already. -/
theorem TaskQueue.updateGraph_mem_schedule (queue : TaskQueue) :
    .updateGraph ∈ (queue.schedule .updateGraph).pending := by
  have pending : (queue.schedule .updateGraph).isPending .updateGraph = true := by
    rw [isPending_schedule]
    exact Bool.or_true _
  obtain ⟨task, waits, same⟩ := List.any_eq_true.mp pending
  cases task with
  | updateGraph => exact waits
  | removeFile path => cases same

namespace Session

/-- Whatever a question changes, an update waits afterwards. -/
theorem Change.updateGraph_mem_enqueue (queue : TaskQueue) (change : Change) :
    .updateGraph ∈ (change.enqueue queue).pending := by
  cases change with
  | brought barrel => exact queue.updateGraph_mem_schedule
  | dropped barrel => exact (queue.schedule (.removeFile barrel)).updateGraph_mem_schedule

/-- A barrel that updating one barrel leaves without a calculation is another one, and had none before. -/
theorem registered_of_updateBarrel {now : Moment} {session : Session} {barrel path : Path}
    (isBarrel : IsBarrelPath barrel)
    (waits : (session.updateBarrel now.host now.project barrel).1.registry.get? path =
      some .registered) :
    barrel ≠ path.normalize ∧ session.registry.get? path = some .registered := by
  have update := barrelUpdate now session barrel
  generalize session.updateBarrel now.host now.project barrel = reached at update waits
  have erased (gone : (session.registry.erase barrel).get? path = some .registered) :
      barrel ≠ path.normalize ∧ session.registry.get? path = some .registered := by
    rw [Registry.get?_erase, isBarrel.normal] at gone
    split at gone
    · cases gone
    · next differs => exact ⟨differs, gone⟩
  cases update with
  | unknown => exact erased waits
  | full => exact erased waits
  | outermost _ outermost =>
      obtain ⟨folder, parent⟩ := isBarrel.parent
      rw [parent] at outermost
      cases outermost
  | fresh folder _ _ _ fresh =>
      refine ⟨fun same => ?_, waits⟩
      obtain ⟨recorded, manifest, text, found, -⟩ := of_staleness_fresh fresh
      have here : session.registry.get? path = session.registry.get? barrel :=
        Registry.get?_congr (same.symm.trans isBarrel.normal.symm)
      rw [here, found] at waits
      cases waits
  | stale =>
      have written : (session.registry.upsert barrel _ _).get? path = some .registered := waits
      rw [Registry.get?_upsert, isBarrel.normal] at written
      split at written
      · cases written
      · next differs => exact ⟨differs, written⟩

/-- The project asks about no file while it is told something. -/
def Surroundings.Quiet (around : Surroundings) : Prop :=
  ∀ events, around.questions events = []

theorem quiet_still (now : Moment) : (Surroundings.still now).Quiet := fun _ => rfl

namespace History

variable {around : Surroundings} {history : History}

/-- A question changes nothing, or leaves an update waiting. -/
theorem ask_eq_self_or_updateGraph_mem (history : History) (path : Path) :
    history.ask around path = history ∨
      .updateGraph ∈ (history.ask around path).session.tasks.pending := by
  have asked := asked around history path
  generalize history.ask around path = after at asked
  cases asked with
  | unchanged => exact .inl rfl
  | dropped barrel known =>
      rw [deleteBarrel_of_known known]
      exact .inr (Change.updateGraph_mem_enqueue _ _)
  | brought barrel unknown =>
      rw [createBarrel_of_unknown unknown]
      exact .inr (Change.updateGraph_mem_enqueue _ _)

/-! ## What quiet surroundings leave alone -/

/-- A call is told to a project that asks nothing, and nothing happens but that. -/
theorem tell_of_quiet (quiet : around.Quiet) (history : History) (call : ProjectCall) :
    history.tell around call = history.note (.told call) := by
  rw [tell, quiet]
  rfl

/-- Telling a project that asks nothing leaves the session alone. -/
theorem session_foldl_tell (quiet : around.Quiet) (calls : List ProjectCall) (history : History) :
    (calls.foldl (tell around) history).session = history.session :=
  List.foldlRecOn (motive := fun (reached : History) => reached.session = history.session)
    calls _ rfl fun reached same call _ => by rw [tell_of_quiet quiet]; exact same

/-- With a project that asks nothing, an update of a barrel is the plain one. -/
theorem session_updateBarrel (quiet : around.Quiet) (history : History) (barrel : Path) :
    let now := around.moment history.events
    (history.updateBarrel around barrel).session =
      (history.session.updateBarrel now.host now.project barrel).1 :=
  session_foldl_tell quiet _ _

/-- A removal leaves the session alone, and no question changes anything meanwhile. -/
theorem runTask_removeFile (quiet : around.Quiet) (history : History) (path : Path) :
    let after := history.runTask around (.removeFile path)
    after.session = history.session ∧
      ∀ change, .changed change ∈ after.events → .changed change ∈ history.events := by
  have silent {event : Event} {reached : History} {change : Change}
      (listed : .changed change ∈ (reached.note event).events) (other : .changed change ≠ event) :
      .changed change ∈ reached.events :=
    (List.mem_append.mp listed).resolve_right fun new => other (List.mem_singleton.mp new)
  intro after
  have done : after = history.runTask around (.removeFile path) := rfl
  rw [runTask] at done
  split at done
  · rw [tell_of_quiet quiet] at done
    rw [done]
    exact ⟨rfl, fun change listed => silent (silent listed (by simp)) (by simp)⟩
  · rw [done]
    exact ⟨rfl, fun change listed => silent listed (by simp)⟩

/-- So do several tasks, unless an update is among them. -/
theorem foldl_runTask_of_removals (quiet : around.Quiet) {tasks : List Task}
    (removals : .updateGraph ∉ tasks) (history : History) :
    let after := tasks.foldl (runTask around) history
    after.session = history.session ∧
      ∀ change, .changed change ∈ after.events → .changed change ∈ history.events := by
  induction tasks generalizing history with
  | nil => exact ⟨rfl, fun _ listed => listed⟩
  | cons task rest ih =>
      rw [List.mem_cons, not_or] at removals
      cases task with
      | updateGraph => exact absurd rfl removals.1
      | removeFile path =>
          obtain ⟨session, changes⟩ := runTask_removeFile quiet history path
          obtain ⟨later, more⟩ := ih removals.2 (history.runTask around (.removeFile path))
          exact ⟨later.trans session, fun change listed => changes change (more change listed)⟩

/-! ## Updates -/

/-- Every barrel has been calculated. -/
def AllHydrated (history : History) : Prop :=
  ∀ path, history.session.registry.get? path ≠ some .registered

/-- A barrel without a calculation after the updates was none of those updated, and had no calculation
before. -/
theorem registered_of_foldl_updateBarrel (quiet : around.Quiet) {barrels : List Path}
    (areBarrels : ∀ barrel ∈ barrels, IsBarrelPath barrel) {path : Path}
    (waits : (barrels.foldl (updateBarrel around) history).session.registry.get? path =
      some .registered) :
    path.normalize ∉ barrels ∧ history.session.registry.get? path = some .registered := by
  induction barrels generalizing history with
  | nil => exact ⟨List.not_mem_nil, waits⟩
  | cons first rest ih =>
      obtain ⟨later, after⟩ := ih (fun barrel listed =>
        areBarrels barrel (List.mem_cons_of_mem _ listed)) waits
      rw [session_updateBarrel quiet] at after
      obtain ⟨differs, before⟩ :=
        registered_of_updateBarrel (areBarrels first List.mem_cons_self) after
      rw [List.mem_cons, not_or]
      exact ⟨⟨differs.symm, later⟩, before⟩

/-- An update of all barrels calculates every one of them. -/
theorem allHydrated_updateBarrels (quiet : around.Quiet)
    (isBarrel : history.session.registry.PathsAre IsBarrelPath) :
    (history.updateBarrels around).AllHydrated := by
  intro path waits
  obtain ⟨unlisted, before⟩ := registered_of_foldl_updateBarrel quiet isBarrel waits
  have virtual : history.session.registry.isVirtual path.normalize = true := by
    rw [Registry.isVirtual_eq, Registry.get?_congr path.normalize_normalize, before]
    rfl
  exact unlisted ((isBarrel.isNormal.isVirtual_iff path.normalize_normalize).mp virtual)

/-- An update of the graph calculates every barrel. -/
theorem allHydrated_updateGraph (quiet : around.Quiet)
    (isBarrel : history.session.registry.PathsAre IsBarrelPath) :
    (history.updateGraph around).AllHydrated := by
  rw [updateGraph, tell_of_quiet quiet]
  exact allHydrated_updateBarrels quiet isBarrel

/-- Whether every barrel is calculated depends on the session only. -/
theorem AllHydrated.of_session {after : History} (hydrated : history.AllHydrated)
    (same : after.session = history.session) : after.AllHydrated := by
  rw [AllHydrated, same]
  exact hydrated

/-- Doing tasks keeps every barrel calculated, and an update among them calculates every barrel. -/
theorem allHydrated_foldl_runTask (quiet : around.Quiet) {tasks : List Task} (sound : history.Sound)
    (updates : history.AllHydrated ∨ .updateGraph ∈ tasks) :
    (tasks.foldl (runTask around) history).AllHydrated := by
  induction tasks generalizing history with
  | nil => exact updates.resolve_right List.not_mem_nil
  | cons task rest ih =>
      apply ih ((Sound.lasts around).runTask sound task)
      cases task with
      | updateGraph => exact .inl (allHydrated_updateGraph quiet sound.barrels)
      | removeFile path =>
          obtain ⟨session, -⟩ := runTask_removeFile quiet history path
          rcases updates with hydrated | listed
          · exact .inl (hydrated.of_session session)
          · exact .inr ((List.mem_cons.mp listed).resolve_left Task.noConfusion)

/-- Running the queue calculates every barrel when an update waits in it. -/
theorem allHydrated_runPendingTasks (quiet : around.Quiet) (sound : history.Sound)
    (updates : .updateGraph ∈ history.session.tasks.pending) :
    (history.runPendingTasks around).AllHydrated :=
  allHydrated_foldl_runTask quiet sound.drained (.inr updates)

/-! ## Runs -/

/-- Where a barrel has not been calculated, an update waits, or else the barrel is one that the session
began with and that no question has brought. -/
def Awaited (start : Session) (history : History) : Prop :=
  ∀ barrel, history.session.registry.get? barrel = some .registered →
    .updateGraph ∈ history.session.tasks.pending ∨
      start.registry.get? barrel = some .registered ∧
        .changed (.brought barrel.normalize) ∉ history.events

namespace Awaited

variable {start : Session}

/-- Where every barrel is calculated, none waits for an update. -/
theorem of_allHydrated (hydrated : history.AllHydrated) : Awaited start history :=
  fun barrel waits => absurd waits (hydrated barrel)

/-- A question that registers a barrel leaves an update waiting for it. -/
theorem ask (awaited : Awaited start history) (path : Path) :
    Awaited start (history.ask around path) := by
  rcases ask_eq_self_or_updateGraph_mem history path with same | updates
  · rw [same]
    exact awaited
  · exact fun _ _ => .inl updates

/-- The queue is emptied, but what made a barrel wait for an update has been done then. -/
theorem runPendingTasks (awaited : Awaited start history) (quiet : around.Quiet)
    (sound : history.Sound) : Awaited start (history.runPendingTasks around) := by
  by_cases updates : .updateGraph ∈ history.session.tasks.pending
  · exact .of_allHydrated (allHydrated_runPendingTasks quiet sound updates)
  · intro barrel waits
    obtain ⟨session, changes⟩ := foldl_runTask_of_removals quiet updates history.drained
    have registry : (history.runPendingTasks around).session.registry = history.session.registry := by
      have same : (history.runPendingTasks around).session = history.drained.session := session
      rw [same]
      rfl
    rw [registry] at waits
    obtain ⟨began, unbrought⟩ := (awaited barrel waits).resolve_left updates
    refine .inr ⟨began, fun brought => unbrought ?_⟩
    exact (List.mem_append.mp (changes _ brought)).resolve_right (by simp)

/-- A step of a quiet project leaves no barrel waiting for an update that is not pending. -/
theorem act (awaited : Awaited start history) (quiet : around.Quiet) (sound : history.Sound)
    (step : Step) : Awaited start (history.act around step) := by
  cases step with
  | probe path => exact awaited.ask path
  | updateBarrels => exact .of_allHydrated (allHydrated_updateBarrels quiet sound.barrels)
  | updateGraph => exact .of_allHydrated (allHydrated_updateGraph quiet sound.barrels)
  | runPendingTasks => exact awaited.runPendingTasks quiet sound

/-- A run of a quiet project leaves no barrel waiting for an update that is not pending. -/
theorem run (awaited : Awaited start history) (sound : history.Sound)
    {steps : List (Surroundings × Step)} (quiet : ∀ step ∈ steps, step.1.Quiet) :
    Awaited start (history.run steps) := by
  induction steps generalizing history with
  | nil => exact awaited
  | cons step rest ih =>
      have here := quiet step List.mem_cons_self
      exact ih (awaited.act here sound step.2) (sound.act step.1 step.2) fun later listed =>
        quiet later (List.mem_cons_of_mem _ listed)

end Awaited

end History

/-- However a session was driven by a project that asks nothing while it is told something: where a barrel
has not been calculated, an update waits in the queue, or else the barrel is one that the session began
with and that no question has brought. Updates leave no barrel without a calculation, and neither does
running the queue when an update waits there. -/
theorem brought_barrel_awaits_update (project : Project) (projectDirs : List Path)
    (steps : List (Surroundings × Step)) (quiet : ∀ step ∈ steps, step.1.Quiet) :
    let reached := (History.begin project projectDirs).run steps
    (∀ barrel, reached.session.registry.get? barrel = some .registered →
        .updateGraph ∈ reached.session.tasks.pending ∨
          (create project projectDirs).registry.get? barrel = some .registered ∧
            .changed (.brought barrel.normalize) ∉ reached.events) ∧
      ∀ around : Surroundings, around.Quiet → ∀ path,
        (reached.updateBarrels around).session.registry.get? path ≠ some .registered ∧
          (reached.updateGraph around).session.registry.get? path ≠ some .registered ∧
          (.updateGraph ∈ reached.session.tasks.pending →
            (reached.runPendingTasks around).session.registry.get? path ≠ some .registered) := by
  intro reached
  have start := History.sound_begin project projectDirs
  have sound : reached.Sound := start.run steps
  have begun : History.Awaited (create project projectDirs) (.begin project projectDirs) :=
    fun _ waits => .inr ⟨waits, List.not_mem_nil⟩
  refine ⟨begun.run start quiet, fun around quiet path => ⟨?_, ?_, fun updates => ?_⟩⟩
  · exact History.allHydrated_updateBarrels quiet sound.barrels path
  · exact History.allHydrated_updateGraph quiet sound.barrels path
  · exact History.allHydrated_runPendingTasks quiet sound updates path

/-- A barrel is registered only, as long as it is known and not hydrated. -/
theorem get?_eq_registered_iff {registry : Registry} {path : Path} :
    registry.get? path = some .registered ↔
      (registry.get? path).map BarrelEntry.isHydrated = some false := by
  cases registry.get? path with
  | none => simp
  | some entry => cases entry <;> simp [BarrelEntry.isHydrated]

/-- A folder whose barrel is asked for: the barrel waits for an update, and running the queue calculates
it. -/
theorem barrel_of_new_folder_awaits_update :
    let project : Project := ⟨[], [], {}, fun _ => none, fun _ => true, fun _ _ => []⟩
    let now : Moment :=
      ⟨(Disk.ofList [(⟨"/p/c/a.ts"⟩, "export const v = 1")] []).fileSystem, project⟩
    let reached := (History.begin project [⟨"/p"⟩]).run [(.still now, .probe ⟨"/p/c/index.ts"⟩)]
    reached.session.registry.get? ⟨"/p/c/index.ts"⟩ = some .registered ∧
      .updateGraph ∈ reached.session.tasks.pending ∧
      (reached.runPendingTasks (.still now)).session.registry.get? ⟨"/p/c/index.ts"⟩ ≠
        some .registered := by
  intro project now reached
  have asked : ∀ step ∈ [(Surroundings.still now, Step.probe ⟨"/p/c/index.ts"⟩)], step.1.Quiet :=
    fun step listed => by
      rw [List.mem_singleton.mp listed]
      exact quiet_still now
  have all := brought_barrel_awaits_update project [⟨"/p"⟩] _ asked
  have here : (History.begin project [⟨"/p"⟩]).run [(.still now, .probe ⟨"/p/c/index.ts"⟩)] = reached :=
    rfl
  rw [here] at all
  have waits : reached.session.registry.get? ⟨"/p/c/index.ts"⟩ = some .registered := by
    rw [get?_eq_registered_iff]
    decide +kernel
  have brought : .changed (.brought (Path.normalize ⟨"/p/c/index.ts"⟩)) ∈ reached.events := by
    decide +kernel
  have updates : .updateGraph ∈ reached.session.tasks.pending :=
    (all.1 _ waits).resolve_right fun began => began.2 brought
  exact ⟨waits, updates, (all.2 (.still now) (quiet_still now) _).2.2 updates⟩

end Session

end BarrelSynthesis
