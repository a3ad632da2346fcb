/-
# What happens in a session

A session is not alone with its files and its project. Both may change with every call that the project
gets, and a project that is told something may ask about files in turn, so that barrels come and go, and
tasks are queued, in the middle of an update. A history keeps a session together with everything that has
happened in it so far, and does what the session does, amid surroundings that may answer differently after
every event. Where the files and the project stay as they are and nothing is asked, a history makes the
calls that the session makes and ends in the session that it ends in.

What waits in the queue can be read off the history: it is what the questions changed since the tasks were
last taken.
-/
import BarrelSynthesis.Proofs.Session.Eviction
import Mathlib.Data.List.Induction

namespace BarrelSynthesis

namespace Session

/-! ## Events -/

/-- What a question about a file changed. -/
inductive Change
  | brought (barrel : Path)
  | dropped (barrel : Path)
  deriving DecidableEq

/-- Something that happens in a session. -/
inductive Event
  /-- A question brought or dropped a barrel. -/
  | changed (change : Change)
  /-- An update dropped a barrel. -/
  | discarded (barrel : Path)
  /-- The tasks that waited were taken from the queue. -/
  | taken
  /-- A task that was taken from the queue is begun. -/
  | begun (task : Task)
  /-- The project was told to do something. -/
  | told (call : ProjectCall)
  deriving DecidableEq

/-- A session and what has happened in it, the earliest first. -/
structure History where
  session : Session
  events : List Event

/-- What a session is amid while something is done with it: the files and the project as they are after
some events, and the files that the project asks about while it is told the last of some events. -/
structure Surroundings where
  moment : List Event → Moment
  questions : List Event → List Path

/-- What a question changes in a session. Bringing a barrel that is there already changes nothing, nor
does dropping one that is not. -/
def changeOf? (session : Session) : Deed → Option Change
  | .nothing => none
  | .drop barrel => if session.isVirtual barrel then some (.dropped barrel.normalize) else none
  | .bring barrel => if session.isVirtual barrel then none else some (.brought barrel.normalize)

/-- That a barrel was dropped, if it was there before and is not there after. -/
def discards (before after : Session) (barrel : Path) : List Event :=
  if before.isVirtual barrel && !after.isVirtual barrel then [.discarded barrel] else []

/-- Something that is done with a session. Resolving module names is asking about files. -/
inductive Step
  | probe (path : Path)
  | updateBarrels
  | updateGraph
  | runPendingTasks

namespace History

variable (around : Surroundings)

/-- The history of a session that was just created. -/
def begin (project : Project) (projectDirs : List Path) : History :=
  ⟨create project projectDirs, []⟩

/-- Adds an event. -/
def note (history : History) (event : Event) : History :=
  { history with events := history.events ++ [event] }

/-- Asks whether a file exists. -/
def ask (history : History) (path : Path) : History :=
  let host := (around.moment history.events).host
  let change := history.session.changeOf? (deed host history.session path)
  { session := (history.session.fileExists host path).2
    events := history.events ++ change.toList.map .changed }

/-- Tells the project to do something, and answers what it asks meanwhile. -/
def tell (history : History) (call : ProjectCall) : History :=
  let told := history.note (.told call)
  (around.questions told.events).foldl (ask around) told

/-- Brings one barrel up to date: the registry first, then the project is told. -/
def updateBarrel (history : History) (barrel : Path) : History :=
  let now := around.moment history.events
  let after := history.session.updateBarrel now.host now.project barrel
  after.2.foldl (tell around)
    ⟨after.1, history.events ++ history.session.discards after.1 barrel⟩

/-- Brings every barrel up to date that is registered now, in ascending order of path, each amid what the
surroundings are when its turn comes. -/
def updateBarrels (history : History) : History :=
  history.session.registry.paths.foldl (updateBarrel around) history

/-- Has the project update itself, then brings every barrel up to date. -/
def updateGraph (history : History) : History :=
  (history.tell around .updateGraph).updateBarrels around

/-- Does one task. -/
def runTask (history : History) (task : Task) : History :=
  let begun := history.note (.begun task)
  match task with
  | .removeFile path =>
    if (around.moment begun.events).project.hasScriptInfo path then
      begun.tell around (.removeFile path)
    else begun
  | .updateGraph => begun.updateGraph around

/-- Takes the tasks that wait from the queue. -/
def drained (history : History) : History :=
  { session := { history.session with tasks := history.session.tasks.drain.2 }
    events := history.events ++ [.taken] }

/-- Does the tasks that are pending now. Tasks queued meanwhile wait for the next time. -/
def runPendingTasks (history : History) : History :=
  history.session.tasks.drain.1.foldl (runTask around) history.drained

/-- Does something with the session. -/
def act (history : History) : Step → History
  | .probe path => history.ask around path
  | .updateBarrels => history.updateBarrels around
  | .updateGraph => history.updateGraph around
  | .runPendingTasks => history.runPendingTasks around

/-- Does several things with the session, each amid its surroundings. -/
def run (history : History) (steps : List (Surroundings × Step)) : History :=
  steps.foldl (fun history step => history.act step.1 step.2) history

/-! ## Surroundings that stay as they are -/

end History

/-- Surroundings in which nothing changes and nothing is asked. -/
def Surroundings.still (now : Moment) : Surroundings :=
  ⟨fun _ => now, fun _ => []⟩

/-- The call that was made. -/
def Event.call? : Event → Option ProjectCall
  | .told call => some call
  | _ => none

/-- What is done with a session by a step. -/
def Step.action : Step → Action
  | .probe path => .probe path
  | .updateBarrels => .updateBarrels
  | .updateGraph => .updateGraph
  | .runPendingTasks => .runPendingTasks

namespace History

/-- The session that a history ends in, and the calls that were made on the way. -/
def outcome (history : History) : Session × List ProjectCall :=
  (history.session, history.events.filterMap Event.call?)

variable {history : History} {now : Moment}

/-- An event that is noted changes no session, and the calls of a history are those noted. -/
theorem outcome_note (history : History) (event : Event) :
    (history.note event).outcome = (history.session, history.outcome.2 ++ event.call?.toList) := by
  rw [outcome, note, List.filterMap_append]
  cases event <;> rfl

/-- Where nothing changes while the project is told of calls, they are noted and the session stays what it
is. -/
theorem outcome_foldl_tell_still (calls : List ProjectCall) :
    (calls.foldl (tell (.still now)) history).outcome =
      (history.session, history.outcome.2 ++ calls) := by
  induction calls generalizing history with
  | nil => rw [List.append_nil]; rfl
  | cons call rest ih =>
      have one : history.tell (.still now) call = history.note (.told call) := rfl
      rw [List.foldl_cons, one, ih, outcome_note, List.append_assoc]
      rfl

/-- Where nothing changes around it, an update of a barrel comes out as the plain one. -/
theorem outcome_updateBarrel_still (barrel : Path) :
    (history.updateBarrel (.still now) barrel).outcome = updateNext now history.outcome barrel := by
  have silent (before after : Session) :
      (before.discards after barrel).filterMap Event.call? = [] := by
    rw [discards]
    split <;> rfl
  rw [updateBarrel, outcome_foldl_tell_still, outcome, List.filterMap_append, silent, List.append_nil]
  rfl

/-- Where nothing changes around it, an update of all barrels comes out as the plain one. -/
theorem outcome_updateBarrels_still :
    let after := history.session.updateBarrels now.host now.project
    (history.updateBarrels (.still now)).outcome = (after.1, history.outcome.2 ++ after.2) := by
  have along : (history.updateBarrels (.still now)).outcome =
      history.session.registry.paths.foldl (updateNext now) history.outcome :=
    (List.foldl_hom outcome fun _ barrel => (outcome_updateBarrel_still barrel).symm).symm
  rw [along, updateBarrels_eq]
  exact foldl_gather (Session.updateBarrel now.host now.project) _ _

/-- Where nothing changes around it, an update of the graph comes out as the plain one. -/
theorem outcome_updateGraph_still :
    let after := history.session.updateGraph now.host now.project
    (history.updateGraph (.still now)).outcome = (after.1, history.outcome.2 ++ after.2) := by
  have told : history.tell (.still now) .updateGraph = history.note (.told .updateGraph) := rfl
  rw [updateGraph, told, outcome_updateBarrels_still, outcome_note, List.append_assoc]
  rfl

/-- Where nothing changes around it, a task comes out as the plain one. -/
theorem outcome_runTask_still (task : Task) :
    (history.runTask (.still now) task).outcome = runNext now history.outcome task := by
  have begun : (history.note (.begun task)).outcome = history.outcome := by
    rw [outcome_note]
    exact congrArg (Prod.mk _) (List.append_nil _)
  cases task with
  | updateGraph => rw [runTask, outcome_updateGraph_still, begun]; rfl
  | removeFile path =>
      have next : runNext now history.outcome (.removeFile path) =
          (history.session, history.outcome.2 ++
            if now.project.hasScriptInfo path then [.removeFile path] else []) := rfl
      rw [runTask, next]
      split
      · next known =>
          have asked : now.project.hasScriptInfo path = true := known
          have told : (history.note (.begun (.removeFile path))).tell (.still now) (.removeFile path) =
              (history.note (.begun (.removeFile path))).note (.told (.removeFile path)) := rfl
          rw [told, outcome_note, begun, if_pos asked]
          rfl
      · next unknown =>
          have asked : ¬now.project.hasScriptInfo path = true := unknown
          rw [begun, if_neg asked, List.append_nil]
          rfl

/-- Where nothing changes around it, the pending tasks come out as plain ones. -/
theorem outcome_runPendingTasks_still :
    let after := history.session.runPendingTasks now.host now.project
    (history.runPendingTasks (.still now)).outcome = (after.1, history.outcome.2 ++ after.2) := by
  have along : (history.runPendingTasks (.still now)).outcome =
      history.session.tasks.drain.1.foldl (runNext now) history.drained.outcome :=
    (List.foldl_hom outcome fun _ task => (outcome_runTask_still task).symm).symm
  have begun : history.drained.outcome =
      ({ history.session with tasks := history.session.tasks.drain.2 }, history.outcome.2) := by
    rw [outcome, drained, List.filterMap_append]
    exact congrArg (Prod.mk _) (List.append_nil _)
  rw [along, begun]
  exact foldl_gather (Session.runTask now.host now.project) _ _

/-- Amid surroundings that stay as they are, a step makes the calls that the session makes and ends in the
session that it ends in. -/
theorem outcome_act_still (history : History) (now : Moment) (step : Step) :
    let after := Session.act now history.session step.action
    (history.act (.still now) step).outcome = (after.1, history.outcome.2 ++ after.2) := by
  cases step with
  | probe path =>
      have silent (change : Option Change) :
          (change.toList.map Event.changed).filterMap Event.call? = [] := by
        cases change <;> rfl
      rw [act, outcome, ask, List.filterMap_append, silent]
      rfl
  | updateBarrels => exact outcome_updateBarrels_still
  | updateGraph => exact outcome_updateGraph_still
  | runPendingTasks => exact outcome_runPendingTasks_still

end History

/-- Asking for some paths and then for others is asking for all of them. -/
theorem askAll_append (host : FileSystem) (session : Session) (first second : List Path) :
    (session.askAll host (first ++ second)).2 =
      ((session.askAll host first).2.askAll host second).2 := by
  induction first generalizing session with
  | nil => rfl
  | cons path rest ih => exact ih _

/-- Resolving module names does to a session what asking about some files does. -/
theorem exists_askAll_of_resolveModuleNames (host : FileSystem) (project : Project)
    (session : Session) (names : List String) (containingFile : Path) :
    ∃ paths, (session.resolveModuleNames host project names containingFile).2 =
      (session.askAll host paths).2 := by
  have question : ∀ (reached : Session) (path : Path),
      (∃ paths, reached = (session.askAll host paths).2) →
      ∃ paths, (reached.fileExists host path).2 = (session.askAll host paths).2 := by
    rintro _ path ⟨paths, rfl⟩
    exact ⟨paths ++ [path], (askAll_append host session paths [path]).symm⟩
  exact resolveNames_keeps host question ⟨[], rfl⟩

namespace History

/-- A history of questions leads to the session that the questions lead to. -/
theorem session_run_probes (history : History) (now : Moment) (paths : List Path) :
    (history.run (paths.map fun path => (.still now, .probe path))).session =
      (history.session.askAll now.host paths).2 := by
  induction paths generalizing history with
  | nil => rfl
  | cons path rest ih => exact ih _

/-- Whatever is done with a session at a moment can be done in steps. -/
theorem exists_run_of_act (history : History) (now : Moment) (action : Action) :
    ∃ steps : List Step, (history.run (steps.map fun step => (.still now, step))).session =
      (Session.act now history.session action).1 := by
  have alone (step : Step) : (history.run [(.still now, step)]).session =
      (Session.act now history.session step.action).1 :=
    congrArg Prod.fst (outcome_act_still history now step)
  cases action with
  | probe path => exact ⟨[.probe path], alone (.probe path)⟩
  | updateBarrels => exact ⟨[.updateBarrels], alone .updateBarrels⟩
  | updateGraph => exact ⟨[.updateGraph], alone .updateGraph⟩
  | runPendingTasks => exact ⟨[.runPendingTasks], alone .runPendingTasks⟩
  | runTask task =>
      cases task with
      | updateGraph => exact ⟨[.updateGraph], alone .updateGraph⟩
      | removeFile path => exact ⟨[], rfl⟩
  | resolve names containingFile =>
      obtain ⟨paths, asked⟩ := exists_askAll_of_resolveModuleNames now.host now.project
        history.session names containingFile
      refine ⟨paths.map .probe, ?_⟩
      rw [List.map_map]
      exact (session_run_probes history now paths).trans asked.symm

/-- Every session that is driven through moments is one that a history ends in. -/
theorem exists_run_of_run (history : History) (events : List (Moment × Action)) :
    ∃ steps, (history.run steps).session = (history.session.run events).1 := by
  induction events generalizing history with
  | nil => exact ⟨[], rfl⟩
  | cons event later ih =>
      obtain ⟨first, done⟩ := exists_run_of_act history event.1 event.2
      obtain ⟨rest, reached⟩ := ih (history.run (first.map fun step => (.still event.1, step)))
      refine ⟨first.map (fun step => (.still event.1, step)) ++ rest, ?_⟩
      rw [run, List.foldl_append]
      rw [done] at reached
      exact reached

/-! ## What lasts -/

/-- Something that lasts through whatever happens in the middle of a step. -/
structure Lasts (around : Surroundings) (holds : History → Prop) : Prop where
  asked : ∀ history path, holds history → holds (history.ask around path)
  told : ∀ history call, holds history → holds (history.note (.told call))
  begun : ∀ history task, holds history → holds (history.note (.begun task))
  barrels : ∀ history, holds history → history.session.registry.PathsAre IsBarrelPath
  updated : ∀ history barrel, IsBarrelPath barrel → holds history →
    holds (history.updateBarrel around barrel)

variable {around : Surroundings} {holds : History → Prop}

/-- What questions and calls keep, telling the project keeps, whatever it asks meanwhile. -/
theorem holds_tell (asked : ∀ history path, holds history → holds (history.ask around path))
    (told : ∀ history call, holds history → holds (history.note (.told call)))
    (before : holds history) (call : ProjectCall) : holds (history.tell around call) :=
  List.foldlRecOn _ _ (told history call before) fun reached held path _ => asked reached path held

/-- What lasts through questions and calls lasts while the project is told of calls that may ask. -/
theorem holds_foldl_tell (asked : ∀ history path, holds history → holds (history.ask around path))
    (told : ∀ history call, holds history → holds (history.note (.told call)))
    (before : holds history) (calls : List ProjectCall) :
    holds (calls.foldl (tell around) history) :=
  List.foldlRecOn _ _ before fun _ held call _ => holds_tell asked told held call

namespace Lasts

variable (lasts : Lasts around holds)
include lasts

/-- What lasts through each update of a barrel lasts through the update of all. -/
theorem updateBarrels (before : holds history) : holds (history.updateBarrels around) := by
  have isBarrel := lasts.barrels history before
  exact List.foldlRecOn _ _ before fun reached held barrel listed =>
    lasts.updated reached barrel (isBarrel barrel listed) held

/-- What lasts through the updates of barrels lasts through an update of the graph. -/
theorem updateGraph (before : holds history) : holds (history.updateGraph around) :=
  lasts.updateBarrels (holds_tell lasts.asked lasts.told before .updateGraph)

/-- What lasts through each kind of task lasts through any task. -/
theorem runTask (before : holds history) (task : Task) : holds (history.runTask around task) := by
  have begun := lasts.begun history task before
  cases task with
  | updateGraph => exact lasts.updateGraph begun
  | removeFile path =>
      rw [History.runTask]
      split
      · exact holds_tell lasts.asked lasts.told begun (.removeFile path)
      · exact begun

/-- What lasts through every task lasts through all of them. -/
theorem runTasks (before : holds history) (tasks : List Task) :
    holds (tasks.foldl (History.runTask around) history) :=
  List.foldlRecOn _ _ before fun _ held task _ => lasts.runTask held task

/-- What lasts in the middle of steps and when the queue is emptied lasts through a step. -/
theorem act (drained : ∀ history, holds history → holds history.drained) (before : holds history)
    (step : Step) : holds (history.act around step) := by
  cases step with
  | probe path => exact lasts.asked history path before
  | updateBarrels => exact lasts.updateBarrels before
  | updateGraph => exact lasts.updateGraph before
  | runPendingTasks => exact lasts.runTasks (drained history before) _

end Lasts

end History

/-! ## The queue -/

/-- Queues what follows from a change. -/
def Change.enqueue (queue : TaskQueue) : Change → TaskQueue
  | .brought _ => queue.schedule .updateGraph
  | .dropped barrel => (queue.schedule (.removeFile barrel)).schedule .updateGraph

/-- The changes that are open after an event. -/
def Event.openAfter (changes : List Change) : Event → List Change
  | .changed change => changes ++ [change]
  | .taken => []
  | _ => changes

/-- What the questions changed since the tasks that waited were last taken. -/
def openChanges (events : List Event) : List Change :=
  events.foldl Event.openAfter []

/-- A change that is noted last is open until a task begins. -/
theorem openChanges_concat_changed (events : List Event) (change : Change) :
    openChanges (events ++ [.changed change]) = openChanges events ++ [change] := by
  rw [openChanges, List.foldl_append]
  rfl

/-- An open change has happened. -/
theorem mem_events_of_mem_openChanges {events : List Event} {change : Change}
    (listed : change ∈ openChanges events) : .changed change ∈ events := by
  induction events using List.reverseRecOn with
  | nil => cases listed
  | append_singleton earlier event ih =>
      rw [openChanges, List.foldl_append] at listed
      cases event with
      | changed last =>
          rcases List.mem_append.mp listed with before | new
          · exact List.mem_append_left _ (ih before)
          · obtain rfl := List.mem_singleton.mp new
            exact List.mem_append_right _ List.mem_cons_self
      | taken => cases listed
      | discarded barrel => exact List.mem_append_left _ (ih listed)
      | begun task => exact List.mem_append_left _ (ih listed)
      | told call => exact List.mem_append_left _ (ih listed)

/-- A removal is queued for a barrel that is dropped. -/
theorem removeFile_mem_foldl_enqueue {queue : TaskQueue} {changes : List Change} {path : Path}
    (waits : .removeFile path ∈ (changes.foldl Change.enqueue queue).pending) :
    .removeFile path ∈ queue.pending ∨ .dropped path ∈ changes := by
  induction changes generalizing queue with
  | nil => exact .inl waits
  | cons change rest ih =>
      rcases ih waits with first | later
      · cases change with
        | brought barrel =>
            rcases TaskQueue.mem_schedule first with before | new
            · exact .inl before
            · cases new
        | dropped barrel =>
            rcases TaskQueue.mem_schedule first with first | new
            · rcases TaskQueue.mem_schedule first with before | same
              · exact .inl before
              · obtain rfl := Task.removeFile.inj same
                exact .inr List.mem_cons_self
            · cases new
      · exact .inr (List.mem_cons_of_mem _ later)

/-- A dropped barrel is taken from the registry, and its removal and an update of the graph are asked for.
-/
theorem deleteBarrel_of_known {session : Session} {barrel : Path}
    (known : session.isVirtual barrel = true) :
    session.deleteBarrel barrel =
      { session with
        registry := session.registry.erase barrel
        tasks := Change.enqueue session.tasks (.dropped barrel.normalize) } := by
  rw [deleteBarrel, if_pos known]
  rfl

/-- A new barrel is registered, and an update of the graph is asked for. -/
theorem createBarrel_of_unknown {session : Session} {barrel : Path}
    (unknown : session.isVirtual barrel = false) :
    session.createBarrel barrel =
      { session with
        registry := session.registry.register barrel
        tasks := Change.enqueue session.tasks (.brought barrel.normalize) } := by
  rw [createBarrel, if_neg (Bool.eq_false_iff.mp unknown)]
  rfl

/-- An update leaves barrels under paths of a kind, if that is the kind of the path it updates. -/
theorem pathsAre_updateBarrel {session : Session} {kind : Path → Prop}
    (pathsAre : session.registry.PathsAre kind) (now : Moment) {barrel : Path}
    (here : kind barrel.normalize) :
    (session.updateBarrel now.host now.project barrel).1.registry.PathsAre kind := by
  rcases (updateBarrel_session now session barrel).2 with
    ⟨-, dropped⟩ | ⟨-, same | ⟨version, calculation, calculated⟩⟩
  · rw [dropped]
    exact pathsAre.erase barrel
  · rw [same]
    exact pathsAre
  · rw [calculated]
    exact pathsAre.insert here _

/-- A question brings barrels under the paths of barrels only. -/
theorem isBarrelPath_of_bring {host : FileSystem} {session : Session} {path barrel : Path}
    (brings : deed host session path = .bring barrel) : IsBarrelPath barrel.normalize := by
  rcases deed_cases host session path with ⟨-, drops⟩ | ⟨-, nothing | ⟨other, bringsOther, room⟩⟩
  · rw [drops] at brings
    cases brings
  · rw [nothing] at brings
    cases brings
  · rw [bringsOther] at brings
    obtain rfl := Deed.bring.inj brings
    obtain ⟨folder, -, -, rfl⟩ := room.folder
    exact isBarrelPath_join folder

namespace History

variable {around : Surroundings} {history : History}

/-- What a question can make of a history. -/
inductive Asked (history : History) : History → Prop
  | unchanged : Asked history history
  /-- A file has taken the place of a barrel. -/
  | dropped (barrel : Path) (known : history.session.isVirtual barrel = true) :
      Asked history
        ⟨history.session.deleteBarrel barrel,
          history.events ++ [.changed (.dropped barrel.normalize)]⟩
  /-- A folder has got its barrel. -/
  | brought (barrel : Path) (unknown : history.session.isVirtual barrel = false)
      (isBarrel : IsBarrelPath barrel.normalize) :
      Asked history
        ⟨history.session.createBarrel barrel,
          history.events ++ [.changed (.brought barrel.normalize)]⟩

/-- A question notes what it changes, and nothing else happens by it. -/
theorem asked (around : Surroundings) (history : History) (path : Path) :
    Asked history (history.ask around path) := by
  have silent : (⟨history.session, history.events ++ []⟩ : History) = history :=
    congrArg (History.mk history.session) (List.append_nil _)
  rw [ask, fileExists_snd]
  cases done : deed (around.moment history.events).host history.session path with
  | nothing =>
      rw [perform, changeOf?]
      exact silent.symm ▸ .unchanged
  | drop barrel =>
      rw [perform, changeOf?]
      split
      · next known => exact .dropped barrel known
      · next unknown =>
          rw [deleteBarrel, if_neg unknown]
          exact silent.symm ▸ .unchanged
  | bring barrel =>
      rw [perform, changeOf?]
      split
      · next known =>
          rw [createBarrel, if_pos known]
          exact silent.symm ▸ .unchanged
      · next unknown =>
          exact .brought barrel (Bool.eq_false_iff.mpr unknown) (isBarrelPath_of_bring done)

/-- A question leaves barrels under the paths of barrels. -/
theorem pathsAre_ask (around : Surroundings)
    (barrels : history.session.registry.PathsAre IsBarrelPath) (path : Path) :
    (history.ask around path).session.registry.PathsAre IsBarrelPath := by
  have asked := asked around history path
  generalize history.ask around path = after at asked
  cases asked with
  | unchanged => exact barrels
  | dropped barrel known =>
      rw [deleteBarrel_of_known known]
      exact barrels.erase barrel
  | brought barrel unknown isBarrel =>
      rw [createBarrel_of_unknown unknown]
      exact barrels.register isBarrel

/-- What holds of every history: barrels stand under the paths of barrels, and what waits in the queue
follows from the open changes. -/
structure Sound (history : History) : Prop where
  barrels : history.session.registry.PathsAre IsBarrelPath
  dropped : ∀ barrel, .changed (.dropped barrel) ∈ history.events → barrel.normalize = barrel
  queue : history.session.tasks = (openChanges history.events).foldl Change.enqueue .empty

/-- A history begins sound, with the barrels of its folders. -/
theorem sound_begin (project : Project) (projectDirs : List Path) :
    Sound (begin project projectDirs) where
  barrels := Registry.PathsAre.ofFolders fun folder _ => by
    rw [Folder.barrelPath, Path.normalize_normalize]
    exact isBarrelPath_join folder
  dropped := fun _ listed => absurd listed List.not_mem_nil
  queue := rfl

namespace Sound

/-- The paths that wait to be removed are normal. -/
theorem removals (sound : Sound history) (path : Path)
    (waits : .removeFile path ∈ history.session.tasks.pending) : path.normalize = path := by
  rw [sound.queue] at waits
  have dropped := (removeFile_mem_foldl_enqueue waits).resolve_left List.not_mem_nil
  exact sound.dropped path (mem_events_of_mem_openChanges dropped)

/-- A question keeps a history sound, since what it brings is the barrel of a folder, and what it drops was
known. -/
theorem ask (sound : Sound history) (path : Path) : Sound (history.ask around path) := by
  have barrels := pathsAre_ask around sound.barrels path
  have asked := asked around history path
  generalize history.ask around path = after at barrels asked
  -- What a question changes is the last of the open changes, and queued behind all others.
  have queued (change : Change) : change.enqueue history.session.tasks =
      (openChanges (history.events ++ [.changed change])).foldl Change.enqueue .empty := by
    rw [openChanges_concat_changed, List.foldl_append, sound.queue]
    rfl
  cases asked with
  | unchanged => exact sound
  | dropped barrel known =>
      refine ⟨barrels, fun other listed => ?_, ?_⟩
      · rcases List.mem_append.mp listed with before | new
        · exact sound.dropped other before
        · obtain rfl := Change.dropped.inj (Event.changed.inj (List.mem_singleton.mp new))
          exact barrel.normalize_normalize
      · rw [deleteBarrel_of_known known]
        exact queued (.dropped barrel.normalize)
  | brought barrel unknown =>
      refine ⟨barrels, fun other listed => ?_, ?_⟩
      · rcases List.mem_append.mp listed with before | new
        · exact sound.dropped other before
        · cases Event.changed.inj (List.mem_singleton.mp new)
      · rw [createBarrel_of_unknown unknown]
        exact queued (.brought barrel.normalize)

/-- Events that change no barrel by a question and leave the queue alone keep what holds. -/
theorem append_silent (sound : Sound history) {session : Session} {more : List Event}
    (barrels : session.registry.PathsAre IsBarrelPath) (tasks : session.tasks = history.session.tasks)
    (silent : ∀ event ∈ more, ∀ changes, event.openAfter changes = changes) :
    Sound ⟨session, history.events ++ more⟩ where
  barrels := barrels
  dropped := by
    intro barrel listed
    refine sound.dropped barrel ((List.mem_append.mp listed).resolve_right fun new => ?_)
    have kept := silent _ new []
    cases kept
  queue := by
    have same : openChanges (history.events ++ more) = openChanges history.events := by
      rw [openChanges, List.foldl_append]
      exact List.foldlRecOn (motive := (· = openChanges history.events)) _ _ rfl
        fun changes same event listed => (silent event listed changes).trans same
    show session.tasks = (openChanges (history.events ++ more)).foldl Change.enqueue .empty
    rw [same, tasks, sound.queue]

/-- A call that is told changes nothing but the events. -/
theorem told (sound : Sound history) (call : ProjectCall) : Sound (history.note (.told call)) :=
  sound.append_silent sound.barrels rfl fun event listed _ => by
    obtain rfl := List.mem_singleton.mp listed
    rfl

/-- A task that begins changes nothing but the events. -/
theorem begun (sound : Sound history) (task : Task) : Sound (history.note (.begun task)) :=
  sound.append_silent sound.barrels rfl fun event listed _ => by
    obtain rfl := List.mem_singleton.mp listed
    rfl

/-- The registry is updated before the project is told anything. -/
theorem updated (sound : Sound history) (now : Moment) {barrel : Path}
    (isBarrel : IsBarrelPath barrel) :
    let after := (history.session.updateBarrel now.host now.project barrel).1
    Sound ⟨after, history.events ++ history.session.discards after barrel⟩ := by
  intro after
  have tasks := (updateBarrel_session now history.session barrel).1
  apply sound.append_silent _ tasks
  · intro event listed changes
    rw [discards] at listed
    split at listed
    · obtain rfl := List.mem_singleton.mp listed
      rfl
    · cases listed
  · exact pathsAre_updateBarrel sound.barrels now (isBarrel.normal.symm ▸ isBarrel)

/-- Updating the barrel of a folder keeps a history sound. -/
theorem updateBarrel (sound : Sound history) {barrel : Path} (isBarrel : IsBarrelPath barrel) :
    Sound (history.updateBarrel around barrel) :=
  holds_foldl_tell (fun _ path sound => sound.ask path) (fun _ call sound => sound.told call)
    (sound.updated (around.moment history.events) isBarrel) _

/-- Taking the tasks out of the queue keeps a history sound. -/
theorem drained (sound : Sound history) : Sound history.drained where
  barrels := sound.barrels
  dropped := fun barrel listed =>
    sound.dropped barrel ((List.mem_append.mp listed).resolve_right (by simp))
  queue := by
    show TaskQueue.empty =
      (openChanges (history.events ++ [.taken])).foldl Change.enqueue .empty
    rw [openChanges, List.foldl_append]
    rfl

/-- Soundness lasts through everything that a history can be made of. -/
theorem lasts (around : Surroundings) : Lasts around Sound where
  asked := fun _ path sound => sound.ask path
  told := fun _ call sound => sound.told call
  begun := fun _ task sound => sound.begun task
  barrels := fun _ sound => sound.barrels
  updated := fun _ _ isBarrel sound => sound.updateBarrel isBarrel

/-- A step keeps a history sound, whatever happens around it. -/
theorem act (sound : Sound history) (around : Surroundings) (step : Step) :
    Sound (history.act around step) :=
  (lasts around).act (fun _ sound => sound.drained) sound step

/-- A history that begins sound is sound at its end. -/
theorem run (sound : Sound history) (steps : List (Surroundings × Step)) :
    Sound (history.run steps) :=
  List.foldlRecOn _ _ sound fun _ sound step _ => sound.act step.1 step.2

end Sound

end History

end Session

end BarrelSynthesis
