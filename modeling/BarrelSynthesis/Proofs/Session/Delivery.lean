/-
# The delivery of tasks

A queue delivers the tasks that wait one by one or all at once, and takes on others in between, unless
they wait already. What it has delivered, with what still waits behind it, is at any time what it has
accepted, in the order in which it was accepted. A session that runs its queue takes all tasks that wait
and carries out these and no others, one after the other. What the questions that are asked meanwhile
queue waits for the next time.
-/
import BarrelSynthesis.Proofs.Session.History

namespace BarrelSynthesis

namespace TaskQueue

/-! ## Exchanges with a queue -/

/-- Something that is done with a queue. -/
inductive Operation
  | schedule (task : Task)
  | pop
  | drain

/-- Something that was done with a queue, and what the queue answered. -/
inductive Exchange
  | scheduled (task : Task) (accepted : Bool)
  | popped (task : Option Task)
  | drained (tasks : List Task)

namespace Exchange

/-- The tasks that are accepted: the scheduled one, unless it is refused. -/
def accepted : Exchange → List Task
  | scheduled task true => [task]
  | _ => []

/-- The tasks that are delivered. -/
def delivered : Exchange → List Task
  | scheduled _ _ => []
  | popped task => task.toList
  | drained tasks => tasks

end Exchange

/-- Does something with a queue. -/
def perform (queue : TaskQueue) : Operation → Exchange × TaskQueue
  | .schedule task => (.scheduled task (queue.accepts task), queue.schedule task)
  | .pop => (.popped queue.pop.1, queue.pop.2)
  | .drain => (.drained queue.drain.1, queue.drain.2)

/-- Does several things with a queue, one after the other. -/
def performAll (queue : TaskQueue) : List Operation → List Exchange × TaskQueue
  | [] => ([], queue)
  | operation :: rest =>
    let (exchange, next) := queue.perform operation
    let (exchanges, last) := next.performAll rest
    (exchange :: exchanges, last)

variable {queue : TaskQueue} {task : Task}

/-- A task is refused when it waits already. -/
theorem accepts_eq_false_iff :
    queue.accepts task = false ↔ ∃ waiting ∈ queue.pending, waiting.same task = true := by
  rw [accepts, Bool.not_eq_false', isPending, List.any_eq_true]

/-- A task that is refused leaves the queue as it is. -/
theorem schedule_of_refused (refused : queue.accepts task = false) : queue.schedule task = queue :=
  if_neg (Bool.eq_false_iff.mp refused)

theorem pending_schedule_of_accepts (accepted : queue.accepts task = true) :
    (queue.schedule task).pending = queue.pending ++ [task] :=
  congrArg pending (if_pos accepted)

/-- What waits, with what is accepted behind it, is what is delivered, with what waits then behind it. -/
theorem pending_append_accepted (queue : TaskQueue) (operation : Operation) :
    queue.pending ++ (queue.perform operation).1.accepted =
      (queue.perform operation).1.delivered ++ (queue.perform operation).2.pending := by
  cases operation with
  | schedule task =>
      rw [perform]
      cases answer : queue.accepts task with
      | false => exact (List.append_nil _).trans (congrArg pending (schedule_of_refused answer)).symm
      | true => exact (pending_schedule_of_accepts answer).symm
  | pop =>
      obtain ⟨tasks⟩ := queue
      cases tasks with
      | nil => rfl
      | cons first rest => exact List.append_nil _
  | drain => rfl

/-- So it is over any number of operations. -/
theorem pending_append_flatMap_accepted (queue : TaskQueue) (operations : List Operation) :
    let run := queue.performAll operations
    queue.pending ++ run.1.flatMap Exchange.accepted =
      run.1.flatMap Exchange.delivered ++ run.2.pending := by
  induction operations generalizing queue with
  | nil => exact List.append_nil _
  | cons operation rest ih =>
      let first := queue.perform operation
      let later := first.2.performAll rest
      calc
        queue.pending ++ (first.1.accepted ++ later.1.flatMap Exchange.accepted)
        _ = first.1.delivered ++ (first.2.pending ++ later.1.flatMap Exchange.accepted) := by
          rw [← List.append_assoc, pending_append_accepted, List.append_assoc]
        _ = first.1.delivered ++ later.1.flatMap Exchange.delivered ++ later.2.pending := by
          rw [ih first.2, List.append_assoc]

/-- A task that was delivered is accepted again, behind what waits. -/
example :
    let removal := Task.removeFile ⟨"/p/index.ts"⟩
    TaskQueue.empty.performAll
        [.schedule .updateGraph, .schedule .updateGraph, .schedule removal, .pop,
          .schedule .updateGraph, .drain] =
      ([.scheduled .updateGraph true, .scheduled .updateGraph false, .scheduled removal true,
        .popped (some .updateGraph), .scheduled .updateGraph true,
        .drained [removal, .updateGraph]], .empty) := rfl

/-- No task waits twice. -/
def IsDistinct (queue : TaskQueue) : Prop :=
  queue.pending.Pairwise fun earlier later => earlier.same later = false

/-- Scheduling keeps the pending tasks distinct, and a run leaves none. -/
theorem IsDistinct.perform (distinct : queue.IsDistinct) (operation : Operation) :
    (queue.perform operation).2.IsDistinct := by
  cases operation with
  | schedule task =>
      rw [TaskQueue.perform]
      cases answer : queue.accepts task with
      | false =>
          rw [schedule_of_refused answer]
          exact distinct
      | true =>
          rw [IsDistinct, pending_schedule_of_accepts answer, List.pairwise_append]
          refine ⟨distinct, List.pairwise_singleton _ _, fun waiting waits other listed => ?_⟩
          rw [List.mem_singleton.mp listed, ← Bool.not_eq_true]
          intro same
          have refused := accepts_eq_false_iff.mpr ⟨waiting, waits, same⟩
          rw [answer] at refused
          cases refused
  | pop =>
      obtain ⟨tasks⟩ := queue
      cases tasks with
      | nil => exact distinct
      | cons first rest => exact (List.pairwise_cons.mp distinct).2
  | drain => exact List.Pairwise.nil

/-- No sequence of operations ever queues a task twice. -/
theorem IsDistinct.performAll (distinct : queue.IsDistinct) (operations : List Operation) :
    (queue.performAll operations).2.IsDistinct := by
  induction operations generalizing queue with
  | nil => exact distinct
  | cons operation rest ih => exact ih (distinct.perform operation)

end TaskQueue

namespace Session

/-! ## Running the queue -/

/-- What a question changed, if the event is of this kind. -/
def Event.change? : Event → Option Change
  | .changed change => some change
  | _ => none

/-- A queue after some events: what the questions changed is queued behind what waited. -/
def queueAfter (queue : TaskQueue) (events : List Event) : TaskQueue :=
  (events.filterMap Event.change?).foldl Change.enqueue queue

/-- While these things happen no task is taken from the queue and none is begun. -/
def Calm (events : List Event) : Prop :=
  .taken ∉ events ∧ ∀ task, .begun task ∉ events

/-- What happens, after some other events, while a task is carried out. -/
inductive CarriesOut (around : Surroundings) (earlier : List Event) : Task → List Event → Prop
  /-- The project is told to remove a file that it knows. -/
  | removed {path : Path} {later : List Event}
      (known : (around.moment (earlier ++ [.begun (.removeFile path)])).project.hasScriptInfo path =
        true)
      (calm : Calm later) :
      CarriesOut around earlier (.removeFile path)
        (.begun (.removeFile path) :: .told (.removeFile path) :: later)
  /-- The project does not know the file, and nothing is left to do. -/
  | unknown {path : Path}
      (unknown : (around.moment (earlier ++ [.begun (.removeFile path)])).project.hasScriptInfo path =
        false) :
      CarriesOut around earlier (.removeFile path) [.begun (.removeFile path)]
  /-- The project is told to update itself, and the barrels are updated. -/
  | updated {later : List Event} (calm : Calm later) :
      CarriesOut around earlier .updateGraph (.begun .updateGraph :: .told .updateGraph :: later)

/-- What happens, after some other events, while some tasks and no others are carried out, one after the
other. -/
inductive CarriesOutAll (around : Surroundings) : List Event → List Task → List Event → Prop
  | nil (earlier : List Event) : CarriesOutAll around earlier [] []
  | cons {earlier first later : List Event} {task : Task} {rest : List Task}
      (head : CarriesOut around earlier task first)
      (tail : CarriesOutAll around (earlier ++ first) rest later) :
      CarriesOutAll around earlier (task :: rest) (first ++ later)

/-- The queue a list of events leaves is computed in two stretches. -/
theorem queueAfter_append (queue : TaskQueue) (first second : List Event) :
    queueAfter queue (first ++ second) = queueAfter (queueAfter queue first) second := by
  rw [queueAfter, List.filterMap_append, List.foldl_append]
  rfl

theorem Calm.append {first second : List Event} (calm : Calm first) (also : Calm second) :
    Calm (first ++ second) := by
  simp only [Calm, List.mem_append, not_or]
  exact ⟨⟨calm.1, also.1⟩, fun task => ⟨calm.2 task, also.2 task⟩⟩

namespace History

variable {around : Surroundings} {before middle after history : History}

/-- One history goes on from another by some events, which alone change what waits. -/
structure GoesOn (before after : History) (events : List Event) : Prop where
  grown : after.events = before.events ++ events
  queue : after.session.tasks = queueAfter before.session.tasks events

/-- Two stretches of a session's course make one. -/
theorem GoesOn.trans {first second : List Event} (start : GoesOn before middle first)
    (rest : GoesOn middle after second) : GoesOn before after (first ++ second) where
  grown := by rw [rest.grown, start.grown, List.append_assoc]
  queue := by rw [rest.queue, start.queue, queueAfter_append]

/-- Noting an event that touches no task is a stretch of its own, with no change of the queue. -/
theorem GoesOn.note {event : Event} (silent : event.change? = none) (history : History) :
    GoesOn history (history.note event) [event] where
  grown := rfl
  queue := by rw [queueAfter, List.filterMap_cons_none silent]; rfl

/-- One history goes on from another without a task that is taken or begun. -/
def GoesOnCalmly (before after : History) : Prop :=
  ∃ events, GoesOn before after events ∧ Calm events

namespace GoesOnCalmly

theorem refl (history : History) : GoesOnCalmly history history :=
  ⟨[], ⟨(List.append_nil _).symm, rfl⟩, List.not_mem_nil, fun _ => List.not_mem_nil⟩

theorem trans : GoesOnCalmly before middle → GoesOnCalmly middle after → GoesOnCalmly before after
  | ⟨_, start, calm⟩, ⟨_, rest, also⟩ => ⟨_, start.trans rest, calm.append also⟩

theorem told (history : History) (call : ProjectCall) :
    GoesOnCalmly history (history.note (.told call)) :=
  ⟨[.told call], .note rfl history, by simp [Calm]⟩

/-- What a question changes is queued. -/
theorem ask (around : Surroundings) (history : History) (path : Path) :
    GoesOnCalmly history (history.ask around path) := by
  have asked := asked around history path
  generalize history.ask around path = reached at asked
  cases asked with
  | unchanged => exact .refl history
  | dropped barrel known =>
      rw [deleteBarrel_of_known known]
      exact ⟨_, ⟨rfl, rfl⟩, by simp [Calm]⟩
  | brought barrel unknown =>
      rw [createBarrel_of_unknown unknown]
      exact ⟨_, ⟨rfl, rfl⟩, by simp [Calm]⟩

/-- Asking the callbacks' questions one after another neither schedules nor takes a task. -/
theorem foldl_ask (paths : List Path) (history : History) :
    GoesOnCalmly history (paths.foldl (History.ask around) history) :=
  List.foldlRecOn _ _ (refl history) fun reached calmly path _ => calmly.trans (ask around reached path)

/-- Nor does telling the project a list of calls, whatever the callbacks ask in between. -/
theorem foldl_tell (calls : List ProjectCall) (history : History) :
    GoesOnCalmly history (calls.foldl (tell around) history) :=
  List.foldlRecOn _ _ (refl history) fun reached calmly call _ =>
    calmly.trans ((told reached call).trans (foldl_ask _ _))

/-- Updating a barrel queues nothing by itself. -/
theorem updateBarrel (history : History) (barrel : Path) :
    GoesOnCalmly history (history.updateBarrel around barrel) := by
  let now := around.moment history.events
  let updated := (history.session.updateBarrel now.host now.project barrel).1
  have tasks : updated.tasks = history.session.tasks :=
    (updateBarrel_session now history.session barrel).1
  have discarded : GoesOnCalmly history
      ⟨updated, history.events ++ history.session.discards updated barrel⟩ := by
    refine ⟨_, ⟨rfl, tasks.trans ?_⟩, ?_⟩
    · rw [discards]
      split <;> rfl
    · rw [discards]
      split <;> simp [Calm]
  exact discarded.trans (foldl_tell _ _)

/-- Nor does a barrel update, whose calls to the project only ask further questions. -/
theorem updateBarrels (history : History) : GoesOnCalmly history (history.updateBarrels around) :=
  List.foldlRecOn _ _ (refl history) fun reached calmly barrel _ =>
    calmly.trans (updateBarrel reached barrel)

end GoesOnCalmly

/-- Behind a task that is begun and a call that follows at once, all goes on calmly. -/
theorem goesOn_of_begun_told (task : Task) (call : ProjectCall)
    (calmly : GoesOnCalmly ((history.note (.begun task)).note (.told call)) after) :
    ∃ later, GoesOn history after (.begun task :: .told call :: later) ∧ Calm later := by
  obtain ⟨later, goesOn, calm⟩ := calmly
  have begun : GoesOn history (history.note (.begun task)) [.begun task] := .note rfl history
  have told : GoesOn (history.note (.begun task)) ((history.note (.begun task)).note (.told call))
      [.told call] := .note rfl _
  exact ⟨later, (begun.trans told).trans goesOn, calm⟩

/-- Doing a task carries it out. -/
theorem carriesOut_runTask (around : Surroundings) (history : History) (task : Task) :
    ∃ events, GoesOn history (history.runTask around task) events ∧
      CarriesOut around history.events task events := by
  cases task with
  | updateGraph =>
      have updated : GoesOnCalmly ((history.note (.begun .updateGraph)).note (.told .updateGraph))
          (history.runTask around .updateGraph) :=
        (GoesOnCalmly.foldl_ask _ _).trans (.updateBarrels _)
      obtain ⟨later, goesOn, calm⟩ := goesOn_of_begun_told _ _ updated
      exact ⟨_, goesOn, .updated calm⟩
  | removeFile path =>
      rw [runTask]
      split
      · next known =>
          obtain ⟨later, goesOn, calm⟩ :=
            goesOn_of_begun_told (.removeFile path) (.removeFile path) (.foldl_ask _ _)
          exact ⟨_, goesOn, .removed known calm⟩
      · next unknown => exact ⟨_, .note rfl history, .unknown (Bool.eq_false_iff.mpr unknown)⟩

/-- Running a list of tasks carries out each of them, in order, and the queue changes only through what
their callbacks ask. -/
theorem carriesOutAll_foldl_runTask (around : Surroundings) (tasks : List Task) (history : History) :
    ∃ events, GoesOn history (tasks.foldl (runTask around) history) events ∧
      CarriesOutAll around history.events tasks events := by
  induction tasks generalizing history with
  | nil => exact ⟨[], ⟨(List.append_nil _).symm, rfl⟩, .nil _⟩
  | cons task rest ih =>
      obtain ⟨first, start, head⟩ := carriesOut_runTask around history task
      obtain ⟨later, goesOn, tail⟩ := ih (history.runTask around task)
      -- The other tasks find the project as it is behind all that happened with the first one.
      rw [start.grown] at tail
      exact ⟨first ++ later, start.trans goesOn, .cons head tail⟩

end History

/-- Whatever is done with a queue: no task waits twice, a task is refused exactly when it waits already and
leaves the queue as it is then, and what was delivered, with what waits behind it, is what was accepted, in
this order. A session that runs its queue takes the tasks that wait, carries out these and no others in
this order, and is left with what the questions that were asked meanwhile have queued. Where nothing
changes and nothing is asked, this is what the session does. -/
theorem accepted_tasks_are_delivered_in_order :
    (∀ operations : List TaskQueue.Operation,
      let run := TaskQueue.empty.performAll operations
      run.2.pending.Pairwise (fun earlier later => earlier.same later = false) ∧
        (∀ task,
          ((run.2.perform (.schedule task)).1 = .scheduled task false ↔
            ∃ waiting ∈ run.2.pending, waiting.same task = true) ∧
          ((run.2.perform (.schedule task)).1 = .scheduled task false →
            (run.2.perform (.schedule task)).2 = run.2)) ∧
        run.1.flatMap TaskQueue.Exchange.delivered ++ run.2.pending =
          run.1.flatMap TaskQueue.Exchange.accepted) ∧
      ∀ history : History,
        (∀ around, ∃ events,
          (history.runPendingTasks around).events = history.events ++ .taken :: events ∧
            CarriesOutAll around (history.events ++ [.taken]) history.session.tasks.pending events ∧
            (history.runPendingTasks around).session.tasks =
              (events.filterMap Event.change?).foldl Change.enqueue .empty) ∧
        ∀ now : Moment,
          let after := history.session.runPendingTasks now.host now.project
          (history.runPendingTasks (.still now)).outcome = (after.1, history.outcome.2 ++ after.2) := by
  refine ⟨fun operations => ⟨?_, fun task => ⟨?_, fun refused => ?_⟩, ?_⟩, fun history =>
    ⟨fun around => ?_, fun now => History.outcome_runPendingTasks_still⟩⟩
  · have start : TaskQueue.empty.IsDistinct := List.Pairwise.nil
    exact start.performAll operations
  · rw [← TaskQueue.accepts_eq_false_iff, TaskQueue.perform, TaskQueue.Exchange.scheduled.injEq]
    exact and_iff_right rfl
  · exact TaskQueue.schedule_of_refused (TaskQueue.Exchange.scheduled.inj refused).2
  · exact (TaskQueue.pending_append_flatMap_accepted .empty operations).symm
  · -- The queue is empty when the first task is begun, so all that waits afterwards is new.
    obtain ⟨events, goesOn, carried⟩ :=
      History.carriesOutAll_foldl_runTask around history.session.tasks.pending history.drained
    refine ⟨events, goesOn.grown.trans ?_, carried, goesOn.queue⟩
    exact List.append_assoc _ [.taken] events

end Session

end BarrelSynthesis
