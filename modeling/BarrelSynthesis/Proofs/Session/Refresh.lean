/-
# The order of the queue

Dropping a barrel queues the removal of its file and an update of the project behind it, so that the project
is refreshed once the file is gone. An update that waits already is not queued again, though, and stays where
it is. A removal is therefore followed by an update only if it was queued before the first update was, and
that is so only for the barrel with whose drop the changes began that the queue has not been run since.
-/
import BarrelSynthesis.Proofs.Session.History

namespace BarrelSynthesis

namespace TaskQueue

variable {queue : TaskQueue}

/-- A task that waits already is not queued again. -/
theorem schedule_of_mem {task : Task} (waits : task ∈ queue.pending) : queue.schedule task = queue := by
  have same : task.same task = true := by
    cases task with
    | updateGraph => rfl
    | removeFile path => exact Path.same_iff.mpr rfl
  have pending : queue.isPending task = true := List.any_eq_true.mpr ⟨task, waits, same⟩
  rw [schedule, accepts, pending]
  rfl

/-- A removal that does not wait yet is queued behind all that waits. -/
theorem pending_schedule_removeFile {path : Path} (normal : path.normalize = path)
    (normals : ∀ other, .removeFile other ∈ queue.pending → other.normalize = other)
    (fresh : .removeFile path ∉ queue.pending) :
    (queue.schedule (.removeFile path)).pending = queue.pending ++ [.removeFile path] := by
  have absent : queue.isPending (.removeFile path) = false := by
    rw [isPending, List.any_eq_false]
    intro task waits same
    cases task with
    | updateGraph => cases same
    | removeFile other =>
        have one := Path.eq_of_components_eq (normals other waits) normal (Path.same_iff.mp same)
        exact fresh (one ▸ waits)
  rw [schedule, accepts, absent]
  rfl

/-- Behind every removal that waits there waits an update. -/
def RemovalsFollowed (queue : TaskQueue) : Prop :=
  ∀ before path after, queue.pending = before ++ .removeFile path :: after → .updateGraph ∈ after

/-- Putting a task in front keeps every removal followed, if an update comes with it. -/
theorem removalsFollowed_cons {task : Task} {rest : List Task}
    (followed : RemovalsFollowed ⟨rest⟩) (behind : task = .updateGraph ∨ .updateGraph ∈ rest) :
    RemovalsFollowed ⟨task :: rest⟩ := by
  intro before path after split
  cases before with
  | nil =>
      obtain ⟨rfl, rfl⟩ := List.cons.inj split
      exact behind.resolve_left Task.noConfusion
  | cons first others => exact followed others path after (List.cons.inj split).2

/-- Nothing has to follow in an empty queue. -/
theorem removalsFollowed_empty : RemovalsFollowed .empty := by
  intro before path after split
  cases before <;> cases split

/-- Removals behind the last update are not followed by one. -/
theorem removalsFollowed_iff_of_append {settled : List Task} {removals : List Path}
    (followed : RemovalsFollowed ⟨settled⟩)
    (pending : queue.pending = settled ++ removals.map .removeFile) :
    queue.RemovalsFollowed ↔ removals = [] := by
  constructor
  · intro all
    by_contra some
    obtain ⟨earlier, last, rfl⟩ := (List.eq_nil_or_concat' removals).resolve_left some
    have split : queue.pending = (settled ++ earlier.map .removeFile) ++ .removeFile last :: [] := by
      rw [pending, List.map_append, List.append_assoc]
      rfl
    exact List.not_mem_nil (all _ last [] split)
  · rintro rfl before path after split
    exact followed before path after (by rw [← split, pending]; simp)

end TaskQueue

namespace Session

section Enqueue

variable {queue : TaskQueue} {change : Change} {barrel : Path}

/-- While an update waits, and the removal of the barrel if one is dropped, a change queues nothing. -/
theorem enqueue_of_mem (update : .updateGraph ∈ queue.pending)
    (waits : ∀ barrel, change = .dropped barrel → .removeFile barrel ∈ queue.pending) :
    change.enqueue queue = queue := by
  cases change with
  | brought barrel => exact TaskQueue.schedule_of_mem update
  | dropped barrel =>
      rw [Change.enqueue, TaskQueue.schedule_of_mem (waits barrel rfl), TaskQueue.schedule_of_mem update]

/-- While an update waits, dropping a barrel queues its removal and no further update. -/
theorem pending_enqueue_dropped (update : .updateGraph ∈ queue.pending)
    (normals : ∀ path, .removeFile path ∈ queue.pending → path.normalize = path)
    (normal : barrel.normalize = barrel) (absent : .removeFile barrel ∉ queue.pending) :
    (Change.enqueue queue (.dropped barrel)).pending = queue.pending ++ [.removeFile barrel] := by
  have behind := TaskQueue.pending_schedule_removeFile normal normals absent
  have stays : .updateGraph ∈ (queue.schedule (.removeFile barrel)).pending := by
    rw [behind]
    exact List.mem_append_left _ update
  rw [Change.enqueue, TaskQueue.schedule_of_mem stays, behind]

/-- While an update waits, changes only queue removals: those of the barrels that are dropped and whose
removal does not wait yet. -/
theorem pending_foldl_enqueue {changes : List Change} (update : .updateGraph ∈ queue.pending)
    (normals : ∀ path, .removeFile path ∈ queue.pending → path.normalize = path)
    (dropped : ∀ barrel, .dropped barrel ∈ changes → barrel.normalize = barrel) :
    ∃ removals : List Path,
      (changes.foldl Change.enqueue queue).pending = queue.pending ++ removals.map .removeFile ∧
        (removals = [] ↔ ∀ barrel, .dropped barrel ∈ changes → .removeFile barrel ∈ queue.pending) := by
  induction changes generalizing queue with
  | nil => exact ⟨[], by simp⟩
  | cons change rest ih =>
      have later : ∀ barrel, .dropped barrel ∈ rest → barrel.normalize = barrel :=
        fun barrel listed => dropped barrel (List.mem_cons_of_mem _ listed)
      by_cases waits : ∀ barrel, change = .dropped barrel → .removeFile barrel ∈ queue.pending
      · obtain ⟨removals, pending, none⟩ := ih update normals later
        refine ⟨removals, by rw [List.foldl_cons, enqueue_of_mem update waits, pending], none.trans ?_⟩
        simp only [List.mem_cons, or_imp, forall_and]
        exact (and_iff_right fun barrel same => waits barrel same.symm).symm
      · obtain ⟨barrel, fails⟩ := not_forall.mp waits
        obtain ⟨rfl, absent⟩ := Classical.not_imp.mp fails
        have normal := dropped barrel List.mem_cons_self
        have behind := pending_enqueue_dropped update normals normal absent
        have stays : .updateGraph ∈ (Change.enqueue queue (.dropped barrel)).pending := by
          rw [behind]
          exact List.mem_append_left _ update
        have normalsStay : ∀ path,
            .removeFile path ∈ (Change.enqueue queue (.dropped barrel)).pending →
              path.normalize = path := by
          intro path listed
          rw [behind] at listed
          rcases List.mem_append.mp listed with before | new
          · exact normals path before
          · obtain rfl := Task.removeFile.inj (List.mem_singleton.mp new)
            exact normal
        obtain ⟨removals, pending, -⟩ := ih stays normalsStay later
        refine ⟨barrel :: removals, ?_, ?_⟩
        · rw [List.foldl_cons, pending, behind, List.append_assoc]
          rfl
        · exact iff_of_false (List.cons_ne_nil _ _) fun all => absent (all barrel List.mem_cons_self)

end Enqueue

/-- Of what some changes queue, every removal is followed by an update exactly when every barrel that is
dropped is the one that the changes begin by dropping. -/
theorem removalsFollowed_foldl_enqueue_iff {changes : List Change}
    (dropped : ∀ barrel, .dropped barrel ∈ changes → barrel.normalize = barrel) :
    (changes.foldl Change.enqueue .empty).RemovalsFollowed ↔
      ∀ barrel, .dropped barrel ∈ changes → changes.head? = some (.dropped barrel) := by
  have refresh : TaskQueue.RemovalsFollowed ⟨[.updateGraph]⟩ :=
    TaskQueue.removalsFollowed_cons TaskQueue.removalsFollowed_empty (.inl rfl)
  cases changes with
  | nil => exact iff_of_true TaskQueue.removalsFollowed_empty fun _ listed => absurd listed List.not_mem_nil
  | cons first rest =>
      have later : ∀ barrel, .dropped barrel ∈ rest → barrel.normalize = barrel :=
        fun barrel listed => dropped barrel (List.mem_cons_of_mem _ listed)
      cases first with
      | brought start =>
          have queued : Change.enqueue .empty (.brought start) = ⟨[.updateGraph]⟩ := rfl
          obtain ⟨removals, pending, none⟩ :=
            @pending_foldl_enqueue ⟨[.updateGraph]⟩ rest (by simp) (by simp) later
          rw [List.foldl_cons, queued, TaskQueue.removalsFollowed_iff_of_append refresh pending, none]
          simp
      | dropped start =>
          have normal := dropped start List.mem_cons_self
          have queued : Change.enqueue .empty (.dropped start) =
              ⟨[.removeFile start, .updateGraph]⟩ := rfl
          have evicted : TaskQueue.RemovalsFollowed ⟨[.removeFile start, .updateGraph]⟩ :=
            TaskQueue.removalsFollowed_cons refresh (.inr List.mem_cons_self)
          obtain ⟨removals, pending, none⟩ :=
            @pending_foldl_enqueue ⟨[.removeFile start, .updateGraph]⟩ rest (by simp) (by simp [normal])
              later
          rw [List.foldl_cons, queued, TaskQueue.removalsFollowed_iff_of_append evicted pending, none]
          constructor
          · intro only barrel listed
            rcases List.mem_cons.mp listed with here | behind
            · exact congrArg some here.symm
            · have same : barrel = start := by simpa using only barrel behind
              rw [same, List.head?_cons]
          · intro begins barrel behind
            have same : start = barrel := by simpa using begins barrel (List.mem_cons_of_mem _ behind)
            rw [same]
            exact List.mem_cons_self

/-- However a session was driven, behind every removal that waits there waits an update exactly when
every barrel that a question has dropped since the tasks were last taken is the one with whose drop the
changes since then began. -/
theorem removalsFollowed_iff (project : Project) (projectDirs : List Path)
    (steps : List (Surroundings × Step)) :
    let reached := (History.begin project projectDirs).run steps
    let changes := openChanges reached.events
    reached.session.tasks.RemovalsFollowed ↔
      ∀ barrel, .dropped barrel ∈ changes → changes.head? = some (.dropped barrel) := by
  intro reached changes
  have sound : reached.Sound := (History.sound_begin project projectDirs).run steps
  rw [sound.queue]
  apply removalsFollowed_foldl_enqueue_iff
  intro barrel listed
  exact sound.dropped barrel (mem_events_of_mem_openChanges listed)

/-- A barrel that a question brings and that is dropped for a file on disk before the queue runs: its file
is removed behind the only update. -/
theorem removal_of_new_barrel_waits_behind_update :
    let project : Project := ⟨[], [], {}, fun _ => none, fun _ => true, fun _ _ => []⟩
    let source : Path × String := (⟨"/p/c/a.ts"⟩, "export const v = 1")
    let before : Moment := ⟨(Disk.ofList [source] []).fileSystem, project⟩
    let now : Moment :=
      ⟨(Disk.ofList [source, (⟨"/p/c/index.ts"⟩, "export \x7b\x7d")] []).fileSystem, project⟩
    let reached := (History.begin project [⟨"/p"⟩]).run
      [(.still before, .probe ⟨"/p/c/index.ts"⟩), (.still now, .probe ⟨"/p/c/index.ts"⟩)]
    ¬reached.session.tasks.RemovalsFollowed ∧
      (reached.session.runPendingTasks now.host now.project).2 =
        [.updateGraph, .removeFile ⟨"/p/c/index.ts"⟩] := by
  intro project source before now reached
  have waits : reached.session.tasks.pending = [.updateGraph, .removeFile ⟨"/p/c/index.ts"⟩] := by
    decide +kernel
  refine ⟨fun followed => ?_, by decide +kernel⟩
  exact List.not_mem_nil (followed [.updateGraph] ⟨"/p/c/index.ts"⟩ [] waits)

end Session

end BarrelSynthesis
