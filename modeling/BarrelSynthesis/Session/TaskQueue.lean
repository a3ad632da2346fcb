/-
# Deferred tasks

A question about a file may create or drop a barrel, but must not change the project while it is being
answered. What follows from it is queued and done later, first in, first out. A task that is already
pending is not queued again.
-/
import BarrelSynthesis.Path.Basic

namespace BarrelSynthesis

/-- Something to do later. -/
inductive Task
  /-- Remove a dropped barrel from the open files of the project. -/
  | removeFile (path : Path)
  /-- Bring the project up to date. -/
  | updateGraph
  deriving Repr, DecidableEq, Inhabited

/-- Two spellings of one task. -/
def Task.same : Task → Task → Bool
  | removeFile a, removeFile b => a.same b
  | updateGraph, updateGraph => true
  | _, _ => false

/-- The tasks that wait, the oldest first. -/
structure TaskQueue where
  pending : List Task
  deriving Repr, Inhabited

namespace TaskQueue

/-- The queue without tasks. -/
def empty : TaskQueue := ⟨[]⟩

/-- Whether a task waits already. -/
def isPending (queue : TaskQueue) (task : Task) : Bool :=
  queue.pending.any (·.same task)

/-- Whether a task can be queued: it does not wait yet. -/
def accepts (queue : TaskQueue) (task : Task) : Bool :=
  !queue.isPending task

/-- Queues a task, if it is accepted. -/
def schedule (queue : TaskQueue) (task : Task) : TaskQueue :=
  if queue.accepts task then ⟨queue.pending ++ [task]⟩ else queue

/-- The task that has waited longest, and the queue without it. -/
def pop (queue : TaskQueue) : Option Task × TaskQueue :=
  match queue.pending with
  | [] => (none, queue)
  | task :: rest => (some task, ⟨rest⟩)

/-- All tasks that wait, and the queue without them. -/
def drain (queue : TaskQueue) : List Task × TaskQueue :=
  (queue.pending, empty)

/-- The number of tasks that wait. -/
def size (queue : TaskQueue) : Nat :=
  queue.pending.length

/-- Whether no task waits. -/
def isEmpty (queue : TaskQueue) : Bool :=
  queue.pending.isEmpty

end TaskQueue

end BarrelSynthesis
