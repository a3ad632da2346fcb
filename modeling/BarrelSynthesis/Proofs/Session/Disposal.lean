/-
# Barrels that leave the registry

A barrel leaves the registry when a file takes its place on disk, or when an update finds that the project
does not know it or that its folder has no room for it. An update tells the project at once to remove the
file of a barrel without room; a question queues that. Running the queue begins every task that waits in
it, and removes a file if the project still knows it.
-/
import BarrelSynthesis.Proofs.Session.Delivery

namespace BarrelSynthesis

namespace TaskQueue

variable {queue : TaskQueue}

/-- What waits in a queue goes on waiting when something is scheduled. -/
theorem mem_schedule_of_mem {task other : Task} (waits : other ∈ queue.pending) :
    other ∈ (queue.schedule task).pending := by
  rw [schedule]
  split
  · exact List.mem_append_left _ waits
  · exact waits

/-- A removal that is queued waits, under the same path if all paths are normalized. -/
theorem removeFile_mem_schedule {path : Path} (normal : path.normalize = path)
    (normals : ∀ other, .removeFile other ∈ queue.pending → other.normalize = other) :
    .removeFile path ∈ (queue.schedule (.removeFile path)).pending := by
  have pending : (queue.schedule (.removeFile path)).isPending (.removeFile path) = true := by
    rw [isPending_schedule, Task.same, Path.same_iff.mpr rfl, Bool.or_true]
  obtain ⟨task, waits, same⟩ := List.any_eq_true.mp pending
  cases task with
  | updateGraph => cases same
  | removeFile other =>
      have otherNormal : other.normalize = other := by
        rcases mem_schedule waits with before | new
        · exact normals other before
        · obtain rfl := Task.removeFile.inj new
          exact normal
      have one := Path.eq_of_components_eq otherNormal normal (Path.same_iff.mp same)
      exact one ▸ waits

end TaskQueue

namespace Session

/-- A change that is queued takes nothing from the queue. -/
theorem Change.mem_enqueue_of_mem {queue : TaskQueue} {task : Task} (waits : task ∈ queue.pending)
    (change : Change) : task ∈ (change.enqueue queue).pending := by
  cases change with
  | brought barrel => exact TaskQueue.mem_schedule_of_mem waits
  | dropped barrel => exact TaskQueue.mem_schedule_of_mem (TaskQueue.mem_schedule_of_mem waits)

/-- The barrel that an event takes from the registry. -/
def Event.removed? : Event → Option Path
  | .changed (.dropped barrel) => some barrel
  | .discarded barrel => some barrel
  | _ => none

namespace History

variable {around : Surroundings} {before middle after history : History}

/-- Between two points of a history an event happened, after `earlier` and before `later`. -/
structure Happened (before after : History) (earlier : List Event) (event : Event)
    (later : List Event) : Prop where
  since : before.events <+: earlier
  events : after.events = earlier ++ event :: later

namespace Happened

variable {earlier later : List Event} {event : Event}

/-- What happened before some point happened before every later point. -/
theorem append (happened : Happened before middle earlier event later) {rest : List Event}
    (grown : middle.events ++ rest = after.events) :
    Happened before after earlier event (later ++ rest) := by
  refine ⟨happened.since, ?_⟩
  rw [← grown, happened.events, List.append_assoc, List.cons_append]

/-- Every event of a stretch happened in one part of it or in the other. -/
theorem before_or_after (happened : Happened before after earlier event later)
    (grown : middle.events <+: after.events) :
    (∃ between rest, later = between ++ rest ∧ Happened before middle earlier event between) ∨
      Happened middle after earlier event later := by
  obtain ⟨rest, grown⟩ := grown
  rcases List.append_eq_append_iff.mp (grown.trans happened.events) with
    ⟨front, here, -⟩ | ⟨front, here, shape⟩
  · exact .inr ⟨⟨front, here.symm⟩, happened.events⟩
  · cases front with
    | nil =>
        have met : middle.events = earlier := here.trans (List.append_nil earlier)
        exact .inr ⟨met ▸ List.prefix_refl _, happened.events⟩
    | cons first between =>
        obtain ⟨rfl, behind⟩ := List.cons.inj shape
        exact .inl ⟨between, rest, behind, happened.since, here⟩

/-- What happened since some point is one of the events that were added. -/
theorem exists_of_append {more : List Event} (happened : Happened before after earlier event later)
    (grown : after.events = before.events ++ more) :
    ∃ front, earlier = before.events ++ front ∧ more = front ++ event :: later := by
  obtain ⟨front, rfl⟩ := happened.since
  refine ⟨front, rfl, ?_⟩
  have same := grown.symm.trans happened.events
  rw [List.append_assoc] at same
  exact List.append_cancel_left same

end Happened

/-- Nothing is owed any more for a barrel that was removed after `earlier` and before `later`: the project
did not know it then, was told afterwards to remove its file, or will be. -/
def IsSettled (around : Surroundings) (after : History) (earlier later : List Event)
    (path : Path) : Prop :=
  (around.moment earlier).project.hasScriptInfo path = false ∨ .told (.removeFile path) ∈ later ∨
    .removeFile path ∈ after.session.tasks.pending

/-- What happened between two points of a history accounts for every barrel that was removed: its removal
is among the events, and nothing is owed for it. -/
structure Accounts (around : Surroundings) (before after : History) : Prop where
  grown : before.events <+: after.events
  removed : ∀ path, before.session.isVirtual path = true → after.session.isVirtual path = false →
    ∃ earlier event later, Happened before after earlier event later ∧
      event.removed? = some path.normalize
  settled : ∀ earlier event later path, Happened before after earlier event later →
    event.removed? = some path → IsSettled around after earlier later path

namespace Accounts

/-- Two accounts make one, if what waited between them still waits in the end. -/
theorem trans (first : Accounts around before middle) (second : Accounts around middle after)
    (waits : ∀ task ∈ middle.session.tasks.pending, task ∈ after.session.tasks.pending) :
    Accounts around before after where
  grown := first.grown.trans second.grown
  removed := by
    intro path known gone
    cases between : middle.session.isVirtual path with
    | true =>
        obtain ⟨earlier, event, later, happened, removes⟩ := second.removed path between gone
        exact ⟨earlier, event, later, ⟨first.grown.trans happened.since, happened.events⟩, removes⟩
    | false =>
        obtain ⟨earlier, event, later, happened, removes⟩ := first.removed path known between
        obtain ⟨rest, grown⟩ := second.grown
        exact ⟨earlier, event, later ++ rest, happened.append grown, removes⟩
  settled := by
    intro earlier event later path happened removes
    rcases happened.before_or_after second.grown with ⟨between, rest, rfl, early⟩ | late
    · rcases first.settled earlier event between path early removes with unknown | told | pending
      · exact .inl unknown
      · exact .inr (.inl (List.mem_append_left _ told))
      · exact .inr (.inr (waits _ pending))
    · exact second.settled earlier event later path late removes

/-- Events that take no barrel away account for a change that takes none. -/
theorem of_silent {more : List Event} (grown : after.events = before.events ++ more)
    (kept : ∀ path, before.session.isVirtual path = true → after.session.isVirtual path = true)
    (silent : ∀ event ∈ more, event.removed? = none) : Accounts around before after where
  grown := ⟨more, grown.symm⟩
  removed := by
    intro path known gone
    rw [kept path known] at gone
    cases gone
  settled := by
    intro earlier event later path happened removes
    obtain ⟨front, -, rfl⟩ := happened.exists_of_append grown
    rw [silent event (List.mem_append_right _ List.mem_cons_self)] at removes
    cases removes

/-- Nothing is owed where nothing happens. -/
theorem refl (history : History) : Accounts around history history :=
  of_silent (List.append_nil _).symm (fun _ known => known) fun _ listed => absurd listed List.not_mem_nil

/-- Events that begin with taking a barrel away account for its removal, if they take no other and settle
it. -/
theorem of_removal {barrel : Path} {event : Event} {more : List Event}
    (grown : after.events = before.events ++ event :: more)
    (kept : ∀ path, path.normalize ≠ barrel → before.session.isVirtual path = true →
      after.session.isVirtual path = true)
    (removes : event.removed? = some barrel) (silent : ∀ other ∈ more, other.removed? = none)
    (settled : IsSettled around after before.events more barrel) : Accounts around before after where
  grown := ⟨event :: more, grown.symm⟩
  removed := by
    intro path known gone
    refine ⟨before.events, event, more, ⟨List.prefix_refl _, grown⟩, ?_⟩
    rw [removes]
    by_contra differs
    rw [kept path (fun same => differs (congrArg some same.symm)) known] at gone
    cases gone
  settled := by
    intro earlier other later path happened removesOther
    obtain ⟨front, rfl, shape⟩ := happened.exists_of_append grown
    cases front with
    | nil =>
        obtain ⟨rfl, rfl⟩ := List.cons.inj shape
        obtain rfl := Option.some.inj (removes.symm.trans removesOther)
        rw [List.append_nil]
        exact settled
    | cons first between =>
        obtain ⟨-, rfl⟩ := List.cons.inj shape
        rw [silent other (List.mem_append_right _ List.mem_cons_self)] at removesOther
        cases removesOther

/-- An event that removes no barrel owes nothing. -/
theorem note (event : Event) (silent : event.removed? = none) (history : History) :
    Accounts around history (history.note event) := by
  have grown : (history.note event).events = history.events ++ [event] := rfl
  apply of_silent grown (fun _ known => known)
  intro other listed
  rw [List.mem_singleton.mp listed]
  exact silent

end Accounts

/-! ## What questions account for -/

/-- What waits goes on waiting while questions are asked. -/
theorem mem_pending_ask {task : Task} (waits : task ∈ history.session.tasks.pending) (path : Path) :
    task ∈ (history.ask around path).session.tasks.pending := by
  have asked := asked around history path
  generalize history.ask around path = after at asked
  cases asked with
  | unchanged => exact waits
  | dropped barrel known =>
      rw [deleteBarrel_of_known known]
      exact Change.mem_enqueue_of_mem waits _
  | brought barrel unknown =>
      rw [createBarrel_of_unknown unknown]
      exact Change.mem_enqueue_of_mem waits _

/-- A question that drops a barrel queues the removal of its file. -/
theorem Sound.accounts_ask (sound : history.Sound) (path : Path) :
    Accounts around history (history.ask around path) := by
  have asked := asked around history path
  generalize history.ask around path = after at asked
  cases asked with
  | unchanged => exact .refl history
  | dropped barrel known =>
      refine .of_removal rfl (fun path differs virtual => ?_) rfl (fun _ listed => absurd listed List.not_mem_nil) ?_
      · rw [isVirtual_eq, get?_deleteBarrel, if_neg (Ne.symm differs), ← isVirtual_eq]
        exact virtual
      · rw [deleteBarrel_of_known known]
        right
        right
        apply TaskQueue.mem_schedule_of_mem
        exact TaskQueue.removeFile_mem_schedule barrel.normalize_normalize sound.removals
  | brought barrel =>
      refine .of_silent rfl (fun path virtual => ?_) fun event listed => ?_
      · rw [isVirtual_eq] at virtual ⊢
        rw [get?_createBarrel, Option.isSome_or, virtual, Bool.true_or]
      · rw [List.mem_singleton.mp listed]
        rfl

/-! ## What updates account for -/

/-- What is sound and accounts for everything since some point. -/
structure AccountsSince (around : Surroundings) (start history : History) : Prop where
  sound : history.Sound
  accounts : Accounts around start history

namespace AccountsSince

variable {start : History}

/-- The account goes on over a question, whatever barrel it removes. -/
theorem ask (since : AccountsSince around start history) (path : Path) :
    AccountsSince around start (history.ask around path) where
  sound := since.sound.ask path
  accounts := since.accounts.trans (since.sound.accounts_ask path) fun _ waits =>
    mem_pending_ask waits path

/-- It goes on over a call to the project, which removes no barrel. -/
theorem told (since : AccountsSince around start history) (call : ProjectCall) :
    AccountsSince around start (history.note (.told call)) where
  sound := since.sound.told call
  accounts := since.accounts.trans (.note (.told call) rfl history) fun _ waits => waits

/-- It goes on over a task that is begun. -/
theorem begun (since : AccountsSince around start history) (task : Task) :
    AccountsSince around start (history.note (.begun task)) where
  sound := since.sound.begun task
  accounts := since.accounts.trans (.note (.begun task) rfl history) fun _ waits => waits

/-- What goes on from a history that is accounted for, first without questions and then with some, is
accounted for as well. -/
theorem asks (since : AccountsSince around start history) (sound : middle.Sound)
    (accounts : Accounts around history middle)
    (tasks : middle.session.tasks = history.session.tasks) (paths : List Path) :
    AccountsSince around start (paths.foldl (History.ask around) middle) := by
  have reached : AccountsSince around start middle :=
    ⟨sound, since.accounts.trans accounts fun _ waits => tasks ▸ waits⟩
  exact List.foldlRecOn _ _ reached fun _ since path _ => since.ask path

end AccountsSince

/-- Dropping a barrel and what is told at once accounts for the barrel if the project did not know it or
is told to remove its file. -/
theorem accounts_erase {barrel : Path} (normal : barrel.normalize = barrel) {session : Session}
    (erased : session.registry = history.session.registry.erase barrel) (calls : List Event)
    (silent : ∀ event ∈ calls, event.removed? = none)
    (settled : (around.moment history.events).project.hasScriptInfo barrel = false ∨
      .told (.removeFile barrel) ∈ calls) :
    Accounts around history
      ⟨session, history.events ++ history.session.discards session barrel ++ calls⟩ := by
  have elsewhere : ∀ path, path.normalize ≠ barrel → history.session.isVirtual path = true →
      session.isVirtual path = true := by
    intro path differs virtual
    rw [isVirtual_eq, erased, Registry.get?_erase, normal, if_neg (Ne.symm differs), ← isVirtual_eq]
    exact virtual
  have gone : session.isVirtual barrel = false := by
    rw [isVirtual_eq, erased, Registry.get?_erase, if_pos rfl]
    rfl
  rw [discards, gone, Bool.not_false, Bool.and_true, List.append_assoc]
  cases known : history.session.isVirtual barrel with
  | true => exact .of_removal rfl elsewhere rfl silent (settled.imp_right .inl)
  | false =>
      apply Accounts.of_silent rfl _ silent
      intro path virtual
      refine elsewhere path (fun same => ?_) virtual
      have here : history.session.isVirtual path = history.session.isVirtual barrel :=
        isVirtual_congr (same.trans normal.symm)
      rw [here, known] at virtual
      cases virtual

/-- Where no barrel goes there is nothing to account for. -/
theorem accounts_of_kept {session : Session} (barrel : Path)
    (kept : ∀ path, history.session.isVirtual path = true → session.isVirtual path = true) :
    Accounts around history
      ⟨session, history.events ++ history.session.discards session barrel⟩ := by
  have silent : history.session.discards session barrel = [] := by
    rw [discards]
    cases known : history.session.isVirtual barrel with
    | true => rw [kept barrel known]; rfl
    | false => rfl
  rw [silent]
  exact .of_silent rfl kept fun _ listed => absurd listed List.not_mem_nil

/-- A barrel that is written again stays, and so do the others. -/
theorem isVirtual_upsert (session : Session) (barrel : Path) (version : Path → String)
    (calculation : BarrelCalculation) (path : Path) (virtual : session.isVirtual path = true) :
    Session.isVirtual { session with registry := session.registry.upsert barrel version calculation }
      path = true := by
  rw [isVirtual_eq] at virtual ⊢
  rw [Registry.get?_upsert]
  split
  · rfl
  · exact virtual

/-- The project is told once the registry has been updated; then its questions are accounted for one by
one. -/
theorem AccountsSince.updateBarrel {start : History} (since : AccountsSince around start history)
    {barrel : Path} (isBarrel : IsBarrelPath barrel) :
    AccountsSince around start (history.updateBarrel around barrel) := by
  let now := around.moment history.events
  have sound := since.sound.updated now isBarrel
  have update := barrelUpdate now history.session barrel
  have done : history.updateBarrel around barrel =
      (history.session.updateBarrel now.host now.project barrel).2.foldl (tell around)
        ⟨(history.session.updateBarrel now.host now.project barrel).1, history.events ++
          history.session.discards (history.session.updateBarrel now.host now.project barrel).1 barrel⟩ :=
    rfl
  rw [done]
  generalize history.session.updateBarrel now.host now.project barrel = reached at update sound
  let erased : Session :=
    { history.session with registry := history.session.registry.erase barrel }
  cases update with
  | unknown unknown =>
      have accounts : Accounts around history ⟨erased, _⟩ :=
        accounts_erase isBarrel.normal rfl [] (fun _ listed => absurd listed List.not_mem_nil)
          (.inl unknown)
      rw [List.append_nil] at accounts
      exact since.asks sound accounts rfl []
  | outermost => exact since.asks sound (accounts_of_kept barrel fun _ known => known) rfl []
  | full =>
      have accounts : Accounts around history ⟨erased, _⟩ :=
        accounts_erase isBarrel.normal rfl [.told (.removeFile barrel)]
          (fun event listed => by rw [List.mem_singleton.mp listed]; rfl) (.inr List.mem_cons_self)
      exact since.asks (sound.told (.removeFile barrel)) accounts rfl _
  | fresh => exact since.asks sound (accounts_of_kept barrel fun _ known => known) rfl []
  | stale folder =>
      let calculation := Barrel.calculate (history.session.served now.host) now.project.options folder
      let call := ProjectCall.editContent barrel calculation.barrel.text
      have kept := isVirtual_upsert history.session barrel
        (history.session.versionOf now.host now.project) calculation
      have accounts : Accounts around history (note ⟨_, _⟩ (.told call)) :=
        (accounts_of_kept barrel kept).trans (.note (.told call) rfl _) fun _ waits => waits
      exact since.asks (sound.told call) accounts rfl _

/-! ## What steps account for -/

/-- The account since some point lasts through whatever happens in the middle of a step. -/
theorem accounts_lasts (around : Surroundings) (start : History) :
    Lasts around (AccountsSince around start) where
  asked := fun _ path since => since.ask path
  told := fun _ call since => since.told call
  begun := fun _ task since => since.begun task
  barrels := fun _ since => since.sound.barrels
  updated := fun _ _ isBarrel since => since.updateBarrel isBarrel

/-- What waits when the queue is run is taken from it, and what is queued meanwhile waits afterwards. -/
theorem Sound.accounts_act (sound : history.Sound) (around : Surroundings) (step : Step) :
    Accounts around history (history.act around step) := by
  have lasts := accounts_lasts around history
  have start : AccountsSince around history history := ⟨sound, .refl history⟩
  cases step with
  | probe path => exact sound.accounts_ask path
  | updateBarrels => exact (lasts.updateBarrels start).accounts
  | updateGraph => exact (lasts.updateGraph start).accounts
  | runPendingTasks =>
      have taken : Accounts around history history.drained :=
        .of_silent rfl (fun _ known => known) fun event listed => by
          rw [List.mem_singleton.mp listed]
          rfl
      have drained : AccountsSince around history.drained history.drained :=
        ⟨sound.drained, .refl history.drained⟩
      have run := (accounts_lasts around history.drained).runTasks drained history.session.tasks.drain.1
      exact taken.trans run.accounts fun _ waits => absurd waits List.not_mem_nil

/-- A removal is begun, and the project is told at once if it knows the file. -/
theorem events_runTask_removeFile (around : Surroundings) (history : History) (path : Path) :
    ∃ later, (history.runTask around (.removeFile path)).events =
        history.events ++ .begun (.removeFile path) :: later ∧
      ((around.moment (history.events ++ [.begun (.removeFile path)])).project.hasScriptInfo path =
        true → later.head? = some (.told (.removeFile path))) := by
  obtain ⟨events, goesOn, carried⟩ := carriesOut_runTask around history (.removeFile path)
  cases carried with
  | removed known calm => exact ⟨_, goesOn.grown, fun _ => rfl⟩
  | unknown unknown =>
      exact ⟨[], goesOn.grown, fun knows => absurd (unknown.symm.trans knows) Bool.false_ne_true⟩

/-- Running the queue begins every removal that waits in it. -/
theorem Sound.begun_of_pending (sound : history.Sound) (around : Surroundings) {path : Path}
    (waits : .removeFile path ∈ history.session.tasks.pending) :
    ∃ earlier later,
      Happened history (history.runPendingTasks around) earlier (.begun (.removeFile path)) later ∧
        ((around.moment (earlier ++ [.begun (.removeFile path)])).project.hasScriptInfo path = true →
          later.head? = some (.told (.removeFile path))) := by
  obtain ⟨first, rest, split⟩ := List.append_of_mem waits
  have start : AccountsSince around history.drained history.drained :=
    ⟨sound.drained, .refl history.drained⟩
  have reached := (accounts_lasts around history.drained).runTasks start first
  let before := first.foldl (runTask around) history.drained
  obtain ⟨now, done, tells⟩ := events_runTask_removeFile around before path
  let removed := before.runTask around (.removeFile path)
  have begins : AccountsSince around removed removed :=
    ⟨(Sound.lasts around).runTask reached.sound (.removeFile path), .refl removed⟩
  have ends := (accounts_lasts around removed).runTasks begins rest
  have run : history.runPendingTasks around = rest.foldl (runTask around) removed := by
    rw [runPendingTasks, TaskQueue.drain, split, List.foldl_append, List.foldl_cons]
  obtain ⟨more, grown⟩ := ends.accounts.grown
  refine ⟨before.events, now ++ more, ⟨?_, ?_⟩, fun known => ?_⟩
  · exact (List.prefix_append _ _).trans reached.accounts.grown
  · rw [run, ← grown, done, List.append_assoc, List.cons_append]
  · rw [List.head?_append, tells known, Option.some_or]

end History

/-- However a session was driven, in every step that takes a barrel from the registry its removal is among
the events, and at the moment of a removal the project does not know the barrel, or else it is told in the
same step to remove the file, or will be once the queue is run. Running the queue begins every removal
that waits there, and the project is told at once if it knows the file. -/
theorem removed_barrel_is_disposed_of (project : Project) (projectDirs : List Path)
    (steps : List (Surroundings × Step)) (around : Surroundings) (step : Step) :
    let reached := (History.begin project projectDirs).run steps
    let after := reached.act around step
    (∀ path, reached.session.isVirtual path = true → after.session.isVirtual path = false →
        ∃ earlier event later, reached.Happened after earlier event later ∧
          event.removed? = some path.normalize) ∧
      (∀ earlier event later path, reached.Happened after earlier event later →
        event.removed? = some path →
          (around.moment earlier).project.hasScriptInfo path = false ∨
            .told (.removeFile path) ∈ later ∨ .removeFile path ∈ after.session.tasks.pending) ∧
      ∀ path, .removeFile path ∈ reached.session.tasks.pending →
        ∃ earlier later,
          reached.Happened (reached.runPendingTasks around) earlier (.begun (.removeFile path)) later ∧
            ((around.moment (earlier ++ [.begun (.removeFile path)])).project.hasScriptInfo path =
              true → later.head? = some (.told (.removeFile path))) := by
  intro reached after
  have sound : reached.Sound := (History.sound_begin project projectDirs).run steps
  have accounts : History.Accounts around reached after := sound.accounts_act around step
  exact ⟨accounts.removed, accounts.settled, fun _ waits => sound.begun_of_pending around waits⟩

/-- A barrel whose place a file has taken: the question for it drops the barrel, and the project is told
to remove it when the queue is run. -/
theorem replaced_barrel_is_disposed_of :
    let project : Project := ⟨[⟨"/p/c/a.ts"⟩], [], {}, fun _ => none, fun _ => true, fun _ _ => []⟩
    let now : Moment := ⟨(Disk.ofList [(⟨"/p/c/a.ts"⟩, "export const v = 1"),
      (⟨"/p/c/index.ts"⟩, "export \x7b\x7d")] []).fileSystem, project⟩
    let barrel : Path := ⟨"/p/c/index.ts"⟩
    let start := (History.begin project [⟨"/p"⟩]).run []
    start.session.isVirtual barrel = true ∧
      (start.act (.still now) (.probe barrel)).session.isVirtual barrel = false ∧
      .removeFile barrel ∈ (start.act (.still now) (.probe barrel)).session.tasks.pending := by
  intro project now barrel start
  have disposed :=
    (removed_barrel_is_disposed_of project [⟨"/p"⟩] [] (.still now) (.probe barrel)).2.1
  have here : (History.begin project [⟨"/p"⟩]).run [] = start := rfl
  rw [here] at disposed
  have events : (start.act (.still now) (.probe barrel)).events = [.changed (.dropped barrel)] := by
    decide +kernel
  have settled := disposed [] (.changed (.dropped barrel)) [] barrel ⟨List.prefix_refl _, events⟩ rfl
  refine ⟨by decide +kernel, by decide +kernel, ?_⟩
  rcases settled with unknown | told | waits
  · cases unknown
  · cases told
  · exact waits

end Session

end BarrelSynthesis
