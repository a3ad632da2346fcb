/-
# Where registered barrels come from

A session registers a barrel for every folder that has none of its own when it is created. After that only
questions register barrels: one that finds a folder of the project without an aggregator, either because
the folder was asked for or because its aggregator was. An update writes entries back, but only under paths
that were registered when it began, and so does running the queue. Both may tell the project something, and
what the project asks meanwhile is a question as any other.

What happens between two points of a history is described by a relation that can be chained, so that each
operation is described once, by what its parts do.
-/
import BarrelSynthesis.Proofs.Session.Disposal
import BarrelSynthesis.Proofs.Session.Hydration

namespace BarrelSynthesis

namespace Session

/-- A barrel can be brought: it lies below one of some folders and in no dependency of the project, and
its own folder is there and holds no aggregator. -/
structure Admitted (host : FileSystem) (dirs : List Path) (barrel : Path) : Prop where
  inside : ∃ dir ∈ dirs, barrel.startsWith dir = true
  own : .name "node_modules" ∉ barrel.components
  room : ∃ folder, barrel.parent? = some folder ∧ host.directoryExists folder = true ∧
    ∀ file ∈ host.readDirectory folder, Extension.isBarrelFile file = false

/-- Where there is room for a barrel, it can be brought. -/
theorem HasRoom.admitted {host : FileSystem} {session : Session} {barrel : Path}
    (room : HasRoom host session barrel) : Admitted host session.projectDirs barrel := by
  obtain ⟨folder, normal, holds, same⟩ := room.folder
  obtain ⟨there, free⟩ := canHoldBarrel_iff.mp holds
  have parent : barrel.parent? = some folder := by
    rw [same, Path.parent?_join normal Extension.isSegment_barrelFileName]
  have inside := room.project
  simp only [isProjectPath, Bool.and_eq_true, Bool.not_eq_true', List.contains_eq_mem,
    decide_eq_false_iff_not, List.any_eq_true] at inside
  exact ⟨inside.2, inside.1, folder, parent, there, free⟩

/-- A question that brings a barrel found room for it. -/
theorem hasRoom_of_changeOf? {host : FileSystem} {session : Session} {path barrel : Path}
    (changes : session.changeOf? (deed host session path) = some (.brought barrel)) :
    HasRoom host session barrel := by
  rcases deed_cases host session path with ⟨-, drops⟩ | ⟨-, nothing | ⟨place, brings, room⟩⟩
  · rw [drops, changeOf?] at changes
    split at changes <;> cases changes
  · rw [nothing] at changes
    cases changes
  · rw [brings, changeOf?] at changes
    split at changes
    · cases changes
    · obtain rfl := Change.brought.inj (Option.some.inj changes)
      rw [room.normal]
      exact room

/-- Updating a barrel changes no folder of the project. -/
theorem projectDirs_updateBarrel (now : Moment) (session : Session) (barrel : Path) :
    (session.updateBarrel now.host now.project barrel).1.projectDirs = session.projectDirs := by
  have update := barrelUpdate now session barrel
  generalize session.updateBarrel now.host now.project barrel = reached at update ⊢
  cases update <;> rfl

namespace History

variable {around : Surroundings} {before middle after history : History} {listed : List Path}

/-! ## Barrels that questions bring -/

/-- Between two points of a history a question brought a barrel. -/
def Brings (before after : History) (path : Path) : Prop :=
  ∃ earlier later, Happened before after earlier (.changed (.brought path)) later

namespace Brings

variable {path : Path}

/-- What was brought up to a point was brought up to any later one. -/
theorem until_later (brings : Brings before middle path) (grown : middle.events <+: after.events) :
    Brings before after path := by
  obtain ⟨earlier, later, happened⟩ := brings
  obtain ⟨rest, grown⟩ := grown
  exact ⟨earlier, later ++ rest, happened.append grown⟩

/-- What was brought since a point was brought since any earlier one. -/
theorem since_earlier (brings : Brings middle after path) (grown : before.events <+: middle.events) :
    Brings before after path := by
  obtain ⟨earlier, later, happened⟩ := brings
  exact ⟨earlier, later, grown.trans happened.since, happened.events⟩

/-- A point in between parts the questions: a barrel was brought before it or behind it. -/
theorem before_or_after (brings : Brings before after path) (grown : middle.events <+: after.events) :
    Brings before middle path ∨ Brings middle after path := by
  obtain ⟨earlier, later, happened⟩ := brings
  rcases happened.before_or_after grown with ⟨between, -, -, early⟩ | late
  · exact .inl ⟨earlier, between, early⟩
  · exact .inr ⟨earlier, later, late⟩

end Brings

/-! ## What can be registered between two points -/

/-- What is registered between two points of a history: the folders of the project stay the same, and
besides the barrels of a list, only barrels are registered that a question brings and that can be brought
at that moment. -/
structure Registers (around : Surroundings) (listed : List Path) (before after : History) : Prop where
  dirs : after.session.projectDirs = before.session.projectDirs
  grown : before.events <+: after.events
  known : after.session.registry.PathsAre fun path =>
    path ∈ before.session.registry.paths ∨ path ∈ listed ∨ Brings before after path
  admitted : ∀ earlier later path, Happened before after earlier (.changed (.brought path)) later →
    Admitted (around.moment earlier).host before.session.projectDirs path

/-- The same of something that is no question: the barrels that are brought are those that the project
asks for meanwhile. -/
structure Updates (around : Surroundings) (listed : List Path) (before after : History) : Prop
    extends Registers around listed before after where
  quiet : around.Quiet → ∀ path, ¬Brings before after path

/-- What registers nothing else in two stretches registers nothing else in both together. -/
theorem Registers.trans (first : Registers around listed before middle)
    (second : Registers around listed middle after) : Registers around listed before after where
  dirs := second.dirs.trans first.dirs
  grown := first.grown.trans second.grown
  known := by
    intro path registered
    rcases second.known path registered with early | isListed | late
    · rcases first.known path early with start | isListed | brings
      · exact .inl start
      · exact .inr (.inl isListed)
      · exact .inr (.inr (brings.until_later second.grown))
    · exact .inr (.inl isListed)
    · exact .inr (.inr (late.since_earlier first.grown))
  admitted := by
    intro earlier later path happened
    rcases happened.before_or_after second.grown with ⟨between, -, -, early⟩ | late
    · exact first.admitted earlier between path early
    · rw [← first.dirs]
      exact second.admitted earlier later path late

namespace Updates

/-- Two updates in a row make up one update. -/
theorem trans (first : Updates around listed before middle)
    (second : Updates around listed middle after) : Updates around listed before after where
  toRegisters := first.toRegisters.trans second.toRegisters
  quiet := by
    intro quiet path brings
    rcases brings.before_or_after second.grown with early | late
    · exact first.quiet quiet path early
    · exact second.quiet quiet path late

/-- Events that bring nothing register nothing, if nothing is. -/
theorem of_silent {more : List Event} (dirs : after.session.projectDirs = before.session.projectDirs)
    (events : after.events = before.events ++ more)
    (silent : ∀ path, .changed (.brought path) ∉ more)
    (known : after.session.registry.PathsAre fun path =>
      path ∈ before.session.registry.paths ∨ path ∈ listed) :
    Updates around listed before after := by
  have unbrought : ∀ earlier later path,
      ¬Happened before after earlier (.changed (.brought path)) later := by
    intro earlier later path happened
    obtain ⟨front, -, rfl⟩ := happened.exists_of_append events
    exact silent path (List.mem_append_right _ List.mem_cons_self)
  exact {
    dirs := dirs
    grown := ⟨more, events.symm⟩
    known := fun path registered => (known path registered).imp_right .inl
    admitted := fun earlier later path happened => absurd happened (unbrought earlier later path)
    quiet := by
      rintro - path ⟨earlier, later, happened⟩
      exact unbrought earlier later path happened }

theorem refl (history : History) : Updates around listed history history :=
  of_silent rfl (List.append_nil _).symm (fun _ => List.not_mem_nil) fun _ => .inl

/-- An event that brings no barrel is part of an update. -/
theorem note (history : History) {event : Event} (silent : ∀ path, event ≠ .changed (.brought path)) :
    Updates around listed history (history.note event) :=
  of_silent rfl rfl (fun path brought => silent path (List.mem_singleton.mp brought).symm)
    fun _ => .inl

/-- What registers nothing but what was registered when it began registers nothing. -/
theorem of_registered (updates : Updates around before.session.registry.paths before after) :
    Updates around [] before after :=
  { updates with
    known := fun path registered => by
      rcases updates.known path registered with known | known | brings
      · exact .inl known
      · exact .inl known
      · exact .inr (.inr brings) }

end Updates

/-! ## Operations -/

/-- A question registers a barrel that can be brought, or none. -/
theorem registers_ask (history : History) (path : Path) :
    Registers around listed history (history.ask around path) where
  dirs := by
    rw [ask, fileExists_snd]
    exact projectDirs_perform _ _
  grown := List.prefix_append _ _
  known := by
    have asked := asked around history path
    generalize history.ask around path = after at asked
    cases asked with
    | unchanged => exact fun _ known => .inl known
    | dropped barrel known =>
        have kept : history.session.registry.PathsAre fun path =>
            path ∈ history.session.registry.paths := fun _ known => known
        rw [deleteBarrel_of_known known]
        exact fun path registered => .inl (kept.erase barrel path registered)
    | brought barrel unknown =>
        have brings (session : Session) : Brings history
            ⟨session, history.events ++ [.changed (.brought barrel.normalize)]⟩ barrel.normalize :=
          ⟨history.events, [], List.prefix_refl _, rfl⟩
        rw [createBarrel_of_unknown unknown]
        exact Registry.PathsAre.register (fun _ known => .inl known) (.inr (.inr (brings _)))
  admitted := by
    intro earlier later barrel happened
    let host := (around.moment history.events).host
    let change := history.session.changeOf? (deed host history.session path)
    have grown : (history.ask around path).events =
        history.events ++ change.toList.map .changed := rfl
    obtain ⟨front, rfl, shape⟩ := happened.exists_of_append grown
    -- A question makes one change at most, so that this is the one, and nothing happened before it.
    have alone : front = [] ∧ change = some (.brought barrel) := by
      cases made : change with
      | none => simp [made] at shape
      | some only =>
          cases front with
          | nil =>
              obtain ⟨rfl, -⟩ : only = .brought barrel ∧ later = [] := by simpa [made] using shape
              exact ⟨rfl, rfl⟩
          | cons first rest => simp [made] at shape
    obtain ⟨rfl, made⟩ := alone
    rw [List.append_nil]
    exact (hasRoom_of_changeOf? made).admitted

/-- Questions in a row register barrels that can be brought, or none. -/
theorem registers_foldl_ask (paths : List Path) (history : History) :
    Registers around listed history (paths.foldl (ask around) history) :=
  List.foldlRecOn _ _ (Updates.refl history).toRegisters fun reached registers path _ =>
    registers.trans (registers_ask reached path)

/-- While the project is told a call, its own questions bring barrels, and nothing else does. -/
theorem updates_tell (history : History) (call : ProjectCall) :
    Updates around listed history (history.tell around call) := by
  have told : Updates around listed history (history.note (.told call)) :=
    .note history fun _ => Event.noConfusion
  refine ⟨told.toRegisters.trans (registers_foldl_ask _ _), fun quiet => ?_⟩
  rw [tell_of_quiet quiet]
  exact told.quiet quiet

/-- Calls that are told in a row bring barrels by the questions of the project only. -/
theorem updates_foldl_tell (calls : List ProjectCall) (history : History) :
    Updates around listed history (calls.foldl (tell around) history) :=
  List.foldlRecOn _ _ (Updates.refl history) fun reached updates call _ =>
    updates.trans (updates_tell reached call)

/-- Updating a barrel may register it again, if it was dropped since the update began. -/
theorem updates_updateBarrel (history : History) {barrel : Path} (isListed : barrel.normalize ∈ listed) :
    Updates around listed history (history.updateBarrel around barrel) := by
  let now := around.moment history.events
  let updated := (history.session.updateBarrel now.host now.project barrel).1
  have discarded : Updates around listed history
      ⟨updated, history.events ++ history.session.discards updated barrel⟩ := by
    refine .of_silent (projectDirs_updateBarrel now history.session barrel) rfl (fun path brought => ?_) ?_
    · rw [discards] at brought
      split at brought
      · cases List.mem_singleton.mp brought
      · cases brought
    · exact pathsAre_updateBarrel (fun _ known => .inl known) now (.inr isListed)
  exact discarded.trans (updates_foldl_tell _ _)

/-- An update registers no barrel: it goes through those that are registered when it begins. -/
theorem Sound.updates_updateBarrels (sound : history.Sound) :
    Updates around [] history (history.updateBarrels around) := by
  apply Updates.of_registered
  refine List.foldlRecOn _ _ (Updates.refl history) fun reached updates barrel registered => ?_
  have isListed : barrel.normalize ∈ history.session.registry.paths := by
    rw [sound.barrels.isNormal barrel registered]
    exact registered
  exact updates.trans (updates_updateBarrel reached isListed)

/-- An update of the graph registers no barrel of its own. -/
theorem Sound.updates_updateGraph (sound : history.Sound) :
    Updates around [] history (history.updateGraph around) := by
  have told : (history.tell around .updateGraph).Sound :=
    holds_tell (fun _ path sound => sound.ask path) (fun _ call sound => sound.told call) sound
      .updateGraph
  exact (updates_tell history .updateGraph).trans told.updates_updateBarrels

/-- A task registers no barrel of its own, whichever it is. -/
theorem Sound.updates_runTask (sound : history.Sound) (task : Task) :
    Updates around [] history (history.runTask around task) := by
  have begun : Updates around [] history (history.note (.begun task)) :=
    .note history fun _ => Event.noConfusion
  cases task with
  | updateGraph => exact begun.trans (sound.begun .updateGraph).updates_updateGraph
  | removeFile path =>
      rw [runTask]
      split
      · exact begun.trans (updates_tell _ (.removeFile path))
      · exact begun

/-- Tasks in a row register no barrel of their own. -/
theorem Sound.updates_runTasks (sound : history.Sound) (tasks : List Task) :
    Updates around [] history (tasks.foldl (runTask around) history) := by
  induction tasks generalizing history with
  | nil => exact .refl history
  | cons task rest ih =>
      have next := (lasts around).runTask sound task
      exact (sound.updates_runTask task).trans (ih next)

/-! ## Steps -/

/-- A step that is no question registers no barrel. -/
theorem Sound.updates_act (sound : history.Sound) {step : Step} (noProbe : ∀ path, step ≠ .probe path) :
    Updates around [] history (history.act around step) := by
  cases step with
  | probe path => exact absurd rfl (noProbe path)
  | updateBarrels => exact sound.updates_updateBarrels
  | updateGraph => exact sound.updates_updateGraph
  | runPendingTasks =>
      have drained : Updates around [] history history.drained :=
        .of_silent rfl rfl (fun _ brought => by cases List.mem_singleton.mp brought) fun _ => .inl
      exact drained.trans (sound.drained.updates_runTasks _)

/-- Of all steps, questions alone register barrels, their own or those of the project. -/
theorem Sound.registers_act (sound : history.Sound) (around : Surroundings) (step : Step) :
    Registers around [] history (history.act around step) := by
  by_cases noProbe : ∀ path, step ≠ .probe path
  · exact (sound.updates_act noProbe).toRegisters
  · obtain ⟨path, isProbe⟩ := not_forall.mp noProbe
    rw [not_not.mp isProbe]
    exact registers_ask history path

/-- What is registered in the end was registered before, or a question brought it. -/
theorem Registers.mem_or_brings (registers : Registers around [] before after) {path : Path}
    (registered : path ∈ after.session.registry.paths) :
    path ∈ before.session.registry.paths ∨ Brings before after path :=
  (registers.known path registered).imp_right fun known => known.resolve_left List.not_mem_nil

/-! ## Runs -/

/-- A question brought a barrel in one of some steps, at a moment when it could be brought. -/
def BroughtIn (start : History) (steps : List (Surroundings × Step)) (path : Path) : Prop :=
  ∃ first next rest earlier later, steps = first ++ next :: rest ∧
    Happened (start.run first) ((start.run first).act next.1 next.2) earlier (.changed (.brought path))
      later ∧
    Admitted (next.1.moment earlier).host start.session.projectDirs path

/-- What was brought in some steps was brought in more of them. -/
theorem BroughtIn.append {start : History} {steps : List (Surroundings × Step)} {path : Path}
    (brought : BroughtIn start steps path) (more : List (Surroundings × Step)) :
    BroughtIn start (steps ++ more) path := by
  obtain ⟨first, next, rest, earlier, later, rfl, happened⟩ := brought
  exact ⟨first, next, rest ++ more, earlier, later, by rw [List.append_assoc, List.cons_append],
    happened⟩

/-- The last step of a run is taken where the others have led. -/
theorem run_concat (start : History) (steps : List (Surroundings × Step)) (next : Surroundings × Step) :
    start.run (steps ++ [next]) = (start.run steps).act next.1 next.2 := by
  rw [run, List.foldl_append]
  rfl

/-- No run changes the folders of the project. -/
theorem Sound.projectDirs_run (sound : history.Sound) (steps : List (Surroundings × Step)) :
    (history.run steps).session.projectDirs = history.session.projectDirs := by
  induction steps using List.reverseRecOn with
  | nil => rfl
  | append_singleton earlier next ih =>
      rw [run_concat, ((sound.run earlier).registers_act next.1 next.2).dirs, ih]

/-- Every barrel that a run leaves registered was registered when it began or was brought in a step. -/
theorem Sound.known_of_run (sound : history.Sound) (steps : List (Surroundings × Step)) :
    (history.run steps).session.registry.PathsAre fun path =>
      path ∈ history.session.registry.paths ∨ BroughtIn history steps path := by
  induction steps using List.reverseRecOn with
  | nil => exact fun _ => .inl
  | append_singleton earlier next ih =>
      have registers := (sound.run earlier).registers_act next.1 next.2
      rw [run_concat]
      intro path registered
      rcases registers.mem_or_brings registered with known | ⟨before, later, happened⟩
      · exact (ih path known).imp_right fun brought => brought.append [next]
      · have admitted := registers.admitted before later path happened
        rw [sound.projectDirs_run] at admitted
        exact .inr ⟨earlier, next, [], before, later, rfl, happened, admitted⟩

end History

/-- However a session was driven, every registered path is normalized and names the barrel of its folder,
and it was registered when the session was created or was brought by a question, at a moment when the
barrel lay in the project and its folder was there without an aggregator. A step registers nothing but what
was registered before it and what questions bring, which can always be brought at that moment. A step that
is no question registers nothing at all, unless the project asks something meanwhile. -/
theorem registered_paths_are_admitted (project : Project) (projectDirs : List Path)
    (steps : List (Surroundings × Step)) (around : Surroundings) (step : Step) :
    let start := History.begin project projectDirs
    let reached := start.run steps
    let after := reached.act around step
    (∀ path ∈ reached.session.registry.paths, IsBarrelPath path ∧
        (path ∈ (create project projectDirs).registry.paths ∨ start.BroughtIn steps path)) ∧
      (∀ earlier later path, reached.Happened after earlier (.changed (.brought path)) later →
        Admitted (around.moment earlier).host (projectDirs.map Path.normalize) path) ∧
      (∀ path ∈ after.session.registry.paths,
        path ∈ reached.session.registry.paths ∨ reached.Brings after path) ∧
      ((∀ path, step ≠ .probe path) → around.Quiet →
        ∀ path ∈ after.session.registry.paths, path ∈ reached.session.registry.paths) := by
  intro start reached after
  have begun : start.Sound := History.sound_begin project projectDirs
  have sound : reached.Sound := begun.run steps
  have dirs : reached.session.projectDirs = projectDirs.map Path.normalize :=
    begun.projectDirs_run steps
  have registers : History.Registers around [] reached after := sound.registers_act around step
  refine ⟨fun path registered => ?_, fun earlier later path happened => ?_, ?_, ?_⟩
  · exact ⟨sound.barrels path registered, begun.known_of_run steps path registered⟩
  · rw [← dirs]
    exact registers.admitted earlier later path happened
  · exact fun path registered => registers.mem_or_brings registered
  · intro noProbe quiet path registered
    have updates : History.Updates around [] reached after := sound.updates_act noProbe
    exact (registers.mem_or_brings registered).resolve_right (updates.quiet quiet path)

/-- A folder whose barrel is asked for: the barrel can be brought then and is registered, and running the
queue registers no other. -/
theorem barrel_of_asked_folder_is_admitted :
    let project : Project := ⟨[], [], {}, fun _ => none, fun _ => true, fun _ _ => []⟩
    let host := (Disk.ofList [(⟨"/p/c/a.ts"⟩, "export const v = 1")] []).fileSystem
    let now : Moment := ⟨host, project⟩
    let barrel : Path := ⟨"/p/c/index.ts"⟩
    let asked := (History.begin project [⟨"/p/./c/.."⟩]).run [(.still now, .probe barrel)]
    Admitted host ([⟨"/p/./c/.."⟩].map Path.normalize) barrel ∧
      asked.session.registry.paths = [barrel] ∧
      ∀ path ∈ (asked.act (.still now) .runPendingTasks).session.registry.paths, path = barrel := by
  intro project host now barrel asked
  have question := (registered_paths_are_admitted project [⟨"/p/./c/.."⟩] [] (.still now)
    (.probe barrel)).2.1
  have queue := (registered_paths_are_admitted project [⟨"/p/./c/.."⟩] [(.still now, .probe barrel)]
    (.still now) .runPendingTasks).2.2.2
  have here : (History.begin project [⟨"/p/./c/.."⟩]).run [(.still now, .probe barrel)] = asked := rfl
  rw [here] at queue
  have events : asked.events = [.changed (.brought barrel)] := by decide +kernel
  have registered : asked.session.registry.paths = [barrel] := by decide +kernel
  rw [registered] at queue
  have kept := queue (fun _ => Step.noConfusion) (quiet_still now)
  refine ⟨question [] [] barrel ⟨List.prefix_refl _, events⟩, registered, fun path known => ?_⟩
  exact List.mem_singleton.mp (kept path known)

end Session

end BarrelSynthesis
