/-
# What an update calculates again

An update goes through all barrels. What it does to one of them depends on the entry and the folder of that
barrel only, as long as the session reads the folder as its host does, so that the whole update is the same
as renewing every barrel by itself: those that are dropped aside, it calculates exactly the barrels whose
record does not agree with their folder, and leaves the others as they are. Right after an update every
record agrees, and updating again changes nothing.

A session reads a folder as its host does unless a virtual barrel stands in for one of its files. That takes
a file that cannot be read and that the host spells like the barrel.
-/
import BarrelSynthesis.Proofs.Session.History
import Mathlib.Data.List.Flatten

namespace BarrelSynthesis

/-- The barrel whose content a call edits. -/
def ProjectCall.edited? : ProjectCall → Option Path
  | .editContent path _ => some path
  | _ => none

/-! ## Records -/

namespace BarrelEntry

/-- The files that an entry remembers have normalized paths. -/
def IsNormal (entry : BarrelEntry) : Prop :=
  ∀ file ∈ entry.files.keys, file.normalize = file

theorem isNormal_registered : IsNormal .registered := fun _ listed => absurd listed List.not_mem_nil

/-- What an entry remembers agrees with some files and their versions. -/
structure Records (entry : BarrelEntry) (files : List Path) (version : Path → String) : Prop where
  hydrated : entry.isHydrated = true
  listing : ∀ file, file ∈ entry.files.keys ↔ file ∈ files
  versions : ∀ file recorded, (file, recorded) ∈ entry.files.entries → version file = recorded

/-- A record that agrees goes on agreeing while the files and their versions stay the same. -/
theorem Records.of_unchanged {entry : BarrelEntry} {files others : List Path}
    {version other : Path → String} (records : entry.Records files version)
    (listing : ∀ file, file ∈ files ↔ file ∈ others)
    (versions : ∀ file ∈ files, version file = other file) : entry.Records others other where
  hydrated := records.hydrated
  listing := fun file => (records.listing file).trans (listing file)
  versions := by
    intro file recorded written
    have listed := (records.listing file).mp (PathMap.mem_keys_iff.mpr ⟨recorded, written⟩)
    rw [← versions file listed]
    exact records.versions file recorded written

end BarrelEntry

/-- What is calculated at a moment agrees with that moment. -/
theorem Moment.records_entry (moment : Moment) (folder : Path) :
    (moment.entry folder).Records (moment.files folder) moment.version where
  hydrated := rfl
  listing := fun _ => mem_keys_recorded_iff
  versions := fun _ _ written => (mem_recorded_iff.mp written).2

/-- A barrel is found fresh exactly when its record agrees. -/
theorem Registry.isStale_eq_false_iff {registry : Registry} {barrel : Path} {files : List Path}
    {version : Path → String} (filesNormal : ∀ file ∈ files, file.normalize = file)
    (entryNormal : ∀ entry, registry.get? barrel = some entry → entry.IsNormal) :
    (registry.staleness barrel files version).isStale = false ↔
      ∃ entry, registry.get? barrel = some entry ∧ entry.Records files version := by
  constructor
  · intro fresh
    obtain ⟨recorded, manifest, text, found, listing, versions⟩ := Session.of_staleness_fresh fresh
    refine ⟨.hydrated recorded manifest text, found, rfl, ?_, versions⟩
    exact (listingOf_eq_iff recorded.ascending_keys filesNormal (entryNormal _ found)).mp listing
  · rintro ⟨entry, found, records⟩
    cases entry with
    | registered => cases records.hydrated
    | hydrated recorded manifest text =>
        have listing := (listingOf_eq_iff recorded.ascending_keys filesNormal
          (entryNormal _ found)).mpr records.listing
        have unchanged : recorded.entries.find? (fun entry => version entry.1 ≠ entry.2) = none :=
          List.find?_eq_none.mpr fun entry written => by
            simpa using records.versions entry.1 entry.2 written
        simp only [staleness, found, if_pos listing, unchanged]
        rfl

/-- The barrels that a session begins with are those of its folders. -/
theorem Registry.get?_ofFolders (folders : List Path) (path : Path) :
    (ofFolders folders).get? path =
      if path.normalize ∈ folders.map Folder.barrelPath then some .registered else none := by
  have added (registry : Registry) :
      (folders.foldl (fun registry folder => registry.register (Folder.barrelPath folder))
        registry).get? path =
      (registry.get? path).or
        (if path.normalize ∈ folders.map Folder.barrelPath then some .registered else none) := by
    induction folders generalizing registry with
    | nil => exact (Option.or_none).symm
    | cons folder rest ih =>
        rw [List.foldl_cons, ih, get?_register, Folder.normalize_barrelPath, Option.or_assoc,
          List.map_cons]
        by_cases first : Folder.barrelPath folder = path.normalize
        · rw [if_pos first, Option.some_or, first, if_pos List.mem_cons_self]
        · have behind : path.normalize ∈ Folder.barrelPath folder :: rest.map Folder.barrelPath ↔
              path.normalize ∈ rest.map Folder.barrelPath := by
            rw [List.mem_cons, or_iff_right (Ne.symm first)]
          simp only [if_neg first, Option.none_or, behind]
  exact added empty

/-- The barrels that a session begins with have not been calculated. -/
theorem Registry.eq_registered_of_get?_ofFolders {folders : List Path} {path : Path}
    {entry : BarrelEntry} (found : (ofFolders folders).get? path = some entry) :
    entry = .registered := by
  rw [get?_ofFolders] at found
  exact (Option.some.inj (Option.ite_none_right_eq_some.mp found).2).symm

namespace Session

variable {now : Moment} {session : Session} {barrel folder : Path}
variable {around : Surroundings} {history : History}

/-- The entries of a session remember normalized paths. -/
def EntriesNormal (session : Session) : Prop :=
  ∀ path entry, session.registry.get? path = some entry → entry.IsNormal

/-- A session that reads a folder as its host does finds a barrel stale exactly when the host does. -/
theorem isStale_versionOf (entriesNormal : session.EntriesNormal)
    (reads : ReadsThrough now session folder) :
    (session.registry.staleness barrel (now.files folder)
        (session.versionOf now.host now.project)).isStale =
      (session.registry.staleness barrel (now.files folder) now.version).isStale := by
  have filesNormal : ∀ file ∈ now.files folder, file.normalize = file := fun _ listed =>
    Moment.normalize_of_mem_files listed
  have versions : ∀ file ∈ now.files folder,
      session.versionOf now.host now.project file = now.version file := fun _ listed =>
    versionOf_of_readsThrough reads listed
  rw [Bool.eq_iff_iff, ← Bool.not_eq_false, ← Bool.not_eq_false, not_iff_not,
    Registry.isStale_eq_false_iff filesNormal (entriesNormal barrel),
    Registry.isStale_eq_false_iff filesNormal (entriesNormal barrel)]
  refine exists_congr fun entry => and_congr_right fun _ => ⟨fun records => ?_, fun records => ?_⟩
  · exact records.of_unchanged (fun _ => Iff.rfl) versions
  · exact records.of_unchanged (fun _ => Iff.rfl) fun file listed => (versions file listed).symm

/-! ## Renewing one barrel -/

/-- What updating a barrel makes of its entry, and the calls that it makes, where the session reads the
folder of the barrel as its host does. -/
def renew (now : Moment) (session : Session) (barrel : Path) : Option BarrelEntry × List ProjectCall :=
  if !now.project.hasScriptInfo barrel then (none, [])
  else
    match barrel.parent? with
    | none => (session.registry.get? barrel, [])
    | some folder =>
      if !canHoldBarrel now.host folder then (none, [.removeFile barrel])
      else if (session.registry.staleness barrel (now.files folder) now.version).isStale then
        (some (now.entry folder), [.editContent barrel (now.barrel folder).text])
      else (session.registry.get? barrel, [])

/-- Renewing depends on the entry of the barrel only. -/
theorem renew_congr {first second : Session}
    (same : first.registry.get? barrel = second.registry.get? barrel) :
    renew now first barrel = renew now second barrel := by
  have staleness (files : List Path) (version : Path → String) :
      first.registry.staleness barrel files version =
        second.registry.staleness barrel files version := by
    rw [Registry.staleness, Registry.staleness, same]
  simp only [renew, staleness, same]

/-- The entry of a barrel that the project does not know is dropped without a call. -/
theorem renew_of_unknown (unknown : now.project.hasScriptInfo barrel = false) :
    renew now session barrel = (none, []) := by
  rw [renew, unknown]
  rfl

/-- So is that of a barrel without room, and the project is told to remove the file. -/
theorem renew_of_full (known : now.project.hasScriptInfo barrel = true)
    (parent : barrel.parent? = some folder) (full : canHoldBarrel now.host folder = false) :
    renew now session barrel = (none, [.removeFile barrel]) := by
  simp only [renew, known, parent, full, Bool.not_true, Bool.not_false, Bool.false_eq_true, if_false,
    if_true]

/-- Where there is room, the barrel is calculated again if it is stale, and left alone if not. -/
theorem renew_of_room (known : now.project.hasScriptInfo barrel = true)
    (parent : barrel.parent? = some folder) (holds : canHoldBarrel now.host folder = true) :
    renew now session barrel =
      if (session.registry.staleness barrel (now.files folder) now.version).isStale then
        (some (now.entry folder), [.editContent barrel (now.barrel folder).text])
      else (session.registry.get? barrel, []) := by
  simp only [renew, known, parent, holds, Bool.not_true, Bool.false_eq_true, if_false]

/-- The outcomes of renewing a barrel. -/
inductive Renewal (now : Moment) (session : Session) (barrel : Path) :
    Option BarrelEntry × List ProjectCall → Prop
  /-- The barrel is dropped, and nothing is edited. -/
  | dropped (calls : List ProjectCall) (silent : calls.filterMap ProjectCall.edited? = []) :
      Renewal now session barrel (none, calls)
  /-- The barrel is up to date, and it is left alone. -/
  | fresh (folder : Path) (kept : IsKept now barrel) (parent : barrel.parent? = some folder)
      (fresh : (session.registry.staleness barrel (now.files folder) now.version).isStale = false) :
      Renewal now session barrel (session.registry.get? barrel, [])
  /-- The barrel is calculated again. -/
  | stale (folder : Path) (kept : IsKept now barrel) (parent : barrel.parent? = some folder)
      (stale : (session.registry.staleness barrel (now.files folder) now.version).isStale = true) :
      Renewal now session barrel
        (some (now.entry folder), [.editContent barrel (now.barrel folder).text])

/-- Renewing a barrel has one of these outcomes. -/
theorem renewal (now : Moment) (session : Session) (isBarrel : IsBarrelPath barrel) :
    Renewal now session barrel (renew now session barrel) := by
  obtain ⟨folder, parent⟩ := isBarrel.parent
  cases known : now.project.hasScriptInfo barrel with
  | false =>
      rw [renew_of_unknown known]
      exact .dropped [] rfl
  | true =>
      cases holds : canHoldBarrel now.host folder with
      | false =>
          rw [renew_of_full known parent holds]
          exact .dropped [.removeFile barrel] rfl
      | true =>
          have kept : IsKept now barrel := .of_parent known parent holds
          rw [renew_of_room known parent holds]
          split
          · next stale => exact .stale folder kept parent stale
          · next fresh => exact .fresh folder kept parent (Bool.eq_false_iff.mpr fresh)

/-- Where the session reads the folder of a barrel as its host does, updating the barrel is renewing its
entry, and changes no other. -/
theorem updateBarrel_renews (isBarrel : IsBarrelPath barrel) (entriesNormal : session.EntriesNormal)
    (reads : ∀ folder, barrel.parent? = some folder → ReadsThrough now session folder) :
    let after := session.updateBarrel now.host now.project barrel
    after.2 = (renew now session barrel).2 ∧
      ∀ path, after.1.registry.get? path =
        if barrel = path.normalize then (renew now session barrel).1
        else session.registry.get? path := by
  have erased (path : Path) : (session.registry.erase barrel).get? path =
      if barrel = path.normalize then none else session.registry.get? path := by
    rw [Registry.get?_erase, isBarrel.normal]
  have left (path : Path) : session.registry.get? path =
      if barrel = path.normalize then session.registry.get? barrel
      else session.registry.get? path := by
    split
    · next same => exact Registry.get?_congr (isBarrel.normal.trans same).symm
    · rfl
  intro after
  have update : BarrelUpdate now session barrel after := barrelUpdate now session barrel
  generalize after = reached at update ⊢
  cases update with
  | unknown unknown =>
      rw [renew_of_unknown unknown]
      exact ⟨rfl, erased⟩
  | outermost _ outermost =>
      obtain ⟨folder, parent⟩ := isBarrel.parent
      rw [parent] at outermost
      cases outermost
  | full folder known parent full =>
      rw [renew_of_full known parent full]
      exact ⟨rfl, erased⟩
  | fresh folder known parent holds fresh =>
      rw [isStale_versionOf entriesNormal (reads folder parent)] at fresh
      rw [renew_of_room known parent holds, fresh]
      exact ⟨rfl, left⟩
  | stale folder known parent holds stale =>
      rw [isStale_versionOf entriesNormal (reads folder parent)] at stale
      rw [renew_of_room known parent holds, stale, if_pos rfl,
        ← ofCalculation_of_readsThrough (reads folder parent),
        ← calculate_of_readsThrough (reads folder parent)]
      refine ⟨rfl, fun path => ?_⟩
      have written := Registry.get?_upsert session.registry barrel path
        (session.versionOf now.host now.project)
        (Barrel.calculate (session.served now.host) now.project.options folder)
      rw [isBarrel.normal] at written
      exact written

/-! ## Sessions whose registry is in order -/

/-- The barrels of a session stand under the paths of barrels and remember normalized paths. -/
structure Orderly (session : Session) : Prop where
  barrels : session.registry.PathsAre IsBarrelPath
  entries : session.EntriesNormal

namespace Orderly

/-- The paths of an orderly session are those that have an entry. -/
theorem mem_paths_iff (orderly : session.Orderly) {path : Path} (normal : path.normalize = path) :
    path ∈ session.registry.paths ↔ ∃ entry, session.registry.get? path = some entry := by
  rw [← orderly.barrels.isNormal.isVirtual_iff normal, Registry.isVirtual_eq, Option.isSome_iff_exists]

/-- Updating one barrel keeps a session orderly. -/
theorem updateBarrel (orderly : session.Orderly) (now : Moment) (isBarrel : IsBarrelPath barrel) :
    (session.updateBarrel now.host now.project barrel).1.Orderly where
  barrels := pathsAre_updateBarrel orderly.barrels now (isBarrel.normal.symm ▸ isBarrel)
  entries := by
    intro path entry found
    have update := barrelUpdate now session barrel
    generalize session.updateBarrel now.host now.project barrel = reached at update found
    have erased (present : (session.registry.erase barrel).get? path = some entry) :
        entry.IsNormal := by
      rw [Registry.get?_erase] at present
      split at present
      · cases present
      · exact orderly.entries path entry present
    cases update with
    | unknown => exact erased found
    | outermost => exact orderly.entries path entry found
    | full => exact erased found
    | fresh => exact orderly.entries path entry found
    | stale folder =>
        have written : (session.registry.upsert barrel _ _).get? path = some entry := found
        rw [Registry.get?_upsert] at written
        split at written
        · obtain rfl := Option.some.inj written
          intro file remembered
          obtain ⟨version, member⟩ := PathMap.mem_keys_iff.mp remembered
          obtain ⟨source, present, same⟩ := List.mem_map.mp (PathMap.mem_ofList member)
          obtain ⟨rfl, -⟩ := Prod.mk.inj same
          exact Folder.normalize_of_mem_files present
        · exact orderly.entries path entry written

/-- Updating the graph keeps it orderly. -/
theorem updateGraph (orderly : session.Orderly) (now : Moment) :
    (session.updateGraph now.host now.project).1.Orderly := by
  show (session.updateBarrels now.host now.project).1.Orderly
  have isBarrel := orderly.barrels
  rw [updateBarrels_eq]
  exact List.foldlRecOn (motive := fun (state : Session × List ProjectCall) => state.1.Orderly)
    _ _ orderly fun state orderly barrel listed => orderly.updateBarrel now (isBarrel barrel listed)

/-- A session begins orderly. -/
theorem create (project : Project) (projectDirs : List Path) : (create project projectDirs).Orderly where
  barrels := (History.sound_begin project projectDirs).barrels
  entries := by
    intro path entry found
    obtain rfl := Registry.eq_registered_of_get?_ofFolders found
    exact BarrelEntry.isNormal_registered

/-- A question keeps it orderly. -/
theorem ask (orderly : history.session.Orderly) (path : Path) :
    (history.ask around path).session.Orderly where
  barrels := History.pathsAre_ask around orderly.barrels path
  entries := by
    intro other entry found
    have asked := History.asked around history path
    generalize history.ask around path = after at asked found
    cases asked with
    | unchanged => exact orderly.entries other entry found
    | dropped barrel =>
        rw [get?_deleteBarrel] at found
        split at found
        · cases found
        · exact orderly.entries other entry found
    | brought barrel =>
        rw [get?_createBarrel] at found
        rcases Option.or_eq_some_iff.mp found with before | ⟨-, new⟩
        · exact orderly.entries other entry before
        · split at new
          · obtain rfl := Option.some.inj new
            exact BarrelEntry.isNormal_registered
          · cases new

/-- Being orderly lasts through everything that can happen. -/
theorem lasts (around : Surroundings) : History.Lasts around fun history => history.session.Orderly where
  asked := fun _ path orderly => orderly.ask path
  told := fun _ _ orderly => orderly
  begun := fun _ _ orderly => orderly
  barrels := fun _ orderly => orderly.barrels
  updated := by
    intro history barrel isBarrel orderly
    have updated := orderly.updateBarrel (around.moment history.events) isBarrel
    exact @History.holds_foldl_tell around (fun history => history.session.Orderly) ⟨_, _⟩
      (fun _ path orderly => orderly.ask path) (fun _ _ orderly => orderly) updated _

/-- So every run keeps a session orderly. -/
theorem run (orderly : history.session.Orderly) (steps : List (Surroundings × Step)) :
    (history.run steps).session.Orderly :=
  List.foldlRecOn (motive := fun (history : History) => history.session.Orderly) _ _ orderly
    fun _ orderly step _ => (lasts step.1).act
      (fun _ orderly => ⟨orderly.barrels, orderly.entries⟩) orderly step.2

end Orderly

/-! ## Renewing all barrels -/

/-- No virtual barrel stands in for a file that contributes to a registered barrel and cannot be read. -/
def NoStandIn (now : Moment) (session : Session) : Prop :=
  ∀ barrel ∈ session.registry.paths, ∀ folder, barrel.parent? = some folder →
    ∀ file ∈ now.files folder, now.host.fileText file = none →
      session.isVirtual (now.host.casedPath file) = false

/-- Where a host asks for paths as they are spelled, no barrel stands in for a file. -/
theorem noStandIn_of_cased (barrels : session.registry.PathsAre IsBarrelPath)
    (cased : ∀ path, now.host.casedPath path = path) : NoStandIn now session := by
  intro barrel _ folder _ file listed _
  rw [cased, isVirtual_eq, get?_of_listed barrels listed]
  rfl

/-- Where no barrel stands in, the folders of all barrels are read as the host reads them, also after some
of them have been dropped. -/
theorem NoStandIn.readsThrough (clear : NoStandIn now session)
    (listed : barrel ∈ session.registry.paths) {reached : Session}
    (fewer : ∀ path, reached.isVirtual path = true → session.isVirtual path = true) :
    ∀ folder, barrel.parent? = some folder → ReadsThrough now reached folder := by
  intro folder parent file contributes
  apply fileText_of_get?
  intro unreadable
  have absent := clear barrel listed folder parent file contributes unreadable
  rw [← Option.not_isSome_iff_eq_none, ← isVirtual_eq]
  intro virtual
  rw [fewer _ virtual] at absent
  cases absent

/-- How far an update of a session has come: the barrels that are still to come stand as they did in the
beginning, and no barrel was brought. -/
structure Underway (session : Session) (pending : List Path) (state : Session × List ProjectCall) :
    Prop where
  orderly : state.1.Orderly
  listed : ∀ barrel ∈ pending, barrel ∈ session.registry.paths
  same : ∀ barrel ∈ pending, state.1.registry.get? barrel = session.registry.get? barrel
  fewer : ∀ path, state.1.isVirtual path = true → session.isVirtual path = true

namespace Underway

variable {first : Path} {rest : List Path} {state : Session × List ProjectCall}

/-- The next barrel is renewed as it was in the beginning. -/
theorem renews (underway : Underway session (first :: rest) state) (clear : NoStandIn now session)
    (isBarrel : IsBarrelPath first) :
    let after := updateNext now state first
    after.2 = state.2 ++ (renew now session first).2 ∧
      ∀ path, after.1.registry.get? path =
        if first = path.normalize then (renew now session first).1
        else state.1.registry.get? path := by
  intro after
  obtain ⟨calls, renewed⟩ := updateBarrel_renews isBarrel underway.orderly.entries
    (clear.readsThrough (underway.listed first List.mem_cons_self) underway.fewer)
  rw [renew_congr (underway.same first List.mem_cons_self)] at calls renewed
  exact ⟨congrArg (state.2 ++ ·) calls, renewed⟩

/-- Renewing the next barrel touches none of those behind it, and takes its own away at most. -/
theorem step (underway : Underway session (first :: rest) state) (clear : NoStandIn now session)
    (orderly : session.Orderly) (once : first ∉ rest) :
    Underway session rest (updateNext now state first) := by
  have here := underway.listed first List.mem_cons_self
  have isBarrel := orderly.barrels first here
  have renewed := (underway.renews clear isBarrel).2
  have listed : ∀ barrel ∈ rest, barrel ∈ session.registry.paths := fun barrel member =>
    underway.listed barrel (List.mem_cons_of_mem _ member)
  refine ⟨underway.orderly.updateBarrel now isBarrel, listed, fun barrel member => ?_,
    fun path virtual => ?_⟩
  · have differs : first ≠ barrel.normalize := by
      rw [(orderly.barrels barrel (listed barrel member)).normal]
      exact fun again => once (again ▸ member)
    rw [← underway.same barrel (List.mem_cons_of_mem _ member)]
    exact (renewed barrel).trans (if_neg differs)
  · by_cases atFirst : first = path.normalize
    · obtain ⟨entry, found⟩ := (orderly.mem_paths_iff isBarrel.normal).mp here
      rw [isVirtual_eq, Registry.get?_congr (atFirst.symm.trans isBarrel.normal.symm), found]
      rfl
    · apply underway.fewer
      rw [isVirtual_eq] at virtual ⊢
      have kept := (renewed path).trans (if_neg atFirst)
      rwa [← kept]

end Underway

/-- Updating some barrels one after the other renews each of them as it was in the beginning. -/
theorem foldl_updateNext_renews (clear : NoStandIn now session) (orderly : session.Orderly)
    {barrels : List Path} (nodup : barrels.Nodup) (state : Session × List ProjectCall)
    (underway : Underway session barrels state) :
    let after := barrels.foldl (updateNext now) state
    after.2 = state.2 ++ barrels.flatMap (fun barrel => (renew now session barrel).2) ∧
      ∀ path, after.1.registry.get? path =
        if path.normalize ∈ barrels then (renew now session path.normalize).1
        else state.1.registry.get? path := by
  induction barrels generalizing state with
  | nil =>
      refine ⟨(List.append_nil _).symm, fun path => ?_⟩
      rw [if_neg List.not_mem_nil]
      rfl
  | cons first rest ih =>
      obtain ⟨once, others⟩ := List.nodup_cons.mp nodup
      obtain ⟨calls, renewed⟩ := underway.renews clear
        (orderly.barrels first (underway.listed first List.mem_cons_self))
      obtain ⟨laterCalls, laterRenewed⟩ := ih others _ (underway.step clear orderly once)
      refine ⟨?_, fun path => ?_⟩
      · rw [List.foldl_cons, laterCalls, calls, List.flatMap_cons, List.append_assoc]
      · rw [List.foldl_cons, laterRenewed]
        by_cases later : path.normalize ∈ rest
        · rw [if_pos later, if_pos (List.mem_cons_of_mem _ later)]
        · rw [if_neg later]
          refine (renewed path).trans ?_
          by_cases atFirst : first = path.normalize
          · rw [if_pos atFirst, if_pos (atFirst ▸ List.mem_cons_self), atFirst]
          · rw [if_neg atFirst, if_neg]
            exact fun member => (List.mem_cons.mp member).elim (Ne.symm atFirst) later

/-- No path stands twice in a registry. -/
theorem nodup_paths (registry : Registry) : registry.paths.Nodup :=
  Path.nodup_of_ascending registry.barrels.ascending_keys

/-- An update renews every barrel by itself, and brings none. -/
theorem updateGraph_renews (clear : NoStandIn now session) (orderly : session.Orderly) :
    let after := session.updateGraph now.host now.project
    after.2 = .updateGraph ::
        session.registry.paths.flatMap (fun barrel => (renew now session barrel).2) ∧
      ∀ barrel : Path, barrel.normalize = barrel → after.1.registry.get? barrel =
        if barrel ∈ session.registry.paths then (renew now session barrel).1 else none := by
  obtain ⟨calls, renewed⟩ := foldl_updateNext_renews clear orderly (nodup_paths session.registry)
    (session, []) ⟨orderly, fun _ listed => listed, fun _ _ => rfl, fun _ virtual => virtual⟩
  have gathered := calls.trans (List.nil_append _)
  refine ⟨congrArg (List.cons ProjectCall.updateGraph) gathered, fun barrel normal => ?_⟩
  refine (renewed barrel).trans ?_
  rw [normal]
  split
  · rfl
  · next unlisted =>
      show session.registry.get? barrel = none
      by_contra present
      exact unlisted ((orderly.mem_paths_iff normal).mpr (Option.ne_none_iff_exists'.mp present))

/-- An update brings no barrel. -/
theorem mem_paths_of_mem_paths_updateGraph (clear : NoStandIn now session)
    (orderly : session.Orderly)
    (listed : barrel ∈ (session.updateGraph now.host now.project).1.registry.paths) :
    barrel ∈ session.registry.paths := by
  have after := orderly.updateGraph now
  have normal := after.barrels.isNormal barrel listed
  obtain ⟨entry, found⟩ := (after.mem_paths_iff normal).mp listed
  by_contra unlisted
  rw [(updateGraph_renews clear orderly).2 barrel normal, if_neg unlisted] at found
  cases found

/-! ## What is edited -/

/-- A barrel is edited at most once when it is renewed, and no other is. -/
theorem edited_renew_sublist (isBarrel : IsBarrelPath barrel) :
    ((renew now session barrel).2.filterMap ProjectCall.edited?).Sublist [barrel] := by
  have renewal := renewal now session isBarrel
  generalize renew now session barrel = reached at renewal
  cases renewal with
  | dropped calls silent =>
      rw [silent]
      exact List.nil_sublist [barrel]
  | fresh => exact List.nil_sublist [barrel]
  | stale => exact List.Sublist.refl [barrel]

/-- The barrels whose content some calls edit. -/
def editedBarrels (calls : List ProjectCall) : List Path :=
  calls.filterMap ProjectCall.edited?

/-- An update edits what renewing each barrel edits, one barrel after the other, and nothing else. -/
theorem editedBarrels_updateGraph (clear : NoStandIn now session) (orderly : session.Orderly) :
    editedBarrels (session.updateGraph now.host now.project).2 =
      session.registry.paths.flatMap fun barrel =>
        (renew now session barrel).2.filterMap ProjectCall.edited? := by
  rw [editedBarrels, (updateGraph_renews clear orderly).1]
  exact List.filterMap_flatMap

/-- No barrel is edited twice by an update. -/
theorem nodup_editedBarrels (clear : NoStandIn now session) (orderly : session.Orderly) :
    (editedBarrels (session.updateGraph now.host now.project).2).Nodup := by
  rw [editedBarrels_updateGraph clear orderly]
  have each : (session.registry.paths.flatMap fun barrel =>
        (renew now session barrel).2.filterMap ProjectCall.edited?).Sublist
      (session.registry.paths.flatMap fun barrel => [barrel]) :=
    List.Sublist.flatMap_right _ fun barrel listed =>
      edited_renew_sublist (orderly.barrels barrel listed)
  rw [List.flatMap_singleton'] at each
  exact each.nodup (nodup_paths session.registry)

/-- An update edits the barrels that renewing edits. -/
theorem mem_editedBarrels_iff (clear : NoStandIn now session) (orderly : session.Orderly) :
    barrel ∈ editedBarrels (session.updateGraph now.host now.project).2 ↔
      barrel ∈ session.registry.paths ∧
        barrel ∈ (renew now session barrel).2.filterMap ProjectCall.edited? := by
  rw [editedBarrels_updateGraph clear orderly, List.mem_flatMap]
  constructor
  · rintro ⟨other, listed, edited⟩
    have one := List.mem_singleton.mp
      ((edited_renew_sublist (orderly.barrels other listed)).subset edited)
    subst one
    exact ⟨listed, edited⟩
  · rintro ⟨listed, edited⟩
    exact ⟨barrel, listed, edited⟩

/-- What an update does to one of the barrels: it drops it, finds that its record agrees and leaves it
alone, or finds that its record does not agree and edits it. -/
theorem updateGraph_cases (clear : NoStandIn now session) (orderly : session.Orderly)
    (listed : barrel ∈ session.registry.paths) :
    let after := session.updateGraph now.host now.project
    after.1.registry.get? barrel = none ∧ barrel ∉ editedBarrels after.2 ∨
      ∃ folder entry, IsKept now barrel ∧ barrel.parent? = some folder ∧
        session.registry.get? barrel = some entry ∧
        (entry.Records (now.files folder) now.version ∧
            after.1.registry.get? barrel = some entry ∧ barrel ∉ editedBarrels after.2 ∨
          ¬entry.Records (now.files folder) now.version ∧
            after.1.registry.get? barrel = some (now.entry folder) ∧
              barrel ∈ editedBarrels after.2) := by
  intro after
  have isBarrel := orderly.barrels barrel listed
  obtain ⟨entry, found⟩ := (orderly.mem_paths_iff isBarrel.normal).mp listed
  have edits : barrel ∈ editedBarrels after.2 ↔
      barrel ∈ (renew now session barrel).2.filterMap ProjectCall.edited? :=
    (mem_editedBarrels_iff clear orderly).trans (and_iff_right listed)
  have result : after.1.registry.get? barrel = (renew now session barrel).1 :=
    ((updateGraph_renews clear orderly).2 barrel isBarrel.normal).trans (if_pos listed)
  have agrees (folder : Path) :
      (session.registry.staleness barrel (now.files folder) now.version).isStale = false ↔
        entry.Records (now.files folder) now.version := by
    rw [Registry.isStale_eq_false_iff (fun _ listed => Moment.normalize_of_mem_files listed)
      (orderly.entries barrel), found]
    simp
  rw [edits, result]
  have renewal := renewal now session isBarrel
  generalize renew now session barrel = reached at renewal
  cases renewal with
  | dropped calls silent =>
      rw [silent]
      exact .inl ⟨rfl, List.not_mem_nil⟩
  | fresh folder kept parent fresh =>
      exact .inr ⟨folder, entry, kept, parent, found,
        .inl ⟨(agrees folder).mp fresh, found, List.not_mem_nil⟩⟩
  | stale folder kept parent stale =>
      refine .inr ⟨folder, entry, kept, parent, found, .inr ⟨fun records => ?_, rfl, ?_⟩⟩
      · rw [(agrees folder).mpr records] at stale
        cases stale
      · exact List.mem_cons_self

/-! ## Updating again -/

/-- After an update the record of every barrel agrees with its folder. -/
theorem agrees_after_update (clear : NoStandIn now session) (orderly : session.Orderly)
    (listed : barrel ∈ (session.updateGraph now.host now.project).1.registry.paths) :
    ∃ folder entry, IsKept now barrel ∧ barrel.parent? = some folder ∧
      (session.updateGraph now.host now.project).1.registry.get? barrel = some entry ∧
        entry.Records (now.files folder) now.version := by
  have after := orderly.updateGraph now
  obtain ⟨present, found⟩ := (after.mem_paths_iff (after.barrels barrel listed).normal).mp listed
  have before := mem_paths_of_mem_paths_updateGraph clear orderly listed
  rcases updateGraph_cases clear orderly before with
    ⟨gone, -⟩ | ⟨folder, entry, kept, parent, -, ⟨records, left, -⟩ | ⟨-, calculated, -⟩⟩
  · rw [gone] at found
    cases found
  · exact ⟨folder, entry, kept, parent, left, records⟩
  · exact ⟨folder, now.entry folder, kept, parent, calculated, now.records_entry folder⟩

/-- Between two moments nothing changed that matters to a barrel: whether the project knows it, whether
there is room for it, and the files of its folder with their versions. -/
structure Unchanged (past now : Moment) (barrel : Path) : Prop where
  known : now.project.hasScriptInfo barrel = past.project.hasScriptInfo barrel
  room : ∀ folder, barrel.parent? = some folder →
    canHoldBarrel now.host folder = canHoldBarrel past.host folder
  files : ∀ folder, barrel.parent? = some folder → ∀ file,
    file ∈ past.files folder ↔ file ∈ now.files folder
  versions : ∀ folder, barrel.parent? = some folder → ∀ file ∈ past.files folder,
    past.version file = now.version file

/-- A barrel that is kept goes on being kept while nothing changes for it. -/
theorem IsKept.of_unchanged {past : Moment} (kept : IsKept past barrel)
    (unchanged : Unchanged past now barrel) : IsKept now barrel where
  known := unchanged.known.trans kept.known
  room := fun folder parent => (unchanged.room folder parent).trans (kept.room folder parent)

/-- Updating a barrel whose record agrees with its folder does nothing. -/
theorem updateBarrel_of_agrees {entry : BarrelEntry} (entriesNormal : session.EntriesNormal)
    (reads : ReadsThrough now session folder) (kept : IsKept now barrel)
    (parent : barrel.parent? = some folder) (found : session.registry.get? barrel = some entry)
    (records : entry.Records (now.files folder) now.version) :
    session.updateBarrel now.host now.project barrel = (session, []) := by
  have fresh : (session.registry.staleness barrel (now.files folder)
      (session.versionOf now.host now.project)).isStale = false := by
    rw [isStale_versionOf entriesNormal reads, Registry.isStale_eq_false_iff
      (fun _ listed => Moment.normalize_of_mem_files listed) (entriesNormal barrel)]
    exact ⟨entry, found, records⟩
  have holds := kept.room folder parent
  simp only [updateBarrel, kept.known, parent, holds, Bool.not_true, Bool.false_eq_true, if_false]
  exact if_neg (Bool.eq_false_iff.mp fresh)

/-- An update that changes none of the barrels makes one call only, which updates the graph. -/
theorem updateGraph_of_still
    (still : ∀ barrel ∈ session.registry.paths,
      session.updateBarrel now.host now.project barrel = (session, [])) :
    session.updateGraph now.host now.project = (session, [.updateGraph]) := by
  have along : session.registry.paths.foldl (updateNext now) (session, []) = (session, []) := by
    refine List.foldlRecOn (motive := fun (state : Session × List ProjectCall) => state = (session, []))
      _ _ rfl fun state same barrel listed => ?_
    rw [same, updateNext, still barrel listed]
    rfl
  have updated : session.updateBarrels now.host now.project = (session, []) := along
  rw [updateGraph, updated]

/-- Updating again does nothing while nothing changes that matters to a barrel. -/
theorem updateGraph_of_unchanged {past : Moment} (pastClear : NoStandIn past session)
    (orderly : session.Orderly)
    (clear : NoStandIn now (session.updateGraph past.host past.project).1)
    (unchanged : ∀ barrel ∈ (session.updateGraph past.host past.project).1.registry.paths,
      Unchanged past now barrel) :
    let updated := (session.updateGraph past.host past.project).1
    updated.updateGraph now.host now.project = (updated, [.updateGraph]) := by
  intro updated
  apply updateGraph_of_still
  intro barrel listed
  have same := unchanged barrel listed
  obtain ⟨folder, entry, kept, parent, found, records⟩ := agrees_after_update pastClear orderly listed
  have reads := clear.readsThrough listed (fun _ virtual => virtual) folder parent
  exact updateBarrel_of_agrees (orderly.updateGraph past).entries reads (kept.of_unchanged same) parent
    found (records.of_unchanged (same.files folder parent) (same.versions folder parent))

/-- However a session was driven, after an update the next one edits exactly once every barrel that
survives it and that has not been calculated or whose record does not agree with the files of its folder
and their versions, and no other. It leaves the others that survive as they are, and does nothing at all
when nothing has changed. This is so as long as no virtual barrel stands in for a file that contributes to
a barrel and cannot be read. -/
theorem update_recalculates_outdated (project : Project) (projectDirs : List Path)
    (steps : List (Surroundings × Step)) (past now : Moment) :
    let reached := ((History.begin project projectDirs).run steps).session
    let updated := (reached.updateGraph past.host past.project).1
    let after := updated.updateGraph now.host now.project
    NoStandIn past reached → NoStandIn now updated →
      (editedBarrels after.2).Nodup ∧
      (∀ barrel, barrel ∈ editedBarrels after.2 ↔ barrel ∈ after.1.registry.paths ∧
        ∃ folder entry, barrel.parent? = some folder ∧ updated.registry.get? barrel = some entry ∧
          ¬entry.Records (now.files folder) now.version) ∧
      (∀ barrel ∈ after.1.registry.paths, barrel ∉ editedBarrels after.2 →
        after.1.registry.get? barrel = updated.registry.get? barrel) ∧
      ((∀ barrel ∈ updated.registry.paths, Unchanged past now barrel) →
        after = (updated, [.updateGraph])) := by
  intro reached updated after pastClear clear
  have start : reached.Orderly := (Orderly.create project projectDirs).run steps
  have orderly : updated.Orderly := start.updateGraph past
  have last : after.1.Orderly := orderly.updateGraph now
  have survived : ∀ barrel ∈ after.1.registry.paths, barrel ∈ updated.registry.paths ∧
      after.1.registry.get? barrel ≠ none := by
    intro barrel listed
    obtain ⟨entry, found⟩ := (last.mem_paths_iff (last.barrels barrel listed).normal).mp listed
    exact ⟨mem_paths_of_mem_paths_updateGraph clear orderly listed, by rw [found]; exact Option.some_ne_none entry⟩
  refine ⟨nodup_editedBarrels clear orderly, fun barrel => ⟨fun edited => ?_, fun outdated => ?_⟩,
    fun barrel listed unedited => ?_, updateGraph_of_unchanged pastClear start clear⟩
  · have listed := ((mem_editedBarrels_iff clear orderly).mp edited).1
    rcases updateGraph_cases clear orderly listed with
      ⟨-, unedited⟩ | ⟨folder, entry, -, parent, found, ⟨-, -, unedited⟩ | ⟨differs, calculated, -⟩⟩
    · exact absurd edited unedited
    · exact absurd edited unedited
    · refine ⟨?_, folder, entry, parent, found, differs⟩
      exact (last.mem_paths_iff (orderly.barrels barrel listed).normal).mpr ⟨_, calculated⟩
  · obtain ⟨listed, folder, entry, parent, found, differs⟩ := outdated
    obtain ⟨before, present⟩ := survived barrel listed
    rcases updateGraph_cases clear orderly before with
      ⟨gone, -⟩ | ⟨home, known, -, same, recorded, ⟨records, -, -⟩ | ⟨-, -, edited⟩⟩
    · exact absurd gone present
    · obtain rfl := Option.some.inj (parent.symm.trans same)
      obtain rfl := Option.some.inj (found.symm.trans recorded)
      exact absurd records differs
    · exact edited
  · obtain ⟨before, present⟩ := survived barrel listed
    rcases updateGraph_cases clear orderly before with
      ⟨gone, -⟩ | ⟨folder, entry, -, -, found, ⟨-, left, -⟩ | ⟨-, -, edited⟩⟩
    · exact absurd gone present
    · exact left.trans found.symm
    · exact absurd edited unedited

/-- The barrel of a folder whose one file is edited: updating again before that does nothing, and edits
the barrel afterwards. -/
theorem edited_folder_is_recalculated :
    let past := trackingMoment (Disk.ofList [(⟨"/p/a.ts"⟩, "export const a = 1")] []).fileSystem {}
    let now := trackingMoment (Disk.ofList [(⟨"/p/a.ts"⟩, "export const b = 1")] []).fileSystem {}
    let reached := ((History.begin past.project [⟨"/p"⟩]).run
      [(.still past, .probe ⟨"/p/index.ts"⟩)]).session
    let updated := (reached.updateGraph past.host past.project).1
    updated.updateGraph past.host past.project = (updated, [.updateGraph]) ∧
      editedBarrels (updated.updateGraph now.host now.project).2 = [⟨"/p/index.ts"⟩] ∧
      ∃ folder entry, Path.parent? ⟨"/p/index.ts"⟩ = some folder ∧
        updated.registry.get? ⟨"/p/index.ts"⟩ = some entry ∧
        ¬entry.Records (now.files folder) now.version := by
  intro past now reached updated
  have start : reached.Orderly := (Orderly.create past.project [⟨"/p"⟩]).run _
  have orderly : updated.Orderly := start.updateGraph past
  have pastClear : NoStandIn past reached := noStandIn_of_cased start.barrels fun _ => rfl
  have stillClear : NoStandIn past updated := noStandIn_of_cased orderly.barrels fun _ => rfl
  have clear : NoStandIn now updated := noStandIn_of_cased orderly.barrels fun _ => rfl
  have spec := fun next => update_recalculates_outdated past.project [⟨"/p"⟩]
    [(.still past, .probe ⟨"/p/index.ts"⟩)] past next pastClear
  have sameReached : ((History.begin past.project [⟨"/p"⟩]).run
      [(.still past, .probe ⟨"/p/index.ts"⟩)]).session = reached := rfl
  have sameUpdated : (reached.updateGraph past.host past.project).1 = updated := rfl
  simp only [sameReached, sameUpdated] at spec
  have edited : editedBarrels (updated.updateGraph now.host now.project).2 = [⟨"/p/index.ts"⟩] := by
    decide +kernel
  have listed : ⟨"/p/index.ts"⟩ ∈ editedBarrels (updated.updateGraph now.host now.project).2 := by
    rw [edited]
    exact List.mem_cons_self
  refine ⟨(spec past stillClear).2.2.2 fun _ _ => ?_, edited, (((spec now clear).2.1 _).mp listed).2⟩
  exact ⟨rfl, fun _ _ => rfl, fun _ _ _ => Iff.rfl, fun _ _ _ _ => rfl⟩

/-- A file that cannot be read and that the host spells like the barrel of another folder: that barrel is
served in its place, so that an update changes what the next one reads, and the next one edits a barrel
although nothing has changed. -/
theorem barrel_in_place_of_unreadable_file_is_edited_again :
    let disk : Disk :=
      .ofList [(⟨"/p/A/Index.ts"⟩, ""), (⟨"/p/a/y.ts"⟩, "export const y = 1")] []
    let host : FileSystem :=
      { disk.fileSystem with
        fileText := fun path => if path.same ⟨"/p/A/Index.ts"⟩ then none else disk.fileText path
        casedPath := fun path => if path.same ⟨"/p/A/Index.ts"⟩ then ⟨"/p/a/index.ts"⟩ else path }
    let project : Project :=
      ⟨[⟨"/p/A/Index.ts"⟩, ⟨"/p/a/y.ts"⟩], [], {}, fun _ => none, fun _ => true, fun _ _ => []⟩
    let updated := ((create project [⟨"/p"⟩]).updateGraph host project).1
    (updated.updateGraph host project).2 =
      [.updateGraph, .editContent ⟨"/p/A/index.ts"⟩ "export \x7b y \x7d from \"./Index\";\n"] := by
  decide +kernel

end Session

end BarrelSynthesis
