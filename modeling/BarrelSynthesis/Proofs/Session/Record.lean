/-
# The record of a session

Every entry of a session's registry stands under the path of a barrel. Once it is hydrated, it is the
calculation of some earlier moment, and its text is what the project was last told about the barrel.
Questions about files keep this: they register barrels or drop them, but hydrate none.
-/
import BarrelSynthesis.Proofs.Session.Snapshot

namespace BarrelSynthesis

/-! ## Texts pushed to the project -/

/-- The text that a call gives a barrel. -/
def ProjectCall.textFor? (barrel : Path) : ProjectCall → Option String
  | .editContent path text => if path.same barrel then some text else none
  | _ => none

/-- The text that the project was last told for a barrel. -/
def pushedText? (calls : List ProjectCall) (barrel : Path) : Option String :=
  (calls.filterMap (·.textFor? barrel)).getLast?

/-- The last text of a barrel is that of the later calls, or of the earlier ones where the later give none.
-/
theorem pushedText?_append (calls more : List ProjectCall) (barrel : Path) :
    pushedText? (calls ++ more) barrel = (pushedText? more barrel).or (pushedText? calls barrel) := by
  rw [pushedText?, List.filterMap_append, List.getLast?_append]
  rfl

/-- Calls that say nothing about a barrel leave its text. -/
theorem pushedText?_append_of_silent {calls more : List ProjectCall} {barrel : Path}
    (silent : ∀ call ∈ more, call.textFor? barrel = none) :
    pushedText? (calls ++ more) barrel = pushedText? calls barrel := by
  have blank : pushedText? more barrel = none := by
    rw [pushedText?, List.filterMap_eq_nil_iff.mpr silent]
    rfl
  rw [pushedText?_append, blank, Option.none_or]

/-- After an edit, the text of the barrel is the one that was told. -/
theorem pushedText?_append_editContent {calls : List ProjectCall} {barrel : Path} {text : String} :
    pushedText? (calls ++ [.editContent barrel text]) barrel = some text := by
  have pushed : pushedText? [.editContent barrel text] barrel = some text := by
    simp [pushedText?, ProjectCall.textFor?, Path.same]
  rw [pushedText?_append, pushed, Option.some_or]

/-- An edit of one barrel is none of another. -/
theorem pushedText?_append_editContent_of_ne {calls : List ProjectCall} {barrel other : Path}
    {text : String} (isBarrel : IsBarrelPath barrel) (isOther : IsBarrelPath other)
    (differs : other ≠ barrel) :
    pushedText? (calls ++ [.editContent barrel text]) other = pushedText? calls other := by
  apply pushedText?_append_of_silent
  intro call member
  obtain rfl := List.mem_singleton.mp member
  refine if_neg fun same => differs ?_
  exact isOther.eq_of_components_eq isBarrel (Path.same_iff.mp same).symm

/-! ## The record of a registry -/

/-- What is known of an entry: it stands under the path of a barrel, and once it is hydrated, it is the
calculation of one of the moments, and the project was last told its text. -/
structure Stands (moments : List Moment) (calls : List ProjectCall) (barrel : Path)
    (entry : BarrelEntry) : Prop where
  path : IsBarrelPath barrel
  snapshot : entry = .registered ∨ ∃ moment ∈ moments, ∃ folder,
    barrel.parent? = some folder ∧ entry = moment.entry folder ∧
      pushedText? calls barrel = some (moment.barrel folder).text

/-- Every entry of a registry stands. -/
def Recorded (moments : List Moment) (calls : List ProjectCall) (registry : Registry) : Prop :=
  ∀ barrel entry, (barrel, entry) ∈ registry.barrels.entries → Stands moments calls barrel entry

/-- What stands keeps standing while its text stays the last one that was told. -/
theorem Stands.of_pushed {moments : List Moment} {calls later : List ProjectCall} {barrel : Path}
    {entry : BarrelEntry} (stands : Stands moments calls barrel entry)
    (pushed : pushedText? later barrel = pushedText? calls barrel) :
    Stands moments later barrel entry := by
  refine ⟨stands.path, ?_⟩
  rw [pushed]
  exact stands.snapshot

namespace Recorded

variable {moments : List Moment} {calls more : List ProjectCall} {registry : Registry}

/-- What a recorded registry holds are paths of barrels. -/
theorem of_mem_keys {barrel : Path} (recorded : Recorded moments calls registry)
    (listed : barrel ∈ registry.barrels.keys) : IsBarrelPath barrel := by
  obtain ⟨entry, member⟩ := PathMap.mem_keys_iff.mp listed
  exact (recorded barrel entry member).path

/-- What stands in a recorded registry after writing an entry under the path of a barrel. -/
theorem mem_insert {barrel other : Path} {entry found : BarrelEntry}
    (recorded : Recorded moments calls registry) (isBarrel : IsBarrelPath barrel)
    (member : (other, found) ∈ (registry.barrels.insert barrel entry).entries) :
    other = barrel ∧ found = entry ∨ other ≠ barrel ∧ (other, found) ∈ registry.barrels.entries := by
  rcases PathMap.mem_insert member with ⟨same, rfl, spelled⟩ | ⟨differs, old⟩
  · left
    refine ⟨?_, rfl⟩
    rcases spelled with rfl | known
    · rfl
    · exact (recorded.of_mem_keys known).eq_of_components_eq isBarrel same
  · exact .inr ⟨fun same => differs (congrArg Path.components same), old⟩

theorem empty : Recorded moments calls .empty := fun _ _ member => absurd member List.not_mem_nil

/-- Calls that tell no text leave a record as it is. -/
theorem append_silent (recorded : Recorded moments calls registry)
    (silent : ∀ barrel, ∀ call ∈ more, call.textFor? barrel = none) :
    Recorded moments (calls ++ more) registry := fun barrel entry member =>
  (recorded barrel entry member).of_pushed (pushedText?_append_of_silent (silent barrel))

/-- A barrel that is only registered stands, as nothing is known of it yet. -/
theorem register {path : Path} (recorded : Recorded moments calls registry)
    (isBarrel : IsBarrelPath path.normalize) : Recorded moments calls (registry.register path) := by
  rw [Registry.register]
  split
  · exact recorded
  · intro barrel entry member
    rcases PathMap.mem_insert member with ⟨-, rfl, rfl | known⟩ | ⟨-, kept⟩
    · exact ⟨isBarrel, .inl rfl⟩
    · exact ⟨recorded.of_mem_keys known, .inl rfl⟩
    · exact recorded barrel entry kept

/-- What is left after erasing a barrel stands as before. -/
theorem erase (recorded : Recorded moments calls registry) (path : Path) :
    Recorded moments calls (registry.erase path) := fun barrel entry member =>
  recorded barrel entry (PathMap.mem_erase_iff.mp member).2

/-- A project begins with barrels that are only registered. -/
theorem ofFolders (folders : List Path) : Recorded moments calls (.ofFolders folders) := by
  have gathered (folders : List Path) (registry : Registry)
      (recorded : Recorded moments calls registry) :
      Recorded moments calls
        (folders.foldl (fun registry folder => registry.register (Folder.barrelPath folder))
          registry) := by
    induction folders generalizing registry with
    | nil => exact recorded
    | cons folder rest ih =>
        apply ih
        apply recorded.register
        rw [Folder.barrelPath, Path.normalize_normalize]
        exact isBarrelPath_join folder
  exact gathered folders .empty empty

end Recorded

/-! ## What a session sees of a folder -/

namespace Session

variable {moments : List Moment} {calls : List ProjectCall} {session : Session} {now : Moment}

/-- No barrel stands under the path of a listed file. -/
theorem get?_of_listed {folder file : Path}
    (areBarrels : ∀ barrel ∈ session.registry.paths, IsBarrelPath barrel)
    (listed : file ∈ now.files folder) : session.registry.get? file = none := by
  cases found : session.registry.get? file with
  | none => rfl
  | some entry =>
      rw [Registry.get?, Folder.normalize_of_mem_files listed] at found
      obtain ⟨barrel, member, same⟩ := PathMap.get?_eq_some_iff.mp found
      have path := areBarrels barrel (PathMap.mem_keys_iff.mpr ⟨entry, member⟩)
      have one := Path.eq_of_components_eq path.normal (Folder.normalize_of_mem_files listed) same
      have isAggregator := Folder.isBarrelFile_of_fileName? path.named
      rw [one, Folder.not_isBarrelFile_of_mem_files listed] at isAggregator
      cases isAggregator

/-- Where no barrel stands, the text of a file is that on disk. -/
theorem fileText_of_get? {host : FileSystem} {file : Path}
    (absent : host.fileText file = none → session.registry.get? (host.casedPath file) = none) :
    session.fileText host file = host.fileText file := by
  rw [fileText]
  cases read : host.fileText file with
  | some text => rfl
  | none =>
      rw [Registry.text?, absent read]
      rfl

/-- A session reads the listed files of a folder as its host does. -/
def ReadsThrough (now : Moment) (session : Session) (folder : Path) : Prop :=
  ∀ file ∈ now.files folder, session.fileText now.host file = now.host.fileText file

/-- The version of a file that a session reads through is the version that its host gives. -/
theorem versionOf_of_readsThrough {folder file : Path} (reads : ReadsThrough now session folder)
    (listed : file ∈ now.files folder) :
    session.versionOf now.host now.project file = now.version file := by
  have text : (session.served now.host).fileText file = now.host.fileText file := reads file listed
  rw [versionOf, Moment.version, Digest.fileVersion, Digest.fileVersion, text]

/-- What a session calculates for a folder that it reads as its host does is what the host holds. -/
theorem calculate_of_readsThrough {folder : Path} (reads : ReadsThrough now session folder) :
    (Barrel.calculate (session.served now.host) now.project.options folder).barrel =
      now.barrel folder := by
  have listing : ∀ file, file ∈ Folder.files (session.served now.host) now.project.options folder ↔
      file ∈ Folder.files now.host now.project.options folder := fun _ => Iff.rfl
  exact Barrel.calculate_barrel_congr listing reads

/-- What a session enters for a folder that it reads through is the entry that its host would give. -/
theorem ofCalculation_of_readsThrough {folder : Path} (reads : ReadsThrough now session folder) :
    BarrelEntry.ofCalculation (session.versionOf now.host now.project)
        (Barrel.calculate (session.served now.host) now.project.options folder) =
      now.entry folder := by
  have versions : (now.files folder).map (fun file =>
        (file, session.versionOf now.host now.project file)) =
      (now.files folder).map fun file => (file, now.version file) :=
    List.map_congr_left fun file listed =>
      congrArg (Prod.mk file) (versionOf_of_readsThrough reads listed)
  rw [BarrelEntry.ofCalculation, calculate_of_readsThrough reads]
  exact congrArg (fun files => BarrelEntry.hydrated (.ofList files) _ _) versions

/-- Where paths are asked for in the case they have on disk, no barrel is served in the place of a listed
file. -/
theorem readsThrough_of_steady (folder : Path) (steady : Moment.Steady moments)
    (present : now ∈ moments) (recorded : Recorded moments calls session.registry) :
    ReadsThrough now session folder := by
  intro file listed
  apply fileText_of_get?
  intro _
  rw [steady.cased now present]
  exact get?_of_listed (fun _ member => recorded.of_mem_keys member) listed

/-! ## Questions -/

/-- Creating a barrel keeps the record, as the new one is only registered. -/
theorem createBarrel_recorded {path : Path} (recorded : Recorded moments calls session.registry)
    (isBarrel : IsBarrelPath path.normalize) :
    Recorded moments calls (session.createBarrel path).registry := by
  rw [createBarrel]
  split
  · exact recorded
  · exact recorded.register isBarrel

/-- Dropping a barrel keeps the record of the others. -/
theorem deleteBarrel_recorded (recorded : Recorded moments calls session.registry) (path : Path) :
    Recorded moments calls (session.deleteBarrel path).registry := by
  rw [deleteBarrel]
  split
  · exact recorded.erase path
  · exact recorded

/-- A question about a file registers barrels or drops one; it hydrates none. -/
theorem fileExists_recorded (host : FileSystem) (recorded : Recorded moments calls session.registry)
    (path : Path) : Recorded moments calls (session.fileExists host path).2.registry := by
  rw [fileExists]
  split
  · exact deleteBarrel_recorded recorded _
  split
  · exact recorded
  split
  · exact recorded
  split
  · split
    · exact recorded
    · apply createBarrel_recorded recorded
      exact isBarrelPath_join _
  split
  · next lookup =>
      simp only [Bool.and_eq_true, decide_eq_true_eq] at lookup
      apply createBarrel_recorded recorded
      rw [Path.normalize_normalize]
      exact ⟨Path.normalize_normalize _, lookup.1⟩
  · exact recorded

/-- What every question keeps, asking for several files keeps. -/
theorem firstExisting_keeps (host : FileSystem) {keeps : Session → Prop}
    (question : ∀ session path, keeps session → keeps (session.fileExists host path).2)
    {paths : List Path} (before : keeps session) : keeps (session.firstExisting host paths).2 := by
  induction paths generalizing session with
  | nil => exact before
  | cons path rest ih =>
      have asked := question session path before
      rw [firstExisting]
      cases answer : session.fileExists host path with
      | mk found next =>
          rw [answer] at asked
          cases found with
          | true => exact asked
          | false => exact ih asked

/-- What every question keeps, resolving module names keeps. -/
theorem resolveNames_keeps (host : FileSystem) {keeps : Session → Prop}
    (question : ∀ session path, keeps session → keeps (session.fileExists host path).2)
    {project : Project} {containingFile : Path} {names : List String}
    {known : List (Option ResolvedModule)} (before : keeps session) :
    keeps (session.resolveNames host project containingFile names known).2 := by
  induction names generalizing session known with
  | nil => exact before
  | cons name names ih =>
      rw [resolveNames]
      apply ih
      cases known.head?.getD none with
      | some resolved => exact before
      | none => exact firstExisting_keeps host question before

/-- Resolving names asks about files, and questions keep the record. -/
theorem resolveNames_recorded (host : FileSystem) {project : Project} {containingFile : Path}
    {names : List String} {known : List (Option ResolvedModule)}
    (recorded : Recorded moments calls session.registry) :
    Recorded moments calls
      (session.resolveNames host project containingFile names known).2.registry := by
  have question : ∀ (session : Session) (path : Path), Recorded moments calls session.registry →
      Recorded moments calls (session.fileExists host path).2.registry := fun _ path recorded =>
    fileExists_recorded host recorded path
  exact resolveNames_keeps host question recorded

end Session

end BarrelSynthesis
