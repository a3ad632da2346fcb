/-
# What becomes of every entity

The files of a folder are gone through in the order of the listing, and two records are kept in step: the
manifest, and the file that last exported each name. An entity whose name is new becomes a key behind the
others. An entity whose name is known takes the place of the one before it, and the file it comes from is
warned about, with the file that exported the name last. So every entity is counted once, as a key or as
a warning.

The names that one file exports are distinct, so a file that is listed once never collides with itself. A
host may list a file several times. The file is gone through each time then, and its warnings stand one time
behind the other. A disk in memory lists no file twice.
-/
import BarrelSynthesis.Proofs.Barrel.Listing
import BarrelSynthesis.Proofs.Barrel.Provenance
import BarrelSynthesis.Proofs.Disk.Contents
import BarrelSynthesis.Proofs.Source.WrittenExports

namespace BarrelSynthesis

/-! ## The entities of one file -/

namespace ModuleExports

/-- Extraction warns about exports without a name, and about nothing else. -/
theorem code_of_mem_ofOccurrences {path : Path} {extension source : String}
    {occurrences : List ExportOccurrence} {warning : Diagnostic}
    (member : warning ∈ (ofOccurrences path extension source occurrences).diagnostics) :
    warning.code = Diagnostic.missingIdentifierCode := by
  obtain ⟨occurrence, -, warned⟩ := List.mem_filterMap.mp member
  cases occurrence with
  | named identifier span isDefault isType => cases warned
  | anonymous span =>
      cases warned
      rfl

end ModuleExports

namespace Contribution

/-- What holds of everything that can be read from a file: it is what an asset, unparsable code, or the
occurrences in a module give. -/
theorem ofSource_exports_cases (file : Path) (source : String) :
    (ofSource file source).exports = ⟨[Asset.entity file], []⟩ ∨
      (ofSource file source).exports = .empty ∨
      ∃ extension occurrences,
        (ofSource file source).exports = .ofOccurrences file extension source occurrences := by
  rw [ofSource]
  simp only [ModuleExports.ofSource?]
  cases Extension.ofPath? file with
  | none => exact .inl rfl
  | some extension =>
      by_cases code : Extension.isCode extension = true
      · simp only [code, if_true]
        cases Source.Module.parse? (Source.Language.ofPath file) source with
        | none => exact .inr (.inl rfl)
        | some module => exact .inr (.inr ⟨extension, _, rfl⟩)
      · simp only [code]
        exact .inl rfl

/-- No file adds two entities of one name. -/
theorem nodup_ofSource (file : Path) (source : String) :
    ((ofSource file source).exports.entities.map (·.identifier)).Nodup := by
  rcases ofSource_exports_cases file source with asset | unparsable | ⟨extension, occurrences, read⟩
  · rw [asset]
    exact List.nodup_singleton _
  · rw [unparsable]
    exact List.nodup_nil
  · rw [read]
    exact ModuleExports.nodup_ofOccurrences ..

/-- What extraction warns about is a missing name. -/
theorem code_of_mem_ofSource {file : Path} {source : String} {warning : Diagnostic}
    (member : warning ∈ (ofSource file source).exports.diagnostics) :
    warning.code = Diagnostic.missingIdentifierCode := by
  rcases ofSource_exports_cases file source with asset | unparsable | ⟨extension, occurrences, read⟩
  · rw [asset] at member
    cases member
  · rw [unparsable] at member
    cases member
  · rw [read] at member
    exact ModuleExports.code_of_mem_ofOccurrences member

/-- The warnings about the names that a file shares with others, in the order of its entities. `last?`
tells the file that exported a name last. -/
def collisionsWith (contribution : Contribution) (last? : String → Option Path) : List Diagnostic :=
  contribution.exports.entities.filterMap fun entity =>
    (last? entity.identifier).map fun shadowed =>
      .duplicateIdentifier contribution.file contribution.source (entity.span.getD ⟨0, 0⟩)
        entity.identifier shadowed

end Contribution

/-! ## The two records -/

namespace BarrelTally

/-- The warnings gathered about a file. -/
def warningsAbout (tally : BarrelTally) (file : Path) : List Diagnostic :=
  (tally.diagnostics.get? file).getD []

/-- A warning is put behind those about the same file, and about other files nothing changes. -/
theorem warningsAbout_warn (tally : BarrelTally) (file other : Path) (diagnostics : List Diagnostic) :
    (tally.warn file diagnostics).warningsAbout other =
      tally.warningsAbout other ++ if file.same other then diagnostics else [] := by
  rw [warn]
  cases diagnostics with
  | nil => simp
  | cons first rest =>
      simp only [List.isEmpty_cons, Bool.false_eq_true, if_false, warningsAbout,
        PathMap.get?_insert]
      by_cases same : file.same other = true
      · rw [if_pos same, if_pos same, PathMap.get?_congr (Path.same_iff.mp same)]
        rfl
      · rw [if_neg same, if_neg same, List.append_nil]

@[simp]
theorem warn_origins (tally : BarrelTally) (file : Path) (diagnostics : List Diagnostic) :
    (tally.warn file diagnostics).origins = tally.origins := by
  rw [warn]
  split <;> rfl

/-- Writing an entity makes its file the last one that exported the name. -/
theorem addEntity_origins (contribution : Contribution) (tally : BarrelTally) (entity : Entity) :
    (addEntity contribution tally entity).origins =
      (entity.identifier, contribution.file) :: tally.origins := by
  simp only [addEntity]
  cases tally.origins.lookup entity.identifier <;> simp

/-- Writing an entity adds a warning about its file when the name was known. -/
theorem warningsAbout_addEntity (contribution : Contribution) (tally : BarrelTally) (entity : Entity)
    (other : Path) :
    (addEntity contribution tally entity).warningsAbout other =
      tally.warningsAbout other ++
        if contribution.file.same other then
          ((tally.origins.lookup entity.identifier).map fun shadowed =>
            Diagnostic.duplicateIdentifier contribution.file contribution.source
              (entity.span.getD ⟨0, 0⟩) entity.identifier shadowed).toList
        else [] := by
  cases known : tally.origins.lookup entity.identifier with
  | none =>
      simp only [addEntity, known, Option.map_none, Option.toList_none, ite_self, List.append_nil]
      rfl
  | some shadowed =>
      simp only [addEntity, known, Option.map_some, Option.toList_some]
      exact warningsAbout_warn ..

/-- Entities of distinct names are each compared with what was known before all of them. -/
theorem warningsAbout_foldl_addEntity {contribution : Contribution} {entities : List Entity}
    (distinct : (entities.map (·.identifier)).Nodup) (tally : BarrelTally) (other : Path) :
    (entities.foldl (addEntity contribution) tally).warningsAbout other =
      tally.warningsAbout other ++
        if contribution.file.same other then
          entities.filterMap fun entity =>
            (tally.origins.lookup entity.identifier).map fun shadowed =>
              .duplicateIdentifier contribution.file contribution.source (entity.span.getD ⟨0, 0⟩)
                entity.identifier shadowed
        else [] := by
  induction entities generalizing tally with
  | nil => simp
  | cons entity rest ih =>
      obtain ⟨fresh, others⟩ := List.nodup_cons.mp distinct
      have unchanged : ∀ later ∈ rest,
          (addEntity contribution tally entity).origins.lookup later.identifier =
            tally.origins.lookup later.identifier := by
        intro later listed
        have differs : later.identifier ≠ entity.identifier := fun same =>
          fresh (List.mem_map.mpr ⟨later, listed, same⟩)
        rw [addEntity_origins, List.lookup_cons, beq_eq_false_iff_ne.mpr differs]
      rw [List.foldl_cons, ih others, warningsAbout_addEntity, List.append_assoc]
      by_cases here : contribution.file.same other = true
      · simp only [here, if_true]
        congr 1
        rw [List.filterMap_cons, List.filterMap_congr fun later listed => by
          rw [unchanged later listed]]
        cases tally.origins.lookup entity.identifier <;> rfl
      · simp only [here, Bool.false_eq_true, if_false, List.append_nil]

/-- Behind the entities of a file, the file is the last exporter of their names, and the others keep theirs.
-/
theorem lookup_origins_foldl_addEntity (contribution : Contribution) (entities : List Entity)
    (tally : BarrelTally) (identifier : String) :
    (entities.foldl (addEntity contribution) tally).origins.lookup identifier =
      if entities.any (·.identifier = identifier) then some contribution.file
      else tally.origins.lookup identifier := by
  induction entities generalizing tally with
  | nil => rfl
  | cons entity rest ih =>
      rw [List.foldl_cons, ih, addEntity_origins, List.any_cons, List.lookup_cons]
      by_cases same : entity.identifier = identifier
      · simp [same]
      · simp [same, beq_eq_false_iff_ne.mpr (Ne.symm same)]

/-- What gathering a file adds to the warnings: those of its extraction, then its collisions with what was
gathered before it. -/
theorem warningsAbout_add (tally : BarrelTally) (file other : Path) (source : String) :
    (tally.add (.ofSource file source)).warningsAbout other =
      tally.warningsAbout other ++
        if file.same other then
          (Contribution.ofSource file source).exports.diagnostics ++
            (Contribution.ofSource file source).collisionsWith fun identifier =>
              tally.origins.lookup identifier
        else [] := by
  rw [add, warningsAbout_foldl_addEntity (Contribution.nodup_ofSource file source),
    warningsAbout_warn, warn_origins, List.append_assoc]
  have named : (Contribution.ofSource file source).file = file := rfl
  rw [named]
  by_cases here : file.same other = true
  · simp only [here, if_true]
    rfl
  · simp only [here, Bool.false_eq_true, if_false, List.append_nil]

/-- Gathering a file makes it the last exporter of its names. -/
theorem lookup_origins_add (tally : BarrelTally) (file : Path) (source identifier : String) :
    (tally.add (.ofSource file source)).origins.lookup identifier =
      if (Contribution.ofSource file source).exports.entities.any (·.identifier = identifier) then
        some file
      else tally.origins.lookup identifier := by
  rw [add, lookup_origins_foldl_addEntity, warn_origins]
  rfl

/-! ## Counting -/

/-- The two records are in step: the names with a file are the keys of the manifest. -/
def InStep (tally : BarrelTally) : Prop :=
  ∀ identifier, (tally.origins.lookup identifier).isSome ↔ identifier ∈ tally.manifest.keys

/-- The number of collisions warned about. -/
def collisionCount (tally : BarrelTally) : Nat :=
  tally.diagnostics.values.flatten.countP (·.code = Diagnostic.duplicateIdentifierCode)

/-- A list of warnings adds as many collisions as there are among them. -/
theorem collisionCount_warn (tally : BarrelTally) (file : Path) (diagnostics : List Diagnostic) :
    (tally.warn file diagnostics).collisionCount =
      tally.collisionCount + diagnostics.countP (·.code = Diagnostic.duplicateIdentifierCode) := by
  rw [warn]
  cases diagnostics with
  | nil => simp
  | cons first rest =>
      have shares := PathMap.countP_values_insert tally.diagnostics file
        ((tally.diagnostics.get? file).getD [] ++ first :: rest)
        (·.code = Diagnostic.duplicateIdentifierCode)
      rw [List.countP_append] at shares
      simp only [List.isEmpty_cons, Bool.false_eq_true, if_false, collisionCount]
      omega

/-- A name gets a file and a key at the same time. -/
theorem InStep.addEntity {tally : BarrelTally} (inStep : tally.InStep) (contribution : Contribution)
    (entity : Entity) : (addEntity contribution tally entity).InStep := by
  intro identifier
  have known := inStep identifier
  rw [addEntity_origins, addEntity_manifest, Manifest.keys_insert, List.lookup_cons]
  by_cases same : identifier = entity.identifier
  · rw [same]
    by_cases present : entity.identifier ∈ tally.manifest.keys <;> simp [present]
  · rw [beq_eq_false_iff_ne.mpr same]
    by_cases present : entity.identifier ∈ tally.manifest.keys
    · simpa [present] using known
    · simpa [present, same] using known

/-- Every entity is counted once: as a key when its name is new, and as a collision otherwise. -/
theorem collisionCount_addEntity {tally : BarrelTally} (inStep : tally.InStep)
    (contribution : Contribution) (entity : Entity) :
    (BarrelTally.addEntity contribution tally entity).collisionCount +
        (BarrelTally.addEntity contribution tally entity).manifest.keys.length =
      tally.collisionCount + tally.manifest.keys.length + 1 := by
  have known := inStep entity.identifier
  rw [addEntity_manifest, Manifest.keys_insert]
  cases found : tally.origins.lookup entity.identifier with
  | none =>
      have absent : entity.identifier ∉ tally.manifest.keys := fun present => by
        simpa [found] using known.mpr present
      have same : (BarrelTally.addEntity contribution tally entity).collisionCount =
          tally.collisionCount := by
        simp only [BarrelTally.addEntity, found]
        rfl
      rw [if_neg absent, List.length_append, List.length_singleton, same]
      omega
  | some shadowed =>
      have present : entity.identifier ∈ tally.manifest.keys := known.mp (by simp [found])
      have one : (BarrelTally.addEntity contribution tally entity).collisionCount =
          tally.collisionCount + 1 := by
        simp only [BarrelTally.addEntity, found]
        exact collisionCount_warn ..
      rw [if_pos present, one]
      omega

/-- Entities written one after the other are each counted once. -/
theorem collisionCount_foldl_addEntity (contribution : Contribution) (entities : List Entity)
    {tally : BarrelTally} (inStep : tally.InStep) :
    let after := entities.foldl (addEntity contribution) tally
    after.InStep ∧ after.collisionCount + after.manifest.keys.length =
      tally.collisionCount + tally.manifest.keys.length + entities.length := by
  induction entities generalizing tally with
  | nil => exact ⟨inStep, rfl⟩
  | cons entity rest ih =>
      obtain ⟨kept, counted⟩ := ih (inStep.addEntity contribution entity)
      refine ⟨kept, ?_⟩
      rw [List.foldl_cons, counted, collisionCount_addEntity inStep, List.length_cons]
      omega

/-- Gathering a file counts each of its entities once, because extraction warns about no collisions. -/
theorem collisionCount_add {tally : BarrelTally} (inStep : tally.InStep) (file : Path)
    (source : String) :
    let contribution := Contribution.ofSource file source
    let after := tally.add contribution
    after.InStep ∧ after.collisionCount + after.manifest.keys.length =
      tally.collisionCount + tally.manifest.keys.length + contribution.exports.entities.length := by
  intro contribution after
  have silent : contribution.exports.diagnostics.countP
      (·.code = Diagnostic.duplicateIdentifierCode) = 0 := by
    rw [List.countP_eq_zero]
    intro warning member
    rw [Contribution.code_of_mem_ofSource member]
    decide
  have warned : (tally.warn file contribution.exports.diagnostics).InStep := fun identifier => by
    rw [warn_origins, warn_manifest]
    exact inStep identifier
  obtain ⟨kept, counted⟩ :=
    collisionCount_foldl_addEntity contribution contribution.exports.entities warned
  refine ⟨kept, counted.trans ?_⟩
  rw [collisionCount_warn, silent, warn_manifest, Nat.add_zero]

end BarrelTally

/-! ## The files of a folder -/

namespace Contribution

variable {host : FileSystem}

/-- A file exports a name. -/
def Exports (host : FileSystem) (file : Path) (identifier : String) : Prop :=
  ∃ entity ∈ entitiesOf host file, entity.identifier = identifier

instance (host : FileSystem) (file : Path) (identifier : String) :
    Decidable (Exports host file identifier) :=
  inferInstanceAs (Decidable (∃ entity ∈ entitiesOf host file, entity.identifier = identifier))

/-- The last of some files that exports a name. -/
def lastExporter? (host : FileSystem) (files : List Path) (identifier : String) : Option Path :=
  files.reverse.find? fun file => Exports host file identifier

/-- Of some files, the last one that exports a name. -/
def NearestExporter (host : FileSystem) (files : List Path) (identifier : String) (last : Path) :
    Prop :=
  ∃ front behind, files = front ++ last :: behind ∧ Exports host last identifier ∧
    ∀ later ∈ behind, ¬ Exports host later identifier

/-- What extraction warns about in a file: nothing when it cannot be read. -/
def warningsOf (host : FileSystem) (file : Path) : List Diagnostic :=
  ((host.fileText file).map fun source => (ofSource file source).exports.diagnostics).getD []

/-- The warnings about the names that a file shares with files before it. -/
def collisions (host : FileSystem) (before : List Path) (file : Path) : List Diagnostic :=
  ((host.fileText file).map fun source =>
    (ofSource file source).collisionsWith (lastExporter? host before)).getD []

/-- The last exporter is the nearest one before whatever comes next. -/
theorem lastExporter?_eq_some_iff {files : List Path} {identifier : String} {last : Path} :
    lastExporter? host files identifier = some last ↔
      NearestExporter host files identifier last := by
  rw [lastExporter?, List.find?_eq_some_iff_append]
  simp only [decide_eq_true_eq, Bool.not_eq_true', decide_eq_false_iff_not]
  constructor
  · rintro ⟨exported, behind, front, shape, silent⟩
    refine ⟨front.reverse, behind.reverse, ?_, exported, ?_⟩
    · rw [← List.reverse_reverse files, shape]
      simp
    · exact fun later member => silent later (List.mem_reverse.mp member)
  · rintro ⟨front, behind, rfl, exported, silent⟩
    refine ⟨exported, behind.reverse, front.reverse, by simp, ?_⟩
    exact fun later member => silent later (List.mem_reverse.mp member)

/-- One more file is the last exporter of its own names and changes nothing about the others. -/
theorem lastExporter?_append_singleton (files : List Path) (file : Path) (identifier : String) :
    lastExporter? host (files ++ [file]) identifier =
      if Exports host file identifier then some file else lastExporter? host files identifier := by
  rw [lastExporter?, List.reverse_append, List.reverse_singleton, List.singleton_append,
    List.find?_cons]
  by_cases exported : Exports host file identifier <;> simp [exported, lastExporter?]

/-- A file that cannot be read adds nothing. -/
theorem entitiesOf_of_unreadable {file : Path} (unreadable : host.fileText file = none) :
    entitiesOf host file = [] := by
  rw [entitiesOf, unreadable]
  rfl

theorem entitiesOf_of_readable {file : Path} {source : String}
    (readable : host.fileText file = some source) :
    entitiesOf host file = (ofSource file source).exports.entities := by
  rw [entitiesOf, readable]
  rfl

/-- The warnings about shared names: one for every entity of the file whose name an earlier file
exports, and the nearest of those is named. -/
theorem mem_collisions_iff {before : List Path} {file : Path} {warning : Diagnostic} :
    warning ∈ collisions host before file ↔
      ∃ source entity shadowed, host.fileText file = some source ∧
        entity ∈ entitiesOf host file ∧
        NearestExporter host before entity.identifier shadowed ∧
        warning = .duplicateIdentifier file source (entity.span.getD ⟨0, 0⟩) entity.identifier
          shadowed := by
  simp only [← lastExporter?_eq_some_iff]
  cases read : host.fileText file with
  | none => simp [collisions, read]
  | some source =>
      rw [collisions, entitiesOf_of_readable read, read]
      simp only [Option.map_some, Option.getD_some, collisionsWith, List.mem_filterMap,
        Option.map_eq_some_iff, Option.some.injEq]
      constructor
      · rintro ⟨entity, member, shadowed, found, rfl⟩
        exact ⟨source, entity, shadowed, rfl, member, found, rfl⟩
      · rintro ⟨_, entity, shadowed, rfl, member, found, rfl⟩
        exact ⟨entity, member, shadowed, found, rfl⟩

theorem code_of_mem_warningsOf {file : Path} {warning : Diagnostic}
    (member : warning ∈ warningsOf host file) :
    warning.code = Diagnostic.missingIdentifierCode := by
  rw [warningsOf] at member
  cases read : host.fileText file with
  | none => simp [read] at member
  | some source =>
      rw [read] at member
      exact code_of_mem_ofSource member

/-- A collision is warned about as a shared name. -/
theorem code_of_mem_collisions {before : List Path} {file : Path} {warning : Diagnostic}
    (member : warning ∈ collisions host before file) :
    warning.code = Diagnostic.duplicateIdentifierCode := by
  obtain ⟨source, entity, shadowed, -, -, -, rfl⟩ := mem_collisions_iff.mp member
  rfl

/-- Every file of a list with the files before it, when the list stands behind some files already. -/
def withEarlier (before : List Path) : List Path → List (List Path × Path)
  | [] => []
  | file :: rest => (before, file) :: withEarlier (before ++ [file]) rest

/-- A file of a list has before it what stands in front of it there. -/
theorem mem_withEarlier_iff {before earlier files : List Path} {file : Path} :
    (earlier, file) ∈ withEarlier before files ↔
      ∃ front behind, files = front ++ file :: behind ∧ earlier = before ++ front := by
  induction files generalizing before with
  | nil => simp [withEarlier]
  | cons first rest ih =>
      rw [withEarlier, List.mem_cons, ih]
      constructor
      · rintro (here | ⟨front, behind, rfl, rfl⟩)
        · obtain ⟨rfl, rfl⟩ := Prod.mk.inj here
          exact ⟨[], rest, rfl, (List.append_nil _).symm⟩
        · exact ⟨first :: front, behind, rfl, by simp⟩
      · rintro ⟨front, behind, shape, rfl⟩
        cases front with
        | nil =>
            obtain ⟨rfl, rfl⟩ := List.cons.inj shape
            exact .inl (by rw [List.append_nil])
        | cons _ front =>
            obtain ⟨rfl, rfl⟩ := List.cons.inj shape
            exact .inr ⟨front, behind, rfl, by simp⟩

/-- What is found about a path when the files of a listing are gone through: every time a file is listed,
the warnings of its extraction and then its collisions with the files listed before. -/
def findings (host : FileSystem) (before files : List Path) (path : Path) : List Diagnostic :=
  (withEarlier before files).flatMap fun (earlier, file) =>
    if file.same path then warningsOf host file ++ collisions host earlier file else []

/-- The first file of a listing is gone through first, and the others know it as an earlier one. -/
theorem findings_cons (before rest : List Path) (file path : Path) :
    findings host before (file :: rest) path =
      (if file.same path then warningsOf host file ++ collisions host before file else []) ++
        findings host (before ++ [file]) rest path := rfl

/-- The second part of a listing is gone through behind the first, and knows its files as earlier ones. -/
theorem findings_append (before first second : List Path) (path : Path) :
    findings host before (first ++ second) path =
      findings host before first path ++ findings host (before ++ first) second path := by
  induction first generalizing before with
  | nil => rw [List.append_nil]; rfl
  | cons file rest ih =>
      rw [List.cons_append, findings_cons, findings_cons, ih, List.append_assoc, List.append_assoc,
        List.singleton_append]

/-- A warning is found about a path when a listed file of that path gives it, by its extraction or by a
collision. -/
theorem mem_findings_iff {before files : List Path} {path : Path} {warning : Diagnostic} :
    warning ∈ findings host before files path ↔
      ∃ front file behind, files = front ++ file :: behind ∧ file.components = path.components ∧
        (warning ∈ warningsOf host file ∨ warning ∈ collisions host (before ++ front) file) := by
  rw [findings, List.mem_flatMap]
  constructor
  · rintro ⟨⟨earlier, file⟩, listed, member⟩
    obtain ⟨front, behind, shape, rfl⟩ := mem_withEarlier_iff.mp listed
    by_cases same : file.same path = true
    · simp only [same, if_true] at member
      exact ⟨front, file, behind, shape, Path.same_iff.mp same, List.mem_append.mp member⟩
    · simp only [same, Bool.false_eq_true, if_false] at member
      cases member
  · rintro ⟨front, file, behind, shape, same, member⟩
    refine ⟨(before ++ front, file), mem_withEarlier_iff.mpr ⟨front, behind, shape, rfl⟩, ?_⟩
    simp only [Path.same_iff.mpr same, if_true]
    exact List.mem_append.mpr member

/-- Nothing is found about a file that is not listed. -/
theorem findings_eq_nil_of_notMem {before files : List Path} {file : Path}
    (normal : file.normalize = file) (alsoNormal : ∀ other ∈ files, other.normalize = other)
    (absent : file ∉ files) : findings host before files file = [] := by
  rw [List.eq_nil_iff_forall_not_mem]
  intro warning member
  obtain ⟨front, other, behind, shape, same, -⟩ := mem_findings_iff.mp member
  have listed : other ∈ files := by simp [shape]
  exact absent (Path.eq_of_components_eq (alsoNormal other listed) normal same ▸ listed)

section

variable {files : List Path} (normal : ∀ file ∈ files, file.normalize = file) {file : Path}
include normal

/-- Each time a file is listed, the warnings of its extraction and then its collisions are found, behind what
the times before have found and in front of what the times after find. -/
theorem exists_findings_eq (host : FileSystem) {before after : List Path}
    (listed : files = before ++ file :: after) :
    ∃ earlier later, findings host [] files file =
        earlier ++ (warningsOf host file ++ collisions host before file) ++ later ∧
      (file ∉ before → earlier = []) ∧ (file ∉ after → later = []) := by
  subst listed
  have itself : file.same file = true := Path.same_iff.mpr rfl
  have inside : file.normalize = file := normal file (by simp)
  refine ⟨findings host [] before file, findings host (before ++ [file]) after file, ?_,
    findings_eq_nil_of_notMem inside fun other member => normal other (by simp [member]),
    findings_eq_nil_of_notMem inside fun other member => normal other (by simp [member])⟩
  rw [findings_append, findings_cons, if_pos itself, List.nil_append]
  exact (List.append_assoc _ _ _).symm

/-- The warnings of extraction are found first. -/
theorem warningsOf_prefix_findings (inside : file ∈ files) :
    warningsOf host file <+: findings host [] files file := by
  obtain ⟨before, after, listed, first⟩ := List.eq_append_cons_of_mem inside
  obtain ⟨earlier, later, whole, none, -⟩ := exists_findings_eq normal host listed
  rw [whole, none first, List.nil_append, List.append_assoc]
  exact List.prefix_append _ _

/-- Two listings of a file find the same warnings of extraction, and each its own collisions. -/
theorem mem_findings_listed_iff (inside : file ∈ files) {warning : Diagnostic} :
    warning ∈ findings host [] files file ↔ warning ∈ warningsOf host file ∨
      ∃ before after, files = before ++ file :: after ∧ warning ∈ collisions host before file := by
  rw [mem_findings_iff]
  constructor
  · rintro ⟨before, other, after, listed, same, found⟩
    obtain rfl := Path.eq_of_components_eq (normal other (by simp [listed])) (normal file inside) same
    exact found.imp_right fun shared => ⟨before, after, listed, shared⟩
  · rintro (extracted | ⟨before, after, listed, shared⟩)
    · obtain ⟨before, after, listed⟩ := List.append_of_mem inside
      exact ⟨before, file, after, listed, rfl, .inl extracted⟩
    · exact ⟨before, file, after, listed, rfl, .inr shared⟩

/-- The warnings about missing names that are found about a file are those of its extraction. -/
theorem mem_findings_missing_iff (inside : file ∈ files) {warning : Diagnostic} :
    warning ∈ findings host [] files file ∧ warning.code = Diagnostic.missingIdentifierCode ↔
      warning ∈ warningsOf host file := by
  rw [mem_findings_listed_iff normal inside]
  constructor
  · rintro ⟨extracted | ⟨before, after, -, shared⟩, code⟩
    · exact extracted
    · rw [code_of_mem_collisions shared] at code
      exact absurd code (by decide)
  · exact fun extracted => ⟨.inl extracted, code_of_mem_warningsOf extracted⟩

/-- The warnings about shared names that are found about a file are its collisions. -/
theorem mem_findings_duplicate_iff (inside : file ∈ files) {warning : Diagnostic} :
    warning ∈ findings host [] files file ∧ warning.code = Diagnostic.duplicateIdentifierCode ↔
      ∃ before after, files = before ++ file :: after ∧ warning ∈ collisions host before file := by
  rw [mem_findings_listed_iff normal inside]
  constructor
  · rintro ⟨extracted | shared, code⟩
    · rw [code_of_mem_warningsOf extracted] at code
      exact absurd code (by decide)
    · exact shared
  · exact fun ⟨before, after, listed, shared⟩ =>
      ⟨.inr ⟨before, after, listed, shared⟩, code_of_mem_collisions shared⟩

end

end Contribution

namespace BarrelTally

variable {host : FileSystem} {files before : List Path} {tally : BarrelTally}

/-- The tally remembers, for every name, the last of some files that exports it. -/
def Remembers (tally : BarrelTally) (host : FileSystem) (files : List Path) : Prop :=
  ∀ identifier, tally.origins.lookup identifier = Contribution.lastExporter? host files identifier

/-- A file that cannot be read exports no name, so the last exporters stay the same. -/
theorem Remembers.unreadable {file : Path} (remembers : tally.Remembers host files)
    (unreadable : host.fileText file = none) : tally.Remembers host (files ++ [file]) := by
  intro identifier
  have silent : ¬ Contribution.Exports host file identifier := by
    rintro ⟨entity, member, -⟩
    rw [Contribution.entitiesOf_of_unreadable unreadable] at member
    cases member
  rw [Contribution.lastExporter?_append_singleton, if_neg silent, remembers]

/-- A file that is gathered becomes the last exporter of its names, in the tally as in the listing. -/
theorem Remembers.add {file : Path} {source : String} (remembers : tally.Remembers host files)
    (readable : host.fileText file = some source) :
    (tally.add (.ofSource file source)).Remembers host (files ++ [file]) := by
  intro identifier
  rw [lookup_origins_add, Contribution.lastExporter?_append_singleton, remembers,
    ← Contribution.entitiesOf_of_readable readable]
  simp only [List.any_eq_true, decide_eq_true_eq]
  rfl

/-- Going through files finds what there is to find about them, behind what was found before. -/
theorem warningsAbout_foldl_add (remembers : tally.Remembers host before) (path : Path) :
    ((Contribution.ofFiles host files).foldl add tally).warningsAbout path =
      tally.warningsAbout path ++ Contribution.findings host before files path := by
  induction files generalizing tally before with
  | nil => exact (List.append_nil _).symm
  | cons file rest ih =>
      rw [Contribution.ofFiles, List.filterMap_cons, Contribution.findings_cons,
        Contribution.warningsOf, Contribution.collisions]
      cases read : host.fileText file with
      | none =>
          simp only [Option.map_none, Option.getD_none, List.append_nil, ite_self, List.nil_append]
          exact ih (remembers.unreadable read)
      | some source =>
          have known : (fun identifier => tally.origins.lookup identifier) =
              Contribution.lastExporter? host before := funext remembers
          simp only [Option.map_some, Option.getD_some, List.foldl_cons]
          rw [← List.append_assoc, ← known, ← warningsAbout_add]
          exact ih (remembers.add read)

/-- Going through files counts each of their entities once. -/
theorem collisionCount_foldl_add (inStep : tally.InStep) :
    let after := (Contribution.ofFiles host files).foldl add tally
    after.collisionCount + after.manifest.keys.length =
      tally.collisionCount + tally.manifest.keys.length +
        (files.flatMap (Contribution.entitiesOf host)).length := by
  induction files generalizing tally with
  | nil => rfl
  | cons file rest ih =>
      rw [Contribution.ofFiles, List.filterMap_cons, List.flatMap_cons, List.length_append]
      cases read : host.fileText file with
      | none =>
          rw [Contribution.entitiesOf_of_unreadable read, List.length_nil, Nat.zero_add]
          exact ih inStep
      | some source =>
          obtain ⟨kept, counted⟩ := collisionCount_add inStep file source
          rw [Contribution.entitiesOf_of_readable read, ← Nat.add_assoc, ← counted]
          exact ih kept

end BarrelTally

/-! ## Keys -/

/-- The keys that writing entities leaves are their names, in the order in which they first appear. -/
theorem Manifest.keys_writeAll_empty (entities : List Entity) :
    (empty.writeAll entities).keys = (entities.map (·.identifier)).eraseDups :=
  keys_foldl_eq_eraseDups (fun manifest entity => keys_insert manifest entity.identifier entity) rfl
    entities

namespace Barrel

/-- The warnings of a calculation are what is found when its files are gone through. -/
theorem warnings_calculate (host : FileSystem) (options : CompilerOptions) (folder path : Path) :
    ((calculate host options folder).diagnostics.get? path).getD [] =
      Contribution.findings host [] (Folder.files host options folder) path := by
  have blank : BarrelTally.empty.Remembers host [] := fun _ => rfl
  exact BarrelTally.warningsAbout_foldl_add blank path

/-- The collisions and the keys of a calculation are together as many as the entities of its files. -/
theorem collisions_calculate (host : FileSystem) (options : CompilerOptions) (folder : Path) :
    (calculate host options folder).diagnostics.values.flatten.countP
          (·.code = Diagnostic.duplicateIdentifierCode) +
        (calculate host options folder).barrel.manifest.keys.length =
      ((Folder.files host options folder).flatMap (Contribution.entitiesOf host)).length := by
  have blank : BarrelTally.empty.InStep := fun identifier => by
    simp [BarrelTally.empty, Manifest.keys, Manifest.empty]
  refine (BarrelTally.collisionCount_foldl_add blank).trans ?_
  simp [BarrelTally.empty, BarrelTally.collisionCount, PathMap.values, PathMap.empty, Manifest.keys,
    Manifest.empty]

/-- Whatever happened to a disk in memory, it lists no file of a folder twice. -/
theorem nodup_files_ofHistory (edits : List Disk.Edit) (options : CompilerOptions) (folder : Path) :
    (Folder.files (Disk.ofHistory edits).fileSystem options folder).Nodup := by
  let listed := (Disk.ofHistory edits).readFolder folder.normalize
  have distinct : listed.Nodup := (Disk.pairwise_readFolder _ _).imp fun below same =>
    Path.components_ne_of_order_lt below (congrArg Path.components same)
  have normal : listed.map Path.normalize = listed :=
    (List.map_congr_left fun _ member => (Disk.mem_readFolder_iff.mp member).1).trans (List.map_id _)
  have kept : (listed.map Path.normalize).Nodup := normal.symm ▸ distinct
  exact (List.mergeSort_perm _ _).nodup_iff.mpr (kept.filter _)

/-- So the warnings of a file are there those of its extraction and, behind them, its collisions. -/
theorem warnings_calculate_ofHistory (edits : List Disk.Edit) (options : CompilerOptions)
    {folder file : Path} :
    let host := (Disk.ofHistory edits).fileSystem
    file ∈ Folder.files host options folder →
      ∃ before after, Folder.files host options folder = before ++ file :: after ∧
        ((calculate host options folder).diagnostics.get? file).getD [] =
          Contribution.warningsOf host file ++ Contribution.collisions host before file := by
  intro host inside
  obtain ⟨before, after, listed⟩ := List.append_of_mem inside
  have once := nodup_files_ofHistory edits options folder
  rw [listed] at once
  have notBefore : file ∉ before := fun again =>
    List.disjoint_of_nodup_append once again List.mem_cons_self
  have notAfter : file ∉ after := (List.nodup_cons.mp (List.nodup_append.mp once).2.1).1
  obtain ⟨earlier, later, whole, none, noneLater⟩ :=
    Contribution.exists_findings_eq (fun _ => Folder.normalize_of_mem_files) host listed
  refine ⟨before, after, listed, ?_⟩
  rw [warnings_calculate, whole, none notBefore, noneLater notAfter, List.nil_append, List.append_nil]

end Barrel

end BarrelSynthesis
