/-
# The lifecycle of a barrel

A registry is changed by three calls: a barrel is registered, put in with a calculation, or erased. Every
call goes by the normalized path, so spellings of one path mean one barrel, and calls about another barrel
do not matter. Of the calls about a barrel, registrations change nothing once the barrel is known; so the
calculation that was put in last, and not erased since, is what the registry knows.

Whether a barrel is stale is judged from that calculation alone: first by the paths of the present files
against those of the included ones, both taken as sets, then by the versions in the order of the paths.
-/
import BarrelSynthesis.Proofs.Session.Eviction

namespace BarrelSynthesis

/-! ## What is recorded of a calculation -/

/-- Two lists of files have the same paths. -/
def SamePaths (first second : List Path) : Prop :=
  ∀ components, components ∈ first.map Path.components ↔ components ∈ second.map Path.components

/-- A file stands in a list, and no spelling of its path stands behind it. -/
def LastSpelled (files : List Path) (file : Path) : Prop :=
  ∃ front behind, files = front ++ file :: behind ∧
    ∀ later ∈ behind, later.components ≠ file.components

/-- A file that a calculation included has another version than was recorded. -/
def HasChanged (included : List Path) (recorded version : Path → String) (file : Path) : Prop :=
  LastSpelled included file ∧ version file ≠ recorded file

/-- A record holds every included file once, in the spelling that comes last, with its version. -/
theorem PathMap.mem_ofList_map_iff_lastSpelled {included : List Path} {recorded : Path → String}
    {file : Path} {version : String} :
    (file, version) ∈ (ofList (included.map fun file => (file, recorded file))).entries ↔
      LastSpelled included file ∧ recorded file = version := by
  rw [mem_ofList_iff]
  constructor
  · rintro ⟨_, _, shape, last⟩
    obtain ⟨front, rest, rfl, rfl, spelled⟩ := List.map_eq_append_iff.mp shape
    obtain ⟨source, behind, rfl, same, rfl⟩ := List.map_eq_cons_iff.mp spelled
    obtain ⟨rfl, rfl⟩ := Prod.mk.inj same
    refine ⟨⟨front, behind, rfl, fun later listed => ?_⟩, rfl⟩
    exact last (later, recorded later) (List.mem_map_of_mem listed)
  · rintro ⟨⟨front, behind, rfl, last⟩, rfl⟩
    refine ⟨_, _, List.map_append, fun later listed => ?_⟩
    obtain ⟨source, member, rfl⟩ := List.mem_map.mp listed
    exact last source member

/-- One of the spellings of a path comes last. -/
theorem LastSpelled.eq_of_components_eq {files : List Path} {first second : Path}
    (left : LastSpelled files first) (right : LastSpelled files second)
    (same : first.components = second.components) : first = second := by
  have gathered {file : Path} (last : LastSpelled files file) :
      (file, "") ∈ (PathMap.ofList (files.map fun file => (file, ""))).entries :=
    PathMap.mem_ofList_map_iff_lastSpelled.mpr ⟨last, rfl⟩
  exact congrArg Prod.fst (PathMap.entry_unique (gathered left) (gathered right) same)

/-- The paths that are recorded of a calculation are those of its included files. -/
theorem PathMap.mem_map_components_keys_iff {included : List Path} {recorded : Path → String}
    {components : List Component} :
    components ∈ ((ofList (included.map fun file => (file, recorded file))).keys).map
        Path.components ↔ components ∈ included.map Path.components := by
  simp only [List.mem_map]
  constructor
  · rintro ⟨key, listed, spelled⟩
    obtain ⟨_, member⟩ := mem_keys_iff.mp listed
    obtain ⟨⟨front, behind, rfl, -⟩, -⟩ := mem_ofList_map_iff_lastSpelled.mp member
    exact ⟨key, List.mem_append_right _ List.mem_cons_self, spelled⟩
  · rintro ⟨file, listed, rfl⟩
    have written := List.mem_map_of_mem (f := fun file => (file, recorded file)) listed
    exact contains_iff.mp (contains_ofList.mpr ⟨_, written, rfl⟩)

namespace Registry

variable {registry : Registry} {path : Path}

/-- A barrel with a record is judged by the recorded paths, and by the first version that differs. -/
theorem staleness_of_hydrated {record : PathMap String} {manifest : Manifest} {text : String}
    (known : registry.get? path = some (.hydrated record manifest text)) (files : List Path)
    (version : Path → String) :
    registry.staleness path files version =
      if (listingOf files).map Path.components = record.keys.map Path.components then
        (record.entries.find? fun entry => version entry.1 ≠ entry.2).elim .fresh fun entry =>
          .versionChanged entry.1
      else .fileListChanged := by
  rw [staleness, known]
  dsimp only
  cases record.entries.find? fun entry => version entry.1 ≠ entry.2 <;> rfl

/-- A barrel of which a calculation is known is judged by its files and their versions. -/
theorem staleness_of_calculated {recorded : Path → String} {calculation : BarrelCalculation}
    (known : registry.get? path = some (.ofCalculation recorded calculation)) (files : List Path)
    (version : Path → String) :
    (¬ SamePaths files calculation.includedFiles ∧
        registry.staleness path files version = .fileListChanged) ∨
      SamePaths files calculation.includedFiles ∧
        ((∃ file, HasChanged calculation.includedFiles recorded version file ∧
            (∀ other, HasChanged calculation.includedFiles recorded version other →
              (Path.order file other).isLE) ∧
            registry.staleness path files version = .versionChanged file) ∨
          (∀ file, ¬ HasChanged calculation.includedFiles recorded version file) ∧
            registry.staleness path files version = .fresh) := by
  let record := PathMap.ofList (calculation.includedFiles.map fun file => (file, recorded file))
  let differs : Path × String → Bool := fun entry => version entry.1 ≠ entry.2
  have listing : (listingOf files).map Path.components = record.keys.map Path.components ↔
      SamePaths files calculation.includedFiles := by
    rw [map_components_listingOf_eq_iff record.ascending_keys]
    refine forall_congr' fun components => ?_
    rw [PathMap.mem_map_components_keys_iff]
    exact Iff.comm
  have changed (file : Path) : HasChanged calculation.includedFiles recorded version file ↔
      ∃ old, (file, old) ∈ record.entries ∧ differs (file, old) = true := by
    simp only [record, PathMap.mem_ofList_map_iff_lastSpelled, differs, decide_eq_true_eq, and_assoc,
      exists_and_left, exists_eq_left', HasChanged]
  rw [staleness_of_hydrated known]
  by_cases same : SamePaths files calculation.includedFiles
  · rw [if_pos (listing.mpr same)]
    refine .inr ⟨same, ?_⟩
    cases found : record.entries.find? differs with
    | none =>
        refine .inr ⟨fun file hasChanged => ?_, rfl⟩
        obtain ⟨old, member, unlike⟩ := (changed file).mp hasChanged
        exact List.find?_eq_none.mp found _ member unlike
    | some entry =>
        obtain ⟨member, unlike, least⟩ := PathMap.find?_entries_eq_some_iff.mp found
        refine .inl ⟨entry.1, (changed _).mpr ⟨entry.2, member, unlike⟩, fun other hasChanged => ?_, rfl⟩
        obtain ⟨old, listed, unlike⟩ := (changed other).mp hasChanged
        exact least (other, old) listed unlike
  · rw [if_neg fun agrees => same (listing.mp agrees)]
    exact .inl ⟨same, rfl⟩

/-- What the verdicts about a barrel mean when a calculation of it is known. -/
theorem staleness_iff_of_calculated {recorded version : Path → String}
    {calculation : BarrelCalculation}
    (known : registry.get? path = some (.ofCalculation recorded calculation)) (files : List Path) :
    let verdict := registry.staleness path files version
    let included := calculation.includedFiles
    verdict ≠ .notHydrated ∧
      (verdict = .fileListChanged ↔ ¬ SamePaths files included) ∧
      (∀ file, verdict = .versionChanged file ↔ SamePaths files included ∧
        HasChanged included recorded version file ∧
        ∀ other, HasChanged included recorded version other → (Path.order file other).isLE) ∧
      (verdict = .fresh ↔
        SamePaths files included ∧ ∀ file, ¬ HasChanged included recorded version file) := by
  intro verdict included
  rcases staleness_of_calculated known files version with
    ⟨differ, judged⟩ | ⟨same, ⟨first, changed, least, judged⟩ | ⟨unchanged, judged⟩⟩
  · have listChanged : verdict = .fileListChanged := judged
    simp [listChanged, included, differ]
  · have versionChanged : verdict = .versionChanged first := judged
    simp only [versionChanged, included, same, ne_eq, reduceCtorEq, not_false_iff, not_true, true_and,
      Staleness.versionChanged.injEq, false_iff]
    refine ⟨fun file => ⟨?_, ?_⟩, fun none => none first changed⟩
    · rintro rfl
      exact ⟨changed, least⟩
    · rintro ⟨hasChanged, lower⟩
      have compared := Std.OrientedCmp.isLE_antisymm (least file hasChanged) (lower first changed)
      exact changed.1.eq_of_components_eq hasChanged.1 (Path.order_eq_iff.mp compared)
  · have fresh : verdict = .fresh := judged
    simp only [fresh, included, same, ne_eq, reduceCtorEq, not_false_iff, not_true, true_and, false_iff,
      true_iff]
    exact ⟨fun file changed => unchanged file changed.1, unchanged⟩

/-! ## Calls -/

/-- A call that changes a registry. -/
inductive Call
  | register (path : Path)
  | upsert (path : Path) (version : Path → String) (calculation : BarrelCalculation)
  | erase (path : Path)

namespace Call

/-- The path of the barrel that is meant, as it is spelled. -/
def barrel : Call → Path
  | register path => path
  | upsert path _ _ => path
  | erase path => path

/-- Whether the call only registers its barrel. -/
def IsRegistration (call : Call) : Prop :=
  ∃ path, call = register path

/-- Whether the call takes its barrel away. -/
def IsErasure (call : Call) : Prop :=
  ∃ path, call = erase path

/-- What is known of a barrel after a call about it. -/
def entryAfter (call : Call) (before : Option BarrelEntry) : Option BarrelEntry :=
  match call with
  | register _ => before.or (some .registered)
  | upsert _ version calculation => some (.ofCalculation version calculation)
  | erase _ => none

end Call

/-- Carries out a call. -/
def apply (registry : Registry) : Call → Registry
  | .register path => registry.register path
  | .upsert path version calculation => registry.upsert path version calculation
  | .erase path => registry.erase path

/-- The registry after a history of calls. -/
def ofCalls (calls : List Call) : Registry :=
  calls.foldl apply empty

/-- A calculation was put in for a barrel, and of the later calls about the barrel none is more than a
registration. -/
def IsInEffect (calls : List Call) (path : Path) (recorded : Path → String)
    (calculation : BarrelCalculation) : Prop :=
  ∃ before spelled after, calls = before ++ .upsert spelled recorded calculation :: after ∧
    spelled.normalize = path.normalize ∧
    ∀ call ∈ after, call.barrel.normalize = path.normalize → call.IsRegistration

/-- A barrel was registered or put in, and of the later calls about it none is an erasure. -/
def IsPresent (calls : List Call) (path : Path) : Prop :=
  ∃ before call after, calls = before ++ call :: after ∧
    call.barrel.normalize = path.normalize ∧ ¬ call.IsErasure ∧
    ∀ later ∈ after, later.barrel.normalize = path.normalize → ¬ later.IsErasure

/-- A call changes what is known of its own barrel, and of no other. -/
theorem get?_apply (registry : Registry) (call : Call) (path : Path) :
    (registry.apply call).get? path =
      if call.barrel.normalize = path.normalize then call.entryAfter (registry.get? path)
      else registry.get? path := by
  cases call with
  | register barrel =>
      rw [apply, get?_register]
      show _ = if barrel.normalize = path.normalize then (registry.get? path).or (some .registered)
        else registry.get? path
      split
      · rfl
      · exact Option.or_none
  | upsert barrel version calculation => exact get?_upsert ..
  | erase barrel => exact get?_erase ..

theorem ofCalls_append_singleton (calls : List Call) (call : Call) :
    ofCalls (calls ++ [call]) = (ofCalls calls).apply call := by
  rw [ofCalls, List.foldl_append]
  rfl

/-- The registry of some folders is that of a history of registrations. -/
theorem ofFolders_eq_ofCalls (folders : List Path) :
    ofFolders folders = ofCalls (folders.map fun folder => .register (Folder.barrelPath folder)) := by
  rw [ofCalls, List.foldl_map]
  rfl

/-- What is known of a barrel after some calls depends on what was known of it before. -/
theorem get?_foldl_apply_congr {first second : Registry} (same : first.get? path = second.get? path)
    (calls : List Call) :
    (calls.foldl apply first).get? path = (calls.foldl apply second).get? path := by
  induction calls generalizing first second with
  | nil => exact same
  | cons call rest ih =>
      apply ih
      rw [get?_apply, get?_apply, same]

/-- A call that leaves a barrel as it was could have been left out. -/
theorem get?_ofCalls_without {before : List Call} {call : Call}
    (unchanged : ((ofCalls before).apply call).get? path = (ofCalls before).get? path)
    (after : List Call) :
    (ofCalls (before ++ call :: after)).get? path = (ofCalls (before ++ after)).get? path := by
  rw [ofCalls, ofCalls, List.foldl_append, List.foldl_append]
  exact get?_foldl_apply_congr unchanged after

/-! ## Histories -/

theorem IsInEffect.append {calls : List Call} {recorded : Path → String}
    {calculation : BarrelCalculation} (inEffect : IsInEffect calls path recorded calculation)
    {call : Call} (harmless : call.barrel.normalize = path.normalize → call.IsRegistration) :
    IsInEffect (calls ++ [call]) path recorded calculation := by
  obtain ⟨before, spelled, after, rfl, same, kept⟩ := inEffect
  refine ⟨before, spelled, after ++ [call], by simp, same, fun later member => ?_⟩
  rcases List.mem_append.mp member with member | last
  · exact kept later member
  · exact List.mem_singleton.mp last ▸ harmless

/-- A calculation in effect is what is known of the barrel. -/
theorem IsInEffect.get?_eq {calls : List Call} {recorded : Path → String}
    {calculation : BarrelCalculation} (inEffect : IsInEffect calls path recorded calculation) :
    (ofCalls calls).get? path = some (.ofCalculation recorded calculation) := by
  obtain ⟨before, spelled, after, rfl, same, kept⟩ := inEffect
  have lasting {registry : Registry}
      (known : registry.get? path = some (.ofCalculation recorded calculation)) :
      (after.foldl apply registry).get? path = some (.ofCalculation recorded calculation) := by
    induction after generalizing registry with
    | nil => exact known
    | cons call rest ih =>
        apply ih fun later member => kept later (List.mem_cons_of_mem _ member)
        rw [get?_apply]
        split
        · next about =>
            obtain ⟨barrel, rfl⟩ := kept call List.mem_cons_self about
            rw [known]
            rfl
        · exact known
  rw [ofCalls, List.foldl_append, List.foldl_cons]
  apply lasting
  rw [get?_apply, if_pos (show (Call.upsert spelled recorded calculation).barrel.normalize = _ from same)]
  rfl

/-- Where no calculation is in effect, the barrel is registered at most. -/
theorem exists_isInEffect_of_hydrated {calls : List Call} {entry : BarrelEntry}
    (known : (ofCalls calls).get? path = some entry) (hydrated : entry.isHydrated = true) :
    ∃ recorded calculation, IsInEffect calls path recorded calculation := by
  induction calls using List.reverseRecOn with
  | nil => cases known
  | append_singleton calls call ih =>
      rw [ofCalls_append_singleton, get?_apply] at known
      split at known
      · next about =>
          cases call with
          | register barrel =>
              cases before : (ofCalls calls).get? path with
              | none =>
                  rw [before] at known
                  obtain rfl := Option.some.inj known
                  cases hydrated
              | some old =>
                  rw [before] at known
                  obtain rfl := Option.some.inj known
                  obtain ⟨recorded, calculation, inEffect⟩ := ih before
                  exact ⟨recorded, calculation, inEffect.append fun _ => ⟨barrel, rfl⟩⟩
          | upsert barrel recorded calculation =>
              exact ⟨recorded, calculation, calls, barrel, [], rfl, about, by simp⟩
          | erase barrel => cases known
      · next elsewhere =>
          obtain ⟨recorded, calculation, inEffect⟩ := ih known
          exact ⟨recorded, calculation, inEffect.append fun about => absurd about elsewhere⟩

theorem isPresent_append_singleton_iff {calls : List Call} {call : Call} :
    IsPresent (calls ++ [call]) path ↔
      if call.barrel.normalize = path.normalize then ¬ call.IsErasure else IsPresent calls path := by
  constructor
  · rintro ⟨before, bringing, after, shape, about, brings, lasting⟩
    rcases List.eq_nil_or_concat after with rfl | ⟨front, last, rfl⟩
    · obtain ⟨-, same⟩ := List.append_inj' shape rfl
      obtain rfl := List.singleton_inj.mp same
      rwa [if_pos about]
    · rw [List.concat_eq_append, ← List.cons_append, ← List.append_assoc] at shape
      obtain ⟨rfl, same⟩ := List.append_inj' shape rfl
      obtain rfl := List.singleton_inj.mp same
      split
      · next here => exact lasting call (by simp) here
      · refine ⟨before, bringing, front, rfl, about, brings, fun later member => ?_⟩
        exact lasting later (by simp [member])
  · split
    · next about => exact fun brings => ⟨calls, call, [], rfl, about, brings, by simp⟩
    · next elsewhere =>
        rintro ⟨before, bringing, after, rfl, about, brings, lasting⟩
        refine ⟨before, bringing, after ++ [call], by simp, about, brings, fun later member => ?_⟩
        rcases List.mem_append.mp member with member | last
        · exact lasting later member
        · exact fun here => absurd (List.mem_singleton.mp last ▸ here) elsewhere

/-- A barrel is known exactly when it is present. -/
theorem isSome_get?_ofCalls_iff {calls : List Call} :
    ((ofCalls calls).get? path).isSome = true ↔ IsPresent calls path := by
  induction calls using List.reverseRecOn with
  | nil => simp [IsPresent, ofCalls, empty, get?, PathMap.get?, PathMap.empty]
  | append_singleton calls call ih =>
      rw [ofCalls_append_singleton, get?_apply, isPresent_append_singleton_iff]
      split
      · cases call <;> simp [Call.entryAfter, Call.IsErasure]
      · exact ih

/-- A barrel that is only registered is served as an empty module that exports nothing. -/
theorem serves_empty_of_not_hydrated {entry : BarrelEntry} (known : registry.get? path = some entry)
    (registered : entry.isHydrated = false) :
    registry.text? path = some Synthesis.emptyModule ∧ registry.manifest? path = some .empty := by
  cases entry with
  | registered => exact ⟨by rw [text?, known]; rfl, by rw [manifest?, known]; rfl⟩
  | hydrated files manifest text => cases registered

/-- What the registry says of a barrel after any calls. It is present from the call that brings it to its
erasure. While no calculation is in effect it is not hydrated, and as long as it is present its text is the
empty module. A calculation in effect is compared with the present files: their set of paths first, then
the versions of the included files, of which the least that has changed is told. Calls about other barrels,
and registrations of a barrel that is there, could have been left out anywhere in the history. -/
theorem staleness_follows_calls (calls : List Call) (path : Path) (files : List Path)
    (version : Path → String) :
    let registry := ofCalls calls
    let verdict := registry.staleness path files version
    (registry.isVirtual path = true ↔ IsPresent calls path) ∧
      (verdict = .notHydrated ↔ ¬ ∃ recorded calculation, IsInEffect calls path recorded calculation) ∧
      (∀ recorded calculation, IsInEffect calls path recorded calculation →
        (verdict = .fileListChanged ↔ ¬ SamePaths files calculation.includedFiles) ∧
        (∀ file, verdict = .versionChanged file ↔
          SamePaths files calculation.includedFiles ∧
            HasChanged calculation.includedFiles recorded version file ∧
            ∀ other, HasChanged calculation.includedFiles recorded version other →
              (Path.order file other).isLE) ∧
        (verdict = .fresh ↔ SamePaths files calculation.includedFiles ∧
          ∀ file, ¬ HasChanged calculation.includedFiles recorded version file)) ∧
      (registry.isVirtual path = true →
        (¬ ∃ recorded calculation, IsInEffect calls path recorded calculation) →
        registry.text? path = some Synthesis.emptyModule ∧ registry.manifest? path = some .empty) ∧
      ∀ before call after, calls = before ++ call :: after →
        (call.barrel.normalize ≠ path.normalize ∨
          call.IsRegistration ∧ (ofCalls before).isVirtual call.barrel = true) →
        registry.get? path = (ofCalls (before ++ after)).get? path := by
  intro registry verdict
  have virtual : registry.isVirtual path = (registry.get? path).isSome := isVirtual_eq _ _
  have unhydrated (none : ¬ ∃ recorded calculation, IsInEffect calls path recorded calculation)
      (entry : BarrelEntry) (known : registry.get? path = some entry) : entry.isHydrated = false :=
    Bool.eq_false_iff.mpr fun hydrated => none (exists_isInEffect_of_hydrated known hydrated)
  refine ⟨by rw [virtual]; exact isSome_get?_ofCalls_iff, ?_, ?_, ?_, ?_⟩
  · constructor
    · rintro notHydrated ⟨recorded, calculation, inEffect⟩
      exact (staleness_iff_of_calculated inEffect.get?_eq files).1 notHydrated
    · intro none
      show registry.staleness path files version = .notHydrated
      rw [staleness]
      cases known : registry.get? path with
      | none => rfl
      | some entry =>
          cases entry with
          | registered => rfl
          | hydrated record manifest text => cases unhydrated none _ known
  · intro recorded calculation inEffect
    exact (staleness_iff_of_calculated inEffect.get?_eq files).2
  · intro present none
    rw [virtual, Option.isSome_iff_exists] at present
    obtain ⟨entry, known⟩ := present
    exact serves_empty_of_not_hydrated known (unhydrated none entry known)
  · rintro before call after rfl harmless
    apply get?_ofCalls_without
    rcases harmless with elsewhere | ⟨⟨barrel, rfl⟩, known⟩
    · rw [get?_apply, if_neg elsewhere]
    · have same : (ofCalls before).apply (.register barrel) = ofCalls before := if_pos known
      rw [same]

/-- A barrel that is registered again, under another spelling, while another is erased. Both of its files
have changed, and the first of them is told as it was spelled last. -/
theorem changed_file_of_calculated_barrel_is_told :
    let barrel : Path := ⟨"/p/index.ts"⟩
    let calculation : BarrelCalculation :=
      ⟨default, [⟨"/p/b.ts"⟩, ⟨"/p/a.ts"⟩, ⟨"/p//a.ts"⟩], .empty⟩
    let calls : List Call := [.register ⟨"/p/./index.ts"⟩, .upsert barrel (fun _ => "1") calculation,
      .register ⟨"/p/c/../index.ts"⟩, .erase ⟨"/q/index.ts"⟩]
    let files : List Path := [⟨"/p/./a.ts"⟩, ⟨"/p/b.ts"⟩, ⟨"/p/a.ts"⟩]
    IsInEffect calls barrel (fun _ => "1") calculation ∧
      (ofCalls calls).staleness barrel files (fun _ => "2") = .versionChanged ⟨"/p//a.ts"⟩ ∧
      SamePaths files calculation.includedFiles ∧
      HasChanged calculation.includedFiles (fun _ => "1") (fun _ => "2") ⟨"/p//a.ts"⟩ ∧
      (ofCalls calls).get? barrel = (ofCalls (calls.take 2)).get? barrel := by
  intro barrel calculation calls files
  have inEffect : IsInEffect calls barrel (fun _ => "1") calculation := by
    refine ⟨[.register ⟨"/p/./index.ts"⟩], barrel,
      [.register ⟨"/p/c/../index.ts"⟩, .erase ⟨"/q/index.ts"⟩], rfl, rfl, fun call later about => ?_⟩
    rcases List.mem_cons.mp later with rfl | later
    · exact ⟨_, rfl⟩
    · obtain rfl := List.mem_singleton.mp later
      exact absurd about (by decide +kernel)
  have same : SamePaths files calculation.includedFiles := by
    intro components
    have present : files.map Path.components =
      [[.root, .name "p", .name "a.ts"], [.root, .name "p", .name "b.ts"],
        [.root, .name "p", .name "a.ts"]] := by decide +kernel
    have included : calculation.includedFiles.map Path.components =
      [[.root, .name "p", .name "b.ts"], [.root, .name "p", .name "a.ts"],
        [.root, .name "p", .name "a.ts"]] := by decide +kernel
    simp only [present, included, List.mem_cons, List.not_mem_nil, or_false, or_self]
    exact or_left_comm.trans (by rw [or_self])
  have changed : HasChanged calculation.includedFiles (fun _ => "1") (fun _ => "2") ⟨"/p//a.ts"⟩ :=
    ⟨⟨[⟨"/p/b.ts"⟩, ⟨"/p/a.ts"⟩], [], rfl, by simp⟩, by decide⟩
  have least : ∀ other ∈ calculation.includedFiles, (Path.order ⟨"/p//a.ts"⟩ other).isLE := by
    decide +kernel
  have meaning := (staleness_follows_calls calls barrel files fun _ => "2").2.2.1 _ _ inEffect
  have verdict := (meaning.2.1 ⟨"/p//a.ts"⟩).mpr ⟨same, changed, fun other hasChanged => by
    obtain ⟨⟨front, behind, listed, -⟩, -⟩ := hasChanged
    apply least other
    rw [listed]
    exact List.mem_append_right _ List.mem_cons_self⟩
  have erased := (staleness_follows_calls calls barrel files fun _ => "2").2.2.2.2
    (calls.take 3) (.erase ⟨"/q/index.ts"⟩) [] rfl (.inl (by decide +kernel))
  have registered := (staleness_follows_calls (calls.take 3) barrel files fun _ => "2").2.2.2.2
    (calls.take 2) (.register ⟨"/p/c/../index.ts"⟩) [] rfl
    (.inr ⟨⟨_, rfl⟩, by decide +kernel⟩)
  rw [List.append_nil] at erased registered
  exact ⟨inEffect, verdict, same, changed, erased.trans registered⟩

end Registry

end BarrelSynthesis
