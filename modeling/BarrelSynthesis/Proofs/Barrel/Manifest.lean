/-
# Laws of manifests

A manifest is a finite map with an order on its keys. It is determined by its keys and by what stands
under each of them; writing an entity changes one value and adds a key behind the others at most. A
list of entities is written in order, each under its own identifier, so the last one of a name wins and
the first one of a name gives the place.
-/
import BarrelSynthesis.Barrel.Manifest
import Mathlib.Data.List.Basic
import Mathlib.Data.List.Induction

namespace BarrelSynthesis

/-- Where adding something puts its key behind the keys that are there, unless it is one of them, whatever
is built up lists its keys in the order in which they first appear. -/
theorem keys_foldl_eq_eraseDups {α β : Type} {keys : β → List String} {keyOf : α → String}
    {add : β → α → β} (adds : ∀ built item, keys (add built item) =
      if keyOf item ∈ keys built then keys built else keys built ++ [keyOf item])
    {start : β} (blank : keys start = []) (items : List α) :
    keys (items.foldl add start) = (items.map keyOf).eraseDups := by
  induction items using List.reverseRecOn with
  | nil => exact blank
  | append_singleton front last ih =>
      rw [List.foldl_append, List.foldl_cons, List.foldl_nil, adds, ih, List.map_append,
        List.eraseDups_append, List.map_singleton, List.removeAll]
      simp only [List.mem_eraseDups]
      by_cases known : keyOf last ∈ front.map keyOf
      · rw [if_pos known, List.filter_cons_of_neg (by simpa using known)]
        exact (List.append_nil _).symm
      · rw [if_neg known, List.filter_cons_of_pos (by simpa using known)]
        rfl

namespace Manifest

private theorem lookup_cons_ite (key other : String) (value : Entity)
    (rest : List (String × Entity)) :
    ((other, value) :: rest).lookup key = if key = other then some value else rest.lookup key := by
  rw [List.lookup_cons]
  by_cases same : key = other
  · simp [same]
  · rw [beq_eq_false_iff_ne.mpr same, if_neg same]

/-- What stands under a key is the value of the one entry with that key. -/
theorem get?_eq_some_iff {manifest : Manifest} {key : String} {entity : Entity} :
    manifest.get? key = some entity ↔ (key, entity) ∈ manifest.entries := by
  obtain ⟨entries, distinct⟩ := manifest
  simp only [get?]
  induction entries with
  | nil => simp
  | cons head rest ih =>
      obtain ⟨other, old⟩ := head
      obtain ⟨first, others⟩ := List.pairwise_cons.mp distinct
      rw [lookup_cons_ite]
      by_cases same : key = other
      · subst same
        have absent : (key, entity) ∉ rest := fun member => first _ member rfl
        simp [absent, eq_comm]
      · simp [same, ih others]

/-- A manifest is the list of its keys with what stands under them. -/
theorem entries_eq_keys_filterMap (manifest : Manifest) :
    manifest.entries =
      manifest.keys.filterMap fun key => (manifest.get? key).map fun entity => (key, entity) := by
  rw [keys, List.filterMap_map]
  have found : ∀ entry ∈ manifest.entries,
      ((fun key => (manifest.get? key).map fun entity => (key, entity)) ∘ Prod.fst) entry =
        some entry := by
    rintro ⟨key, entity⟩ member
    simp [get?_eq_some_iff.mpr member]
  rw [List.filterMap_congr found, List.filterMap_some]

/-- Two manifests with the same keys in the same order, and the same values under them, are equal. -/
theorem ext_keys {first second : Manifest} (keys : first.keys = second.keys)
    (values : ∀ key, first.get? key = second.get? key) : first = second := by
  have entries : first.entries = second.entries := by
    rw [entries_eq_keys_filterMap first, entries_eq_keys_filterMap second, keys, funext values]
  cases first
  cases second
  simp_all

@[simp]
theorem get?_empty (key : String) : (empty : Manifest).get? key = none := rfl

/-- Writing changes what stands under its own key, and nothing else. -/
theorem get?_insert (manifest : Manifest) (key other : String) (entity : Entity) :
    (manifest.insert key entity).get? other =
      if other = key then some entity else manifest.get? other := by
  obtain ⟨entries, distinct⟩ := manifest
  simp only [get?, insert]
  clear distinct
  induction entries with
  | nil => rw [insertEntry, lookup_cons_ite]
  | cons head rest ih =>
      obtain ⟨present, old⟩ := head
      simp only [insertEntry]
      by_cases here : present = key
      · subst here
        rw [if_pos rfl, lookup_cons_ite, lookup_cons_ite]
        by_cases same : other = present
        · simp [same]
        · simp [same]
      · rw [if_neg here, lookup_cons_ite, lookup_cons_ite, ih]
        by_cases same : other = key
        · subst same
          simp [Ne.symm here]
        · simp [same]

/-- Writing adds its key behind the others, unless the key is there. -/
theorem keys_insert (manifest : Manifest) (key : String) (entity : Entity) :
    (manifest.insert key entity).keys =
      if key ∈ manifest.keys then manifest.keys else manifest.keys ++ [key] := by
  obtain ⟨entries, distinct⟩ := manifest
  show (insertEntry key entity entries).map (·.1) =
    if key ∈ entries.map (·.1) then entries.map (·.1) else entries.map (·.1) ++ [key]
  clear distinct
  induction entries with
  | nil => simp [insertEntry]
  | cons head rest ih =>
      obtain ⟨present, old⟩ := head
      simp only [insertEntry]
      by_cases here : present = key
      · simp [here]
      · rw [if_neg here, List.map_cons, ih]
        by_cases member : key ∈ rest.map (·.1) <;> simp [member, Ne.symm here]

/-! ## Writing lists of entities -/

/-- Writes entities under their identifiers, one after the other. -/
def writeAll (manifest : Manifest) (entities : List Entity) : Manifest :=
  entities.foldl (fun manifest entity => manifest.insert entity.identifier entity) manifest

@[simp]
theorem writeAll_nil (manifest : Manifest) : manifest.writeAll [] = manifest := rfl

/-- Writing several entities writes the first and then the others. -/
theorem writeAll_cons (manifest : Manifest) (entity : Entity) (entities : List Entity) :
    manifest.writeAll (entity :: entities) =
      (manifest.insert entity.identifier entity).writeAll entities := rfl

/-- Writing two lists one after the other is writing both at once. -/
theorem writeAll_append (manifest : Manifest) (first second : List Entity) :
    manifest.writeAll (first ++ second) = (manifest.writeAll first).writeAll second := by
  simp only [writeAll, List.foldl_append]

/-- The last entity of a name is what stands under it. -/
theorem get?_writeAll (manifest : Manifest) (entities : List Entity) (key : String) :
    (manifest.writeAll entities).get? key =
      (entities.reverse.find? fun entity => entity.identifier = key).or (manifest.get? key) := by
  induction entities generalizing manifest with
  | nil => simp
  | cons entity rest ih =>
      rw [writeAll_cons, ih, get?_insert, List.reverse_cons, List.find?_append, Option.or_assoc]
      congr 1
      by_cases same : entity.identifier = key
      · simp [same]
      · simp [same, Ne.symm same]

/-- The keys after writing are those from before and the identifiers written. -/
theorem mem_keys_writeAll {manifest : Manifest} {entities : List Entity} {key : String} :
    key ∈ (manifest.writeAll entities).keys ↔
      key ∈ manifest.keys ∨ ∃ entity ∈ entities, entity.identifier = key := by
  induction entities generalizing manifest with
  | nil => simp
  | cons entity rest ih =>
      rw [writeAll_cons, ih, keys_insert]
      by_cases present : entity.identifier ∈ manifest.keys
      · rw [if_pos present]
        constructor
        · rintro (member | ⟨other, member, rfl⟩)
          · exact .inl member
          · exact .inr ⟨other, List.mem_cons_of_mem _ member, rfl⟩
        · rintro (member | ⟨other, member, rfl⟩)
          · exact .inl member
          · rcases List.mem_cons.mp member with rfl | member
            · exact .inl present
            · exact .inr ⟨other, member, rfl⟩
      · rw [if_neg present]
        rw [List.mem_append, List.mem_singleton, List.exists_mem_cons_iff, or_assoc,
          eq_comm (a := key)]

/-- Writing entities whose names are all there keeps the keys. -/
theorem keys_writeAll_of_present {manifest : Manifest} {entities : List Entity}
    (present : ∀ entity ∈ entities, entity.identifier ∈ manifest.keys) :
    (manifest.writeAll entities).keys = manifest.keys := by
  induction entities generalizing manifest with
  | nil => rfl
  | cons entity rest ih =>
      have same : (manifest.insert entity.identifier entity).keys = manifest.keys := by
        rw [keys_insert, if_pos (present entity List.mem_cons_self)]
      rw [writeAll_cons, ih, same]
      intro other member
      rw [same]
      exact present other (List.mem_cons_of_mem _ member)

/-- Writing the same entities once more changes nothing. -/
theorem writeAll_writeAll (manifest : Manifest) (entities : List Entity) :
    (manifest.writeAll entities).writeAll entities = manifest.writeAll entities := by
  apply ext_keys
  · apply keys_writeAll_of_present
    intro entity member
    exact mem_keys_writeAll.mpr (.inr ⟨entity, member, rfl⟩)
  · intro key
    rw [get?_writeAll, get?_writeAll]
    cases entities.reverse.find? fun entity => entity.identifier = key <;> simp

/-- Every key of a manifest that was written from entities is the name of its entity, which is one of
them. -/
theorem mem_of_get?_writeAll {entities : List Entity} {key : String} {entity : Entity}
    (found : (empty.writeAll entities).get? key = some entity) :
    entity ∈ entities ∧ entity.identifier = key := by
  rw [get?_writeAll, get?_empty, Option.or_none] at found
  have named := List.find?_some found
  exact ⟨List.mem_reverse.mp (List.mem_of_find?_eq_some found), by simpa using named⟩

/-! ## Keys and identifiers -/

/-- No key stands twice in a manifest. -/
theorem nodup_keys (manifest : Manifest) : manifest.keys.Nodup :=
  List.pairwise_map.mpr manifest.distinct

/-- Every entity stands under its own identifier. -/
def IsKeyed (manifest : Manifest) : Prop :=
  ∀ entry ∈ manifest.entries, entry.2.identifier = entry.1

/-- In a keyed manifest each entity stands under its own identifier. -/
theorem IsKeyed.entries_eq {manifest : Manifest} (keyed : manifest.IsKeyed) :
    manifest.entries = manifest.entities.map fun entity => (entity.identifier, entity) := by
  rw [entities, List.map_map]
  refine (List.map_id _).symm.trans (List.map_congr_left fun entry listed => ?_)
  exact Prod.ext (keyed entry listed).symm rfl

/-- So it is found there. -/
theorem IsKeyed.get?_identifier {manifest : Manifest} (keyed : manifest.IsKeyed) {entity : Entity}
    (member : entity ∈ manifest.entities) : manifest.get? entity.identifier = some entity := by
  rw [get?_eq_some_iff, keyed.entries_eq]
  exact List.mem_map_of_mem member

/-- The identifiers of the entities of a keyed manifest are its keys. -/
theorem IsKeyed.map_identifier {manifest : Manifest} (keyed : manifest.IsKeyed) :
    manifest.entities.map (·.identifier) = manifest.keys := by
  rw [entities, keys, List.map_map]
  exact List.map_congr_left keyed

end Manifest

end BarrelSynthesis
