/-
# Laws of maps keyed by path

What stands under a key depends on its components only, and no two keys of a map share theirs. Writing
and erasing change what stands under their own key and nothing else.
-/
import BarrelSynthesis.Path.Map
import BarrelSynthesis.Proofs.Path.Normal
import Mathlib.Data.List.Basic

namespace BarrelSynthesis

namespace Path

/-- Two paths are the same key exactly when they have the same components. -/
theorem same_iff {a b : Path} : a.same b = true ↔ a.components = b.components :=
  decide_eq_true_iff

theorem not_same_iff {a b : Path} : a.same b = false ↔ a.components ≠ b.components :=
  decide_eq_false_iff_not

/-- Normalized paths are told apart by their components. -/
theorem same_normalize_iff {a b : Path} :
    a.normalize.same b.normalize = true ↔ a.normalize = b.normalize := by
  refine ⟨fun same => ?_, fun same => same_iff.mpr (congrArg components same)⟩
  exact eq_of_components_eq a.normalize_normalize b.normalize_normalize (same_iff.mp same)

/-- Keys in strict order differ in their components. -/
theorem components_ne_of_order_lt {a b : Path} (below : order a b = .lt) :
    a.components ≠ b.components := by
  intro same
  rw [order_eq_iff.mpr same] at below
  cases below

/-- No path stands twice in a strictly ascending list. -/
theorem nodup_of_ascending {paths : List Path}
    (ascends : paths.Pairwise fun a b => order a b = .lt) : paths.Nodup :=
  ascends.imp fun below same => components_ne_of_order_lt below (congrArg components same)

end Path

namespace PathMap

variable {α : Type}

/-- Entries whose keys have the same components are one entry. -/
theorem entry_unique {map : PathMap α} {first second : Path × α} (left : first ∈ map.entries)
    (right : second ∈ map.entries) (same : first.1.components = second.1.components) :
    first = second := by
  obtain ⟨entries, ascending⟩ := map
  simp only at left right
  induction entries with
  | nil => cases left
  | cons head rest ih =>
      obtain ⟨lowest, others⟩ := List.pairwise_cons.mp ascending
      rcases List.mem_cons.mp left with rfl | early
      · rcases List.mem_cons.mp right with rfl | late
        · rfl
        · exact absurd same (Path.components_ne_of_order_lt (lowest second late))
      · rcases List.mem_cons.mp right with rfl | late
        · exact absurd same.symm (Path.components_ne_of_order_lt (lowest first early))
        · exact ih others early late

/-- A lookup gives the value of the one entry whose key has the same components. -/
theorem get?_eq_some_iff {map : PathMap α} {key : Path} {value : α} :
    map.get? key = some value ↔
      ∃ other, (other, value) ∈ map.entries ∧ other.components = key.components := by
  rw [get?, Option.map_eq_some_iff]
  constructor
  · rintro ⟨⟨other, _⟩, found, rfl⟩
    have same : Path.same other key = true := by simpa using List.find?_some found
    exact ⟨other, List.mem_of_find?_eq_some found, Path.same_iff.mp same⟩
  · rintro ⟨other, member, same⟩
    cases found : map.entries.find? fun entry => entry.1.same key with
    | none =>
        have atKey : Path.same other key = true := Path.same_iff.mpr same
        have missed := List.find?_eq_none.mp found _ member
        exact absurd atKey missed
    | some entry =>
        have atKey : entry.1.same key = true := by simpa using List.find?_some found
        have one := entry_unique (List.mem_of_find?_eq_some found) member
          ((Path.same_iff.mp atKey).trans same.symm)
        exact ⟨entry, rfl, congrArg Prod.snd one⟩

/-- What is entered under a key is found under it: the keys being strictly ascending, no other entry is in
the way. -/
theorem get?_of_mem {map : PathMap α} {key : Path} {value : α}
    (member : (key, value) ∈ map.entries) : map.get? key = some value :=
  get?_eq_some_iff.mpr ⟨key, member, rfl⟩

theorem mem_keys_iff {map : PathMap α} {key : Path} :
    key ∈ map.keys ↔ ∃ value, (key, value) ∈ map.entries := by
  simp [keys]

/-- The keys are listed in strictly ascending order. -/
theorem ascending_keys (map : PathMap α) : map.keys.Pairwise fun a b => Path.order a b = .lt :=
  List.pairwise_map.mpr map.ascending

/-- The first entry that passes a test is the least one that does. -/
theorem find?_entries_eq_some_iff {map : PathMap α} {test : Path × α → Bool} {entry : Path × α} :
    map.entries.find? test = some entry ↔
      entry ∈ map.entries ∧ test entry = true ∧
        ∀ other ∈ map.entries, test other = true → (Path.order entry.1 other.1).isLE := by
  obtain ⟨entries, ascending⟩ := map
  simp only
  rw [List.find?_eq_some_iff_append]
  constructor
  · rintro ⟨passes, front, behind, rfl, failing⟩
    refine ⟨List.mem_append_right _ List.mem_cons_self, passes, fun other member pass => ?_⟩
    have others := (List.pairwise_append.mp ascending).2.1
    rcases List.mem_append.mp member with before | after
    · have missed := failing other before
      rw [pass] at missed
      cases missed
    · rcases List.mem_cons.mp after with rfl | after
      · exact Std.ReflCmp.isLE_rfl
      · rw [(List.pairwise_cons.mp others).1 other after]
        rfl
  · rintro ⟨member, passes, least⟩
    obtain ⟨front, behind, rfl⟩ := List.append_of_mem member
    refine ⟨passes, front, behind, rfl, fun other before => ?_⟩
    have below := (List.pairwise_append.mp ascending).2.2 other before entry List.mem_cons_self
    rw [Bool.not_eq_true', Bool.eq_false_iff]
    intro pass
    have above := least other (List.mem_append_left _ before) pass
    rw [Std.OrientedCmp.gt_of_lt below] at above
    cases above

/-- A key is contained when some listed key has its components. -/
theorem contains_iff {map : PathMap α} {key : Path} :
    map.contains key = true ↔ ∃ other ∈ map.keys, other.components = key.components := by
  simp only [contains, List.any_eq_true, Path.same_iff, keys, List.mem_map]
  constructor
  · rintro ⟨entry, member, same⟩
    exact ⟨entry.1, ⟨entry, member, rfl⟩, same⟩
  · rintro ⟨_, ⟨entry, member, rfl⟩, same⟩
    exact ⟨entry, member, same⟩

/-- A key is contained exactly when its lookup gives something. -/
theorem contains_eq_isSome_get? (map : PathMap α) (key : Path) :
    map.contains key = (map.get? key).isSome := by
  rw [contains, get?, Option.isSome_map, List.isSome_find?]

/-- A lookup depends on the components of the key alone. -/
theorem get?_congr {map : PathMap α} {first second : Path}
    (same : first.components = second.components) : map.get? first = map.get? second := by
  have agree : ∀ other : Path, other.same first = other.same second := fun other => by
    rw [Path.same, Path.same, same]
  simp only [get?, agree]

/-! ## Writing and erasing -/

/-- An entry after an insertion is the inserted value, under the new or the replaced spelling of the key, or
an old entry of another key. -/
theorem of_mem_insertEntry {key : Path} {value : α} {entries : List (Path × α)}
    (ascending : entries.Pairwise fun a b => Path.order a.1 b.1 = .lt) {other : Path} {found : α}
    (member : (other, found) ∈ insertEntry key value entries) :
    (other.components = key.components ∧ found = value ∧
        (other = key ∨ ∃ old, (other, old) ∈ entries)) ∨
      other.components ≠ key.components ∧ (other, found) ∈ entries := by
  induction entries with
  | nil =>
      obtain ⟨rfl, rfl⟩ := Prod.mk.inj (List.mem_singleton.mp member)
      exact .inl ⟨rfl, rfl, .inl rfl⟩
  | cons head rest ih =>
      obtain ⟨present, old⟩ := head
      obtain ⟨lowest, others⟩ := List.pairwise_cons.mp ascending
      rw [insertEntry] at member
      cases compared : Path.order key present with
      | lt =>
          rw [compared] at member
          rcases List.mem_cons.mp member with same | member
          · obtain ⟨rfl, rfl⟩ := Prod.mk.inj same
            exact .inl ⟨rfl, rfl, .inl rfl⟩
          · have above := order_lt_of_lt_first ascending compared _ member
            exact .inr ⟨(Path.components_ne_of_order_lt above).symm, member⟩
      | eq =>
          rw [compared] at member
          have same := Path.order_eq_iff.mp compared
          rcases List.mem_cons.mp member with here | member
          · obtain ⟨rfl, rfl⟩ := Prod.mk.inj here
            exact .inl ⟨same.symm, rfl, .inr ⟨old, List.mem_cons_self⟩⟩
          · have differs := Path.components_ne_of_order_lt (lowest _ member)
            exact .inr ⟨fun back => differs (same.symm.trans back.symm),
              List.mem_cons_of_mem _ member⟩
      | gt =>
          rw [compared] at member
          rcases List.mem_cons.mp member with here | member
          · obtain ⟨rfl, rfl⟩ := Prod.mk.inj here
            have below := Path.components_ne_of_order_lt (Std.OrientedCmp.lt_of_gt compared)
            exact .inr ⟨below, List.mem_cons_self⟩
          · rcases ih others member with ⟨same, written, spelled | ⟨before, present⟩⟩ | ⟨differs, kept⟩
            · exact .inl ⟨same, written, .inl spelled⟩
            · exact .inl ⟨same, written, .inr ⟨before, List.mem_cons_of_mem _ present⟩⟩
            · exact .inr ⟨differs, List.mem_cons_of_mem _ kept⟩

/-- An entry after a write is the written one, under the key as it was spelled or as it was already
present, or an old one under another key. -/
theorem mem_insert {map : PathMap α} {key other : Path} {value found : α}
    (member : (other, found) ∈ (map.insert key value).entries) :
    (other.components = key.components ∧ found = value ∧ (other = key ∨ other ∈ map.keys)) ∨
      other.components ≠ key.components ∧ (other, found) ∈ map.entries := by
  rw [mem_keys_iff]
  exact of_mem_insertEntry map.ascending member

/-- The inserted value stands under some spelling of its key. -/
theorem exists_mem_insertEntry (key : Path) (value : α) (entries : List (Path × α)) :
    ∃ other, (other, value) ∈ insertEntry key value entries ∧
      other.components = key.components := by
  induction entries with
  | nil => exact ⟨key, List.mem_singleton_self _, rfl⟩
  | cons head rest ih =>
      obtain ⟨present, old⟩ := head
      rw [insertEntry]
      cases compared : Path.order key present with
      | lt => exact ⟨key, List.mem_cons_self, rfl⟩
      | eq => exact ⟨present, List.mem_cons_self, (Path.order_eq_iff.mp compared).symm⟩
      | gt =>
          obtain ⟨other, member, same⟩ := ih
          exact ⟨other, List.mem_cons_of_mem _ member, same⟩

/-- An insertion leaves the entries of other keys where they are. -/
theorem mem_insertEntry_of_ne {key other : Path} {value old : α} {entries : List (Path × α)}
    (differs : other.components ≠ key.components) (member : (other, old) ∈ entries) :
    (other, old) ∈ insertEntry key value entries := by
  induction entries with
  | nil => cases member
  | cons head rest ih =>
      obtain ⟨present, value⟩ := head
      rw [insertEntry]
      cases compared : Path.order key present with
      | lt => exact List.mem_cons_of_mem _ member
      | eq =>
          rcases List.mem_cons.mp member with here | member
          · obtain ⟨rfl, -⟩ := Prod.mk.inj here
            exact absurd (Path.order_eq_iff.mp compared).symm differs
          · exact List.mem_cons_of_mem _ member
      | gt =>
          rcases List.mem_cons.mp member with here | member
          · exact here ▸ List.mem_cons_self
          · exact List.mem_cons_of_mem _ (ih member)

/-- The same for a map. -/
theorem mem_insert_of_ne {map : PathMap α} {key other : Path} {value old : α}
    (differs : other.components ≠ key.components) (member : (other, old) ∈ map.entries) :
    (other, old) ∈ (map.insert key value).entries :=
  mem_insertEntry_of_ne differs member

/-- Writing changes what stands under its own key, and nothing else. -/
theorem get?_insert (map : PathMap α) (key other : Path) (value : α) :
    (map.insert key value).get? other = if key.same other then some value else map.get? other := by
  by_cases same : key.same other = true
  · obtain ⟨written, member, atKey⟩ := exists_mem_insertEntry key value map.entries
    rw [if_pos same]
    exact get?_eq_some_iff.mpr ⟨written, member, atKey.trans (Path.same_iff.mp same)⟩
  · have differs : ∀ present : Path, present.components = other.components →
        present.components ≠ key.components := fun present spelled atKey =>
      same (Path.same_iff.mpr (atKey.symm.trans spelled))
    rw [if_neg same]
    apply Option.ext
    intro found
    rw [get?_eq_some_iff, get?_eq_some_iff]
    constructor
    · rintro ⟨present, member, spelled⟩
      rcases mem_insert member with ⟨atKey, -⟩ | ⟨-, kept⟩
      · exact absurd atKey (differs present spelled)
      · exact ⟨present, kept, spelled⟩
    · rintro ⟨present, member, spelled⟩
      exact ⟨present, mem_insert_of_ne (differs present spelled) member, spelled⟩

/-- Writing a list under a key replaces what the list there had to be counted among all. -/
theorem countP_values_insert {β : Type} (map : PathMap (List β)) (key : Path) (list : List β)
    (counted : β → Bool) :
    (map.insert key list).values.flatten.countP counted +
        ((map.get? key).getD []).countP counted =
      map.values.flatten.countP counted + list.countP counted := by
  obtain ⟨entries, ascending⟩ := map
  simp only [values, insert, get?]
  induction entries with
  | nil => simp [insertEntry]
  | cons head rest ih =>
      obtain ⟨other, old⟩ := head
      have later := ih (List.pairwise_cons.mp ascending).2
      rw [insertEntry]
      cases compared : Path.order key other with
      | lt =>
          have absent : ((other, old) :: rest).find? (fun entry => entry.1.same key) = none := by
            rw [List.find?_eq_none]
            intro entry member same
            have below := order_lt_of_lt_first ascending compared entry member
            exact Path.components_ne_of_order_lt below (Path.same_iff.mp same).symm
          rw [absent]
          simp only [List.map_cons, List.flatten_cons, List.countP_append, Option.map_none,
            Option.getD_none, List.countP_nil]
          omega
      | eq =>
          have here : other.same key = true :=
            Path.same_iff.mpr (Path.order_eq_iff.mp compared).symm
          simp only [List.find?_cons, here, List.map_cons, List.flatten_cons, List.countP_append,
            Option.map_some, Option.getD_some]
          omega
      | gt =>
          have elsewhere : other.same key = false := Path.not_same_iff.mpr
            (Path.components_ne_of_order_lt (Std.OrientedCmp.lt_of_gt compared))
          simp only [List.find?_cons, elsewhere, List.map_cons, List.flatten_cons,
            List.countP_append]
          omega

/-- Erasing keeps the entries under other keys, and only those. -/
theorem mem_erase_iff {map : PathMap α} {key other : Path} {value : α} :
    (other, value) ∈ (map.erase key).entries ↔
      other.components ≠ key.components ∧ (other, value) ∈ map.entries := by
  rw [erase, filter, List.mem_filter, Bool.not_eq_true', Path.not_same_iff, And.comm]

/-- A test on keys keeps what stands under those that pass, and nothing else. -/
theorem get?_filter {map : PathMap α} {keep : Path → Bool}
    (regards : ∀ {first second : Path}, first.components = second.components → keep first = keep second)
    (key : Path) :
    (map.filter fun path _ => keep path).get? key = if keep key then map.get? key else none := by
  apply Option.ext
  intro found
  rw [get?_eq_some_iff, filter]
  simp only [List.mem_filter]
  split
  · next passes =>
      rw [get?_eq_some_iff]
      constructor
      · rintro ⟨other, ⟨member, -⟩, same⟩
        exact ⟨other, member, same⟩
      · rintro ⟨other, member, same⟩
        exact ⟨other, ⟨member, (regards same).trans passes⟩, same⟩
  · next fails =>
      refine iff_of_false ?_ nofun
      rintro ⟨other, ⟨-, passes⟩, same⟩
      exact fails ((regards same).symm.trans passes)

/-- Erasing takes away what stands under its own key, and nothing else. -/
theorem get?_erase (map : PathMap α) (key other : Path) :
    (map.erase key).get? other = if key.same other then none else map.get? other := by
  have regards {first second : Path} (same : first.components = second.components) :
      (!first.same key) = !second.same key := by
    rw [Path.same, Path.same, same]
  have turned : other.same key = key.same other := by
    rw [Path.same, Path.same]
    exact decide_eq_decide.mpr eq_comm
  rw [erase, get?_filter regards, turned]
  cases key.same other <;> rfl

/-! ## Lists of writes -/

/-- The map that a list of writes leaves of another. -/
def writeAll (map : PathMap α) (writes : List (Path × α)) : PathMap α :=
  writes.foldl (fun map entry => map.insert entry.1 entry.2) map

/-- An entry after a list of writes comes from the map or from one of the writes, and so does the spelling
of its key. -/
theorem mem_writeAll {map : PathMap α} {writes : List (Path × α)} {key : Path} {value : α}
    (member : (key, value) ∈ (map.writeAll writes).entries) :
    (key ∈ map.keys ∨ key ∈ writes.map (·.1)) ∧
      ((key, value) ∈ map.entries ∨ ∃ write ∈ writes,
        write.1.components = key.components ∧ write.2 = value) := by
  induction writes generalizing map with
  | nil => exact ⟨.inl (mem_keys_iff.mpr ⟨value, member⟩), .inl member⟩
  | cons write rest ih =>
      obtain ⟨spelled, written⟩ := ih member
      refine ⟨?_, ?_⟩
      · rcases spelled with spelled | listed
        · obtain ⟨found, present⟩ := mem_keys_iff.mp spelled
          rcases mem_insert present with ⟨-, -, rfl | known⟩ | ⟨-, kept⟩
          · exact .inr List.mem_cons_self
          · exact .inl known
          · exact .inl (mem_keys_iff.mpr ⟨found, kept⟩)
        · exact .inr (List.mem_cons_of_mem _ listed)
      · rcases written with present | ⟨later, listed, same⟩
        · rcases mem_insert present with ⟨same, rfl, -⟩ | ⟨-, kept⟩
          · exact .inr ⟨write, List.mem_cons_self, same.symm, rfl⟩
          · exact .inl kept
        · exact .inr ⟨later, List.mem_cons_of_mem _ listed, same⟩

/-- An insertion adds its own key and no other. -/
theorem contains_insert {map : PathMap α} {key other : Path} (value : α) :
    (map.insert key value).contains other = true ↔
      map.contains other = true ∨ key.components = other.components := by
  rw [contains_iff, contains_iff]
  constructor
  · rintro ⟨found, listed, same⟩
    obtain ⟨_, member⟩ := mem_keys_iff.mp listed
    rcases mem_insert member with ⟨atKey, -⟩ | ⟨-, kept⟩
    · exact .inr (atKey.symm.trans same)
    · exact .inl ⟨found, mem_keys_iff.mpr ⟨_, kept⟩, same⟩
  · intro present
    obtain ⟨written, member, atKey⟩ := exists_mem_insertEntry key value map.entries
    by_cases same : key.components = other.components
    · exact ⟨written, mem_keys_iff.mpr ⟨_, member⟩, atKey.trans same⟩
    · obtain ⟨found, listed, spelled⟩ := present.resolve_right same
      obtain ⟨old, kept⟩ := mem_keys_iff.mp listed
      have differs : found.components ≠ key.components := fun back =>
        same (back.symm.trans spelled)
      exact ⟨found, mem_keys_iff.mpr ⟨old, mem_insert_of_ne differs kept⟩, spelled⟩

/-- A list of writes adds the keys it writes and no other. -/
theorem contains_writeAll {map : PathMap α} {writes : List (Path × α)} {key : Path} :
    (map.writeAll writes).contains key = true ↔
      map.contains key = true ∨ ∃ write ∈ writes, write.1.components = key.components := by
  induction writes generalizing map with
  | nil => simp [writeAll]
  | cons write rest ih =>
      rw [List.exists_mem_cons_iff, ← or_assoc, ← contains_insert write.2, ← ih]
      rfl

/-- A map whose entries are among some entries for normalized paths, which agree on each of these, and that
has all of their paths, holds them all. -/
theorem mem_iff_of_normal {map : PathMap α} {entries : List (Path × α)}
    (normal : ∀ entry ∈ entries, entry.1.normalize = entry.1)
    (agree : ∀ first ∈ entries, ∀ second ∈ entries, first.1 = second.1 → first = second)
    (sound : ∀ entry ∈ map.entries, entry ∈ entries)
    (present : ∀ entry ∈ entries, map.contains entry.1 = true) {entry : Path × α} :
    entry ∈ map.entries ↔ entry ∈ entries := by
  refine ⟨sound entry, fun listed => ?_⟩
  obtain ⟨key, known, same⟩ := contains_iff.mp (present entry listed)
  obtain ⟨value, member⟩ := mem_keys_iff.mp known
  have one := Path.eq_of_components_eq (normal _ (sound _ member)) (normal entry listed) same
  rwa [agree entry listed (key, value) (sound _ member) one.symm]

/-- Writing entries for normalized paths, which agree on each of these, leaves exactly them. -/
theorem mem_writeAll_empty_iff {entries : List (Path × α)}
    (normal : ∀ entry ∈ entries, entry.1.normalize = entry.1)
    (agree : ∀ first ∈ entries, ∀ second ∈ entries, first.1 = second.1 → first = second)
    {entry : Path × α} : entry ∈ (empty.writeAll entries).entries ↔ entry ∈ entries := by
  refine mem_iff_of_normal normal agree (fun other member => ?_) fun other listed => ?_
  · obtain ⟨spelled, written⟩ := mem_writeAll member
    obtain ⟨source, listed, path⟩ := List.mem_map.mp (spelled.resolve_left List.not_mem_nil)
    obtain ⟨write, also, same, value⟩ := written.resolve_left List.not_mem_nil
    have one := Path.eq_of_components_eq (normal write also) (path ▸ normal source listed) same
    have whole : write = other := Prod.ext one value
    exact whole ▸ also
  · exact contains_writeAll.mpr (.inr ⟨other, listed, rfl⟩)

/-- Pairs of a path and a function's value there agree wherever their paths do. -/
private theorem agree_map {paths : List Path} (value : Path → α) :
    ∀ first ∈ paths.map fun path => (path, value path),
      ∀ second ∈ paths.map fun path => (path, value path),
        first.1 = second.1 → first = second := by
  intro first listed second also same
  obtain ⟨path, -, rfl⟩ := List.mem_map.mp listed
  obtain ⟨other, -, rfl⟩ := List.mem_map.mp also
  have one : path = other := same
  rw [one]

/-- The pairs of a path and a function's value there. -/
private theorem mem_map_pair_iff {paths : List Path} {value : Path → α} {path : Path} {found : α} :
    (path, found) ∈ paths.map (fun path => (path, value path)) ↔
      path ∈ paths ∧ value path = found := by
  rw [List.mem_map]
  constructor
  · rintro ⟨other, listed, same⟩
    obtain ⟨rfl, rfl⟩ := Prod.mk.inj same
    exact ⟨listed, rfl⟩
  · rintro ⟨listed, rfl⟩
    exact ⟨path, listed, rfl⟩

/-- Writing under normalized paths leaves exactly these, each with its value. -/
theorem mem_writeAll_map_iff {paths : List Path} {value : Path → α}
    (normal : ∀ path ∈ paths, path.normalize = path) {path : Path} {found : α} :
    (path, found) ∈ (empty.writeAll (paths.map fun path => (path, value path))).entries ↔
      path ∈ paths ∧ value path = found := by
  rw [mem_writeAll_empty_iff (by simpa using normal) (agree_map value), mem_map_pair_iff]

/-! ## Gathered entries -/

/-- Inserting an absent key adds one entry to those of the map. -/
theorem mem_insert_of_absent {map : PathMap α} {key other : Path} {value found : α}
    (absent : map.contains key = false) :
    (other, found) ∈ (map.insert key value).entries ↔
      (other, found) = (key, value) ∨ (other, found) ∈ map.entries := by
  have elsewhere : ∀ present ∈ map.keys, present.components ≠ key.components := by
    intro present listed same
    rw [contains_iff.mpr ⟨present, listed, same⟩] at absent
    cases absent
  constructor
  · intro member
    rcases mem_insert member with ⟨same, rfl, rfl | known⟩ | ⟨-, kept⟩
    · exact .inl rfl
    · exact absurd same (elsewhere other known)
    · exact .inr kept
  · rintro (here | kept)
    · obtain ⟨rfl, rfl⟩ := Prod.mk.inj here
      obtain ⟨written, member, same⟩ := exists_mem_insertEntry other found map.entries
      rcases mem_insert member with ⟨-, -, rfl | known⟩ | ⟨differs, -⟩
      · exact member
      · exact absurd same (elsewhere written known)
      · exact absurd same differs
    · exact mem_insert_of_ne (elsewhere other (mem_keys_iff.mpr ⟨found, kept⟩)) kept

/-- Of several entries with one key the last is kept, each earlier one finding its key taken. -/
theorem ofList_cons (entry : Path × α) (rest : List (Path × α)) :
    ofList (entry :: rest) =
      if (ofList rest).contains entry.1 then ofList rest
      else (ofList rest).insert entry.1 entry.2 := rfl

/-- The keys of a map that is gathered from entries are the paths of these. -/
theorem contains_ofList {entries : List (Path × α)} {key : Path} :
    (ofList entries).contains key = true ↔
      ∃ entry ∈ entries, entry.1.components = key.components := by
  induction entries with
  | nil => simp [ofList, contains, empty]
  | cons entry rest ih =>
      rw [ofList_cons, List.exists_mem_cons_iff, ← ih]
      split
      · next known =>
          refine ⟨.inr, ?_⟩
          rintro (same | later)
          · obtain ⟨other, listed, spelled⟩ := contains_iff.mp known
            exact contains_iff.mpr ⟨other, listed, spelled.trans same⟩
          · exact later
      · rw [contains_insert, or_comm]

/-- What is gathered from entries are those that no later one has the path of. -/
theorem mem_ofList_iff {entries : List (Path × α)} {key : Path} {value : α} :
    (key, value) ∈ (ofList entries).entries ↔
      ∃ front behind, entries = front ++ (key, value) :: behind ∧
        ∀ later ∈ behind, later.1.components ≠ key.components := by
  induction entries with
  | nil => simp [ofList, empty]
  | cons entry rest ih =>
      have behind_entry : (key, value) ∈ (ofList rest).entries →
          ∃ front behind, entry :: rest = front ++ (key, value) :: behind ∧
            ∀ later ∈ behind, later.1.components ≠ key.components := by
        intro member
        obtain ⟨front, behind, rfl, last⟩ := ih.mp member
        exact ⟨entry :: front, behind, rfl, last⟩
      rw [ofList_cons]
      by_cases known : (ofList rest).contains entry.1 = true
      · rw [if_pos known]
        refine ⟨behind_entry, ?_⟩
        rintro ⟨front, behind, shape, last⟩
        cases front with
        | nil =>
            obtain ⟨rfl, rfl⟩ := List.cons.inj shape
            obtain ⟨later, listed, same⟩ := contains_ofList.mp known
            exact absurd same (last later listed)
        | cons _ front =>
            obtain ⟨rfl, rfl⟩ := List.cons.inj shape
            exact ih.mpr ⟨front, behind, rfl, last⟩
      · rw [if_neg known, mem_insert_of_absent (Bool.eq_false_iff.mpr known)]
        constructor
        · rintro (here | member)
          · refine ⟨[], rest, by rw [here]; rfl, fun later listed same => known ?_⟩
            rw [(Prod.mk.inj here).1] at same
            exact contains_ofList.mpr ⟨later, listed, same⟩
          · exact behind_entry member
        · rintro ⟨front, behind, shape, last⟩
          cases front with
          | nil => exact .inl (List.cons.inj shape).1.symm
          | cons _ front =>
              obtain ⟨rfl, rfl⟩ := List.cons.inj shape
              exact .inr (ih.mpr ⟨front, behind, rfl, last⟩)

/-- A map made of a list holds entries of that list only. -/
theorem mem_ofList {entries : List (Path × α)} {key : Path} {value : α}
    (member : (key, value) ∈ (ofList entries).entries) : (key, value) ∈ entries := by
  obtain ⟨front, behind, rfl, -⟩ := mem_ofList_iff.mp member
  exact List.mem_append_right _ List.mem_cons_self

/-- A map that is gathered from normalized paths holds exactly these, each with its value. -/
theorem mem_ofList_map_iff {paths : List Path} {value : Path → α}
    (normal : ∀ path ∈ paths, path.normalize = path) {path : Path} {found : α} :
    (path, found) ∈ (ofList (paths.map fun path => (path, value path))).entries ↔
      path ∈ paths ∧ value path = found := by
  refine (mem_iff_of_normal (by simpa using normal) (agree_map value) (fun _ => mem_ofList) ?_).trans
    mem_map_pair_iff
  exact fun entry listed => contains_ofList.mpr ⟨entry, listed, rfl⟩

end PathMap

end BarrelSynthesis
