/-
# Entities and manifests

An entity is one symbol that a file makes public; a manifest lists the entities of a folder by the
names under which its barrel exports them. Keys stand in the order in which they were first written,
and writing again under a key keeps its place.
-/
import BarrelSynthesis.Project.Extension
import BarrelSynthesis.Source.Tree

namespace BarrelSynthesis

/-- One symbol that a file makes public. -/
structure Entity where
  /-- The public name. -/
  identifier : String
  /-- The name of the file it comes from: the stem of a code file, the full name of an asset. -/
  fileName : String
  /-- The extension of the file it comes from. -/
  extension : String
  isDefaultExport : Bool
  isTypeExport : Bool
  /-- Where the file exports it. -/
  span : Option Source.Span
  deriving Repr, DecidableEq, Inhabited

/-- Whether the entity stands for a file that holds no code. -/
def Entity.isExternal (entity : Entity) : Bool :=
  !Extension.isCode entity.extension

/-- Entities by key, in the order in which the keys were first written. -/
structure Manifest where
  entries : List (String × Entity)
  distinct : entries.Pairwise fun a b => a.1 ≠ b.1
  deriving Repr

namespace Manifest

/-- The manifest without entries. -/
def empty : Manifest := ⟨[], .nil⟩

instance : EmptyCollection Manifest := ⟨empty⟩
instance : Inhabited Manifest := ⟨empty⟩

instance : DecidableEq Manifest := fun a b =>
  if h : a.entries = b.entries then
    .isTrue (by cases a; cases b; simp_all)
  else .isFalse (by intro same; exact h (by rw [same]))

/-- Writes into a list of entries: in the place of the key, or at the end. -/
def insertEntry (key : String) (entity : Entity) : List (String × Entity) → List (String × Entity)
  | [] => [(key, entity)]
  | (other, old) :: rest =>
    if other = key then (key, entity) :: rest else (other, old) :: insertEntry key entity rest

/-- Putting an entity under a key adds no other key. -/
theorem mem_keys_insertEntry {key : String} {entity : Entity} {entries : List (String × Entity)}
    {entry : String × Entity} (member : entry ∈ insertEntry key entity entries) :
    entry.1 = key ∨ entry ∈ entries := by
  induction entries with
  | nil =>
    obtain rfl := List.mem_singleton.mp member
    exact .inl rfl
  | cons head rest ih =>
    rw [insertEntry] at member
    split at member
    · rcases List.mem_cons.mp member with rfl | member
      · exact .inl rfl
      · exact .inr (List.mem_cons_of_mem _ member)
    · rcases List.mem_cons.mp member with rfl | member
      · exact .inr List.mem_cons_self
      · exact (ih member).imp id (List.mem_cons_of_mem _)

/-- It keeps the keys distinct. -/
theorem insertEntry_distinct {key : String} {entity : Entity} {entries : List (String × Entity)}
    (distinct : entries.Pairwise fun a b => a.1 ≠ b.1) :
    (insertEntry key entity entries).Pairwise fun a b => a.1 ≠ b.1 := by
  induction entries with
  | nil => exact List.pairwise_singleton _ _
  | cons head rest ih =>
    obtain ⟨first, others⟩ := List.pairwise_cons.mp distinct
    rw [insertEntry]
    split
    · next same =>
      exact List.pairwise_cons.mpr ⟨fun entry member => same ▸ first entry member, others⟩
    · next differs =>
      refine List.pairwise_cons.mpr ⟨fun entry member => ?_, ih others⟩
      rcases mem_keys_insertEntry member with rfl | member
      · exact differs
      · exact first entry member

/-- Writes an entity under a key. -/
def insert (manifest : Manifest) (key : String) (entity : Entity) : Manifest :=
  ⟨insertEntry key entity manifest.entries, insertEntry_distinct manifest.distinct⟩

/-- The entity under a key. -/
def get? (manifest : Manifest) (key : String) : Option Entity :=
  manifest.entries.lookup key

/-- The keys in their order. -/
def keys (manifest : Manifest) : List String :=
  manifest.entries.map (·.1)

/-- The entities in the order of their keys. -/
def entities (manifest : Manifest) : List Entity :=
  manifest.entries.map (·.2)

/-- The manifest that a list of writes leaves. -/
def ofList (writes : List (String × Entity)) : Manifest :=
  writes.foldl (fun manifest entry => manifest.insert entry.1 entry.2) empty

end Manifest

end BarrelSynthesis
