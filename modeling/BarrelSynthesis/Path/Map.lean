/-
# Maps keyed by path

A finite map whose keys are paths, compared by component and listed in ascending order. Writing under
a key that is already present keeps the spelling the key came with.
-/
import BarrelSynthesis.Path.Basic

namespace BarrelSynthesis

/-- A finite map from paths, as its list of entries in strictly ascending order of key. -/
structure PathMap (α : Type) where
  entries : List (Path × α)
  ascending : entries.Pairwise fun a b => Path.order a.1 b.1 = .lt

namespace PathMap

variable {α : Type}

/-- The map without entries. -/
def empty : PathMap α := ⟨[], .nil⟩

instance : EmptyCollection (PathMap α) := ⟨empty⟩
instance : Inhabited (PathMap α) := ⟨empty⟩

/-- Puts a value into an ascending list of entries. -/
def insertEntry (key : Path) (value : α) : List (Path × α) → List (Path × α)
  | [] => [(key, value)]
  | (other, old) :: rest =>
    match Path.order key other with
    | .lt => (key, value) :: (other, old) :: rest
    | .eq => (other, value) :: rest
    | .gt => (other, old) :: insertEntry key value rest

/-- Every entry after an insertion is an old one or the new value under a key equal to the new one. -/
theorem mem_insertEntry {key : Path} {value : α} {entries : List (Path × α)} {entry : Path × α}
    (member : entry ∈ insertEntry key value entries) :
    entry ∈ entries ∨ Path.order entry.1 key = .eq := by
  induction entries with
  | nil =>
    obtain rfl := List.mem_singleton.mp member
    exact .inr Std.ReflCmp.compare_self
  | cons head rest ih =>
    obtain ⟨other, old⟩ := head
    rw [insertEntry] at member
    split at member
    · rcases List.mem_cons.mp member with rfl | member
      · exact .inr Std.ReflCmp.compare_self
      · exact .inl member
    · next same =>
      rcases List.mem_cons.mp member with rfl | member
      · exact .inr (Std.OrientedCmp.eq_symm same)
      · exact .inl (List.mem_cons_of_mem _ member)
    · rcases List.mem_cons.mp member with rfl | member
      · exact .inl List.mem_cons_self
      · exact (ih member).imp (List.mem_cons_of_mem _) id

/-- What stands before the first of some ascending entries stands before all of them. -/
theorem order_lt_of_lt_first {key : Path} {first : Path × α} {rest : List (Path × α)}
    (ascending : (first :: rest).Pairwise fun a b => Path.order a.1 b.1 = .lt)
    (below : Path.order key first.1 = .lt) : ∀ entry ∈ first :: rest, Path.order key entry.1 = .lt := by
  intro entry listed
  rcases List.mem_cons.mp listed with rfl | listed
  · exact below
  · exact Std.TransCmp.lt_trans below ((List.pairwise_cons.mp ascending).1 entry listed)

/-- An insertion keeps the keys in strictly ascending order. -/
theorem insertEntry_ascending {key : Path} {value : α} {entries : List (Path × α)}
    (ascending : entries.Pairwise fun a b => Path.order a.1 b.1 = .lt) :
    (insertEntry key value entries).Pairwise fun a b => Path.order a.1 b.1 = .lt := by
  induction entries with
  | nil => exact List.pairwise_singleton _ _
  | cons head rest ih =>
    obtain ⟨other, old⟩ := head
    obtain ⟨lowest, others⟩ := List.pairwise_cons.mp ascending
    rw [insertEntry]
    split
    · next below =>
      exact List.pairwise_cons.mpr ⟨order_lt_of_lt_first ascending below, ascending⟩
    · exact List.pairwise_cons.mpr ⟨lowest, others⟩
    · next above =>
      refine List.pairwise_cons.mpr ⟨fun entry member => ?_, ih others⟩
      rcases mem_insertEntry member with member | same
      · exact lowest entry member
      · exact Std.TransCmp.lt_of_lt_of_eq (Std.OrientedCmp.lt_of_gt above)
          (Std.OrientedCmp.eq_symm same)

/-- Writes a value under a key. -/
def insert (map : PathMap α) (key : Path) (value : α) : PathMap α :=
  ⟨insertEntry key value map.entries, insertEntry_ascending map.ascending⟩

/-- The value under a key. -/
def get? (map : PathMap α) (key : Path) : Option α :=
  (map.entries.find? fun entry => entry.1.same key).map (·.2)

/-- Whether some value stands under a key. -/
def contains (map : PathMap α) (key : Path) : Bool :=
  map.entries.any fun entry => entry.1.same key

/-- Keeps the entries that pass a test. -/
def filter (map : PathMap α) (keep : Path → α → Bool) : PathMap α :=
  ⟨map.entries.filter fun entry => keep entry.1 entry.2, map.ascending.filter _⟩

/-- Removes the value under a key. -/
def erase (map : PathMap α) (key : Path) : PathMap α :=
  map.filter fun other _ => !other.same key

/-- The keys in ascending order. -/
def keys (map : PathMap α) : List Path :=
  map.entries.map (·.1)

/-- The values in ascending order of their keys. -/
def values (map : PathMap α) : List α :=
  map.entries.map (·.2)

/-- The number of keys. -/
def size (map : PathMap α) : Nat :=
  map.entries.length

/-- Whether there is no key. -/
def isEmpty (map : PathMap α) : Bool :=
  map.entries.isEmpty

/-- The map that a list of entries is gathered into. Of several entries for one path the last is kept, with
its spelling of the path. -/
def ofList (entries : List (Path × α)) : PathMap α :=
  entries.foldr
    (fun entry map => if map.contains entry.1 then map else map.insert entry.1 entry.2) empty

end PathMap

end BarrelSynthesis
