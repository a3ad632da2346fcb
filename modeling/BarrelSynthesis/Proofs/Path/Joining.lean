/-
# Normalizing before and after a join

Normalizing is compatible with joining: it makes no difference whether the first path was normalized before
the second is put below it. What is left of a path has no `.`, and a `..` only where it begins or right
behind the root.
-/
import Mathlib.Data.List.Basic
import BarrelSynthesis.Proofs.Path.Sibling

namespace BarrelSynthesis.Path

open Component

/-- What is left of a path are names, behind the root or not, with one `..` before them or none. -/
theorem exists_components_normalize (path : Path) :
    ∃ (start : List Component) (texts : List String), (start = [] ∨ start = [root]) ∧
      (path.normalize.components = start ++ texts.map name ∨
        path.normalize.components = start ++ up :: texts.map name) := by
  obtain ⟨texts, bottom, shape, kinds⟩ := (isNormalStack_components path.normalize_normalize).shape
  have left : path.normalize.components = bottom.reverse ++ texts.reverse.map name := by
    rw [List.map_reverse, ← List.reverse_append, ← shape, List.reverse_reverse]
  rcases kinds with rfl | rfl | rfl | rfl
  · exact ⟨[], texts.reverse, .inl rfl, .inl left⟩
  · exact ⟨[root], texts.reverse, .inr rfl, .inl left⟩
  · exact ⟨[], texts.reverse, .inl rfl, .inr left⟩
  · exact ⟨[root], texts.reverse, .inr rfl, .inr left⟩

theorem here_notMem_components_normalize (path : Path) : here ∉ path.normalize.components := by
  obtain ⟨start, texts, kinds, shape⟩ := path.exists_components_normalize
  rcases kinds with rfl | rfl <;> rcases shape with shape | shape <;> simp [shape]

/-- A `..` that is left has at most the root before it, and no other behind it. -/
theorem up_alone_of_components_normalize {path : Path} {front behind : List Component}
    (climbs : path.normalize.components = front ++ up :: behind) :
    (front = [] ∨ front = [root]) ∧ up ∉ behind := by
  obtain ⟨start, texts, kinds, shape⟩ := path.exists_components_normalize
  have startsStill : up ∉ start := by rcases kinds with rfl | rfl <;> decide
  have goesDown : up ∉ texts.map name := by simp
  rcases shape with still | climb
  · have member : up ∈ path.normalize.components := by
      rw [climbs]
      exact List.mem_append_right front List.mem_cons_self
    rw [still, List.mem_append] at member
    exact absurd member (not_or.mpr ⟨startsStill, goesDown⟩)
  · have same : start ++ up :: texts.map name = front ++ up :: behind := climb.symm.trans climbs
    obtain ⟨rfl, -, rfl⟩ := (List.append_cons_inj_of_notMem startsStill goesDown).mp same
    exact ⟨kinds, goesDown⟩

/-- A path may be normalized before another is put below it. -/
theorem normalize_join_normalize (path other : Path) :
    (path.normalize.join other).normalize = (path.join other).normalize := by
  cases absolute : other.isAbsolute with
  | true => rw [join, join, if_pos absolute, if_pos absolute]
  | false =>
      apply eq_of_components_eq (normalize_normalize _) (normalize_normalize _)
      rw [components_normalize, components_normalize, normalizeComponents, normalizeComponents,
        foldl_components_join absolute, foldl_components_join absolute,
        foldl_components path.normalize_normalize, components_normalize, normalizeComponents,
        List.reverse_reverse]

/-- A name put below a folder is normalized with the folder. -/
theorem normalize_join_of_isSegment (folder : Path) {text : String} (segment : (name text).IsSegment) :
    (folder.join ⟨text⟩).normalize = folder.normalize.join ⟨text⟩ := by
  rw [← normalize_join_normalize, normalize_join folder.normalize_normalize segment]

/-- Whatever the paths: normalizing twice is normalizing once, and normalizing a join is normalizing the join
that begins with the normalized path, also in how the results are spelled. A normalized path has no `.`, and
a `..` only once, as its first component or behind the root. -/
theorem normalize_twice_and_in_joins (path other : Path) :
    path.normalize.normalize = path.normalize ∧
      (path.join other).normalize = (path.normalize.join other).normalize ∧
      here ∉ path.normalize.components ∧
      ∀ front behind, path.normalize.components = front ++ up :: behind →
        (front = [] ∨ front = [root]) ∧ up ∉ behind :=
  ⟨normalize_normalize path, (normalize_join_normalize path other).symm,
    here_notMem_components_normalize path, fun _ _ => up_alone_of_components_normalize⟩

/-- Three steps up from a root without parent leave one, and the names that a join climbs over are gone. -/
theorem normalize_of_path_above_root :
    let path : Path := ⟨"/../.././/../a/b/"⟩
    let other : Path := ⟨"./../c/."⟩
    path.normalize.components = [root, up, name "a", name "b"] ∧ up ∉ [name "a", name "b"] ∧
      (path.join other).normalize = ⟨"/../a/c"⟩ := by
  intro path other
  obtain ⟨-, joined, -, climbs⟩ := normalize_twice_and_in_joins path other
  have shape : path.normalize.components = [root, up, name "a", name "b"] := by decide
  refine ⟨shape, (climbs [root] [name "a", name "b"] shape).2, joined.trans ?_⟩
  decide

end BarrelSynthesis.Path
