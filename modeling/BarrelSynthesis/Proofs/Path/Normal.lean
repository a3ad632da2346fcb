/-
# Normalized paths

A normalized path starts at the root or not, climbs at most one folder, and then descends through names.
Folding such a path again changes nothing, so normalizing is idempotent, also on the spelling: two
normalized paths with the same components are equal.
-/
import BarrelSynthesis.Proofs.Path.Spelling

namespace BarrelSynthesis

namespace Path

open Component

/-! ## The stack of a fold -/

/-- What folding leaves, nearest component first: names, at most one `..` and the root if there is
one. -/
structure IsNormalStack (stack : List Component) : Prop where
  shape : ∃ (texts : List String) (bottom : List Component),
    stack = texts.map name ++ bottom ∧
      (bottom = [] ∨ bottom = [root] ∨ bottom = [up] ∨ bottom = [up, root])
  segments : ∀ component ∈ stack, component = root ∨ component.IsSegment

@[simp]
theorem fold_name (stack : List Component) (text : String) :
    fold stack (name text) = name text :: stack := rfl

theorem isNormalStack_nil : IsNormalStack [] :=
  ⟨⟨[], [], rfl, .inl rfl⟩, fun _ member => absurd member List.not_mem_nil⟩

theorem isNormalStack_root : IsNormalStack [root] := by
  refine ⟨⟨[], [root], rfl, .inr (.inl rfl)⟩, fun component member => .inl ?_⟩
  exact List.mem_singleton.mp member

/-- What lies below the nearest component of such a stack is one too. -/
theorem IsNormalStack.tail {component : Component} {stack : List Component}
    (normal : IsNormalStack (component :: stack)) : IsNormalStack stack := by
  obtain ⟨texts, bottom, shape, kinds⟩ := normal.shape
  refine ⟨?_, fun other member => normal.segments other (List.mem_cons_of_mem _ member)⟩
  cases texts with
  | cons text texts =>
      obtain ⟨-, rfl⟩ := List.cons_eq_cons.mp shape
      exact ⟨texts, bottom, rfl, kinds⟩
  | nil =>
      refine ⟨[], stack, rfl, ?_⟩
      rcases kinds with rfl | rfl | rfl | rfl <;> simp_all

/-- Folding a segment keeps the shape. -/
theorem IsNormalStack.fold {stack : List Component} {component : Component}
    (normal : IsNormalStack stack) (segment : component.IsSegment) :
    IsNormalStack (fold stack component) := by
  cases component with
  | root => exact absurd rfl segment.ne_root
  | here => exact normal
  | name text =>
      obtain ⟨texts, bottom, rfl, kinds⟩ := normal.shape
      refine ⟨⟨text :: texts, bottom, rfl, kinds⟩, fun other member => ?_⟩
      rcases List.mem_cons.mp member with rfl | member
      · exact .inr segment
      · exact normal.segments other member
  | up =>
      have pushed (bottom : List Component) (kinds : bottom = [] ∨ bottom = [root]) :
          IsNormalStack (up :: bottom) := by
        refine ⟨⟨[], up :: bottom, rfl, ?_⟩, fun other member => ?_⟩
        · rcases kinds with rfl | rfl <;> simp
        · rcases List.mem_cons.mp member with rfl | member
          · exact .inr segment
          · rcases kinds with rfl | rfl
            · cases member
            · exact .inl (List.mem_singleton.mp member)
      obtain ⟨texts, bottom, rfl, kinds⟩ := normal.shape
      cases texts with
      | cons text texts => exact normal.tail
      | nil =>
          rcases kinds with rfl | rfl | rfl | rfl
          · exact pushed [] (.inl rfl)
          · exact pushed [root] (.inr rfl)
          · exact normal.tail
          · exact normal.tail

/-- Folding segments keeps the shape. -/
theorem IsNormalStack.foldl {components : List Component} {stack : List Component}
    (normal : IsNormalStack stack) (segments : ∀ component ∈ components, component.IsSegment) :
    IsNormalStack (components.foldl Path.fold stack) := by
  induction components generalizing stack with
  | nil => exact normal
  | cons component rest ih =>
      exact ih (normal.fold (segments component List.mem_cons_self)) fun other member =>
        segments other (List.mem_cons_of_mem _ member)

/-- Folding a well spelled path leaves such a stack. -/
theorem isNormalStack_foldl {components : List Component} (spelled : WellSpelled components) :
    IsNormalStack (components.foldl fold []) := by
  cases components with
  | nil => exact isNormalStack_nil
  | cons first rest =>
      obtain ⟨rfl | rfl | single, behind⟩ := spelled
      · exact isNormalStack_root.foldl behind
      · show IsNormalStack (rest.foldl Path.fold [])
        exact isNormalStack_nil.foldl behind
      · exact (isNormalStack_nil.fold single).foldl behind

/-- Folding what a fold has left gives it again. -/
theorem IsNormalStack.foldl_reverse {stack : List Component} (normal : IsNormalStack stack) :
    stack.reverse.foldl Path.fold [] = stack := by
  have names (texts : List String) (bottom : List Component) :
      (texts.map name).reverse.foldl Path.fold bottom = texts.map name ++ bottom := by
    induction texts with
    | nil => rfl
    | cons text texts ih =>
        rw [List.map_cons, List.reverse_cons, List.foldl_append, ih]
        rfl
  obtain ⟨texts, bottom, rfl, kinds⟩ := normal.shape
  rw [List.reverse_append, List.foldl_append]
  rcases kinds with rfl | rfl | rfl | rfl <;> exact names texts _

/-- Read from the far end, such a stack is well spelled. -/
theorem IsNormalStack.wellSpelled_reverse {stack : List Component} (normal : IsNormalStack stack) :
    WellSpelled stack.reverse := by
  obtain ⟨texts, bottom, rfl, kinds⟩ := normal.shape
  have named : ∀ component ∈ (texts.map name).reverse, component.IsSegment := by
    intro component member
    rw [List.mem_reverse] at member
    rcases normal.segments component (List.mem_append_left _ member) with rfl | segment
    · simp at member
    · exact segment
  rw [List.reverse_append]
  rcases kinds with rfl | rfl | rfl | rfl
  · cases found : (texts.map name).reverse with
    | nil => trivial
    | cons first rest =>
        rw [found] at named
        exact ⟨.inr (.inr (named first List.mem_cons_self)), fun other member =>
          named other (List.mem_cons_of_mem _ member)⟩
  · exact ⟨.inl rfl, named⟩
  · exact ⟨.inr (.inr isSegment_up), named⟩
  · exact ⟨.inl rfl, List.forall_mem_cons.mpr ⟨isSegment_up, named⟩⟩

/-! ## Normalizing -/

/-- The components of a normalized path are what normalizing its components gives. -/
theorem components_normalize (path : Path) :
    path.normalize.components = normalizeComponents path.components :=
  components_ofComponents (isNormalStack_foldl path.wellSpelled_components).wellSpelled_reverse

/-- Normalizing the components twice is normalizing them once. -/
theorem normalizeComponents_normalizeComponents {components : List Component}
    (spelled : WellSpelled components) :
    normalizeComponents (normalizeComponents components) = normalizeComponents components := by
  rw [normalizeComponents, normalizeComponents, (isNormalStack_foldl spelled).foldl_reverse]

/-- Normalizing twice is normalizing once. -/
theorem normalize_normalize (path : Path) : path.normalize.normalize = path.normalize := by
  rw [normalize, components_normalize,
    normalizeComponents_normalizeComponents path.wellSpelled_components]
  rfl

/-- A normalized path is spelled as plainly as its components can be. -/
theorem ofComponents_components {path : Path} (normal : path.normalize = path) :
    ofComponents path.components = path := by
  calc ofComponents path.components = ofComponents path.normalize.components := by rw [normal]
    _ = path.normalize := by rw [components_normalize, normalize]
    _ = path := normal

/-- Normalized spellings of one path are equal. -/
theorem eq_of_components_eq {a b : Path} (first : a.normalize = a) (second : b.normalize = b)
    (same : a.components = b.components) : a = b := by
  rw [← ofComponents_components first, ← ofComponents_components second, same]

/-- Folding passes over a leading `.`. -/
theorem foldl_filter_here (stack components : List Component) :
    (components.filter (· ≠ here)).foldl fold stack = components.foldl fold stack := by
  induction components generalizing stack with
  | nil => rfl
  | cons component rest ih =>
      by_cases leading : component = here
      · subst leading
        rw [List.filter_cons_of_neg (by simp), ih]
        rfl
      · rw [List.filter_cons_of_pos (by simpa using leading), List.foldl_cons, ih]
        rfl

/-- Folding a join folds the first path and then, from there, the second. -/
theorem foldl_components_join {path other : Path} (relative : other.isAbsolute = false) :
    (path.join other).components.foldl fold [] =
      other.components.foldl fold (path.components.foldl fold []) := by
  by_cases empty : path.text = ""
  · have blank : path.components = [] := by rw [components, empty]; rfl
    rw [join_of_empty empty, blank]
    rfl
  · rw [components_join relative empty, List.foldl_append, foldl_filter_here]

/-- A name behind some components stays the last one when they are normalized. -/
theorem normalizeComponents_append_name (front : List Component) (text : String) :
    normalizeComponents (front ++ [name text]) = normalizeComponents front ++ [name text] := by
  rw [normalizeComponents, List.foldl_append, List.foldl_cons, List.foldl_nil, fold_name,
    List.reverse_cons]
  rfl

/-! ## Names at the end -/

/-- The file name of a path is its last component, if that is a name. -/
theorem fileName?_eq_some_iff {path : Path} {text : String} :
    path.fileName? = some text ↔ path.components.getLast? = some (name text) := by
  rw [fileName?]
  cases path.components.getLast? with
  | none => simp
  | some component => cases component <;> simp

/-- A file name is a component of its own. -/
theorem isSegment_of_fileName? {path : Path} {text : String} (named : path.fileName? = some text) :
    (name text).IsSegment := by
  obtain ⟨front, shape⟩ := List.getLast?_eq_some_iff.mp (fileName?_eq_some_iff.mp named)
  have spelled := path.wellSpelled_components
  rw [shape] at spelled
  cases front with
  | nil =>
      obtain ⟨isRoot | isHere | segment, -⟩ := spelled
      · cases isRoot
      · cases isHere
      · exact segment
  | cons first rest => exact spelled.2 _ (by simp)

end Path

end BarrelSynthesis
