/-
# Where paths lead

A path leads from a folder to another one: each name leads down, `..` to the parent and at the top nowhere, the
root to the top. Whatever a path without the root does on its way, in the end it has climbed some folders above
its start and gone down through some names from there; this is its course.

Normalizing keeps the names of the course. Of the folders climbed it keeps one or none, since a `..` that finds
another one before it is folded into it although both climb. So a normalized path leads to the same place
as the path itself, from everywhere, exactly when the path begins at the root, where climbing leads nowhere, or
climbs at most one folder above its start.
-/
import BarrelSynthesis.Proofs.Path.Joining

namespace BarrelSynthesis

namespace Path

open Component

/-! ## Walks -/

/-- Takes one step from a folder. A folder is given by the names that lead to it from the top, its own first. -/
def enter (folder : List String) : Component → List String
  | .root => []
  | .here => folder
  | .up => folder.tail
  | .name text => text :: folder

/-- The folder that some components lead to from another. -/
def walk (start : List String) (components : List Component) : List String :=
  components.foldl enter start

/-- A way is walked in two stretches. -/
theorem walk_append (start : List String) (components behind : List Component) :
    walk start (components ++ behind) = walk (walk start components) behind :=
  List.foldl_append

/-- The root forgets the start. -/
theorem walk_root (start : List String) (components : List Component) :
    walk start (root :: components) = walk [] components := rfl

/-- Names lead down one after the other. -/
theorem walk_names (start texts : List String) :
    walk start (texts.map name) = texts.reverse ++ start := by
  induction texts generalizing start with
  | nil => rfl
  | cons text rest ih =>
      show walk (text :: start) (rest.map name) = _
      rw [ih, List.reverse_cons, List.append_assoc, List.singleton_append]

/-- Whether some components lead from every folder to where others lead. -/
def LeadAlike (first second : List Component) : Prop :=
  ∀ start, walk start first = walk start second

/-! ## Courses -/

/-- What a way that never goes to the root comes to: some folders up, and from there down through names, the last
of them first. -/
structure Course where
  climbed : Nat
  descended : List String
  deriving Repr, DecidableEq

namespace Course

/-- The course that stays where it is. -/
def still : Course := ⟨0, []⟩

/-- The course that goes one step further. A `..` takes the last name back, and climbs when there is none. -/
def follow (course : Course) : Component → Course
  | .name text => ⟨course.climbed, text :: course.descended⟩
  | .up =>
    match course.descended with
    | [] => ⟨course.climbed + 1, []⟩
    | _ :: before => ⟨course.climbed, before⟩
  | _ => course

/-- The course of some components. The root does not count. -/
def along (components : List Component) : Course :=
  components.foldl follow still

/-- The folder that a course leads to from another. -/
def reach (course : Course) (start : List String) : List String :=
  course.descended ++ start.drop course.climbed

/-- What folding leaves of a course above what it began on: the names, and a `..` for an odd number of folders
climbed. -/
def stackOn (course : Course) (bottom : List Component) : List Component :=
  course.descended.map name ++ if course.climbed % 2 = 1 then up :: bottom else bottom

/-- One step from where a course leads is the course with that step. -/
theorem enter_reach (course : Course) (start : List String) {component : Component}
    (relative : component ≠ root) :
    enter (course.reach start) component = (course.follow component).reach start := by
  cases component with
  | root => exact absurd rfl relative
  | here => rfl
  | name text => rfl
  | up =>
      obtain ⟨climbed, descended⟩ := course
      cases descended with
      | nil =>
          show (start.drop climbed).tail = start.drop (climbed + 1)
          rw [List.tail_drop]
      | cons text before => rfl

/-- A way without the root leads where its course does. -/
theorem walk_eq_reach (start : List String) {components : List Component}
    (relative : root ∉ components) :
    walk start components = (along components).reach start := by
  have follows (course : Course) :
      components.foldl enter (course.reach start) =
        (components.foldl follow course).reach start := by
    induction components generalizing course with
    | nil => rfl
    | cons component rest ih =>
        rw [List.mem_cons, not_or] at relative
        rw [List.foldl_cons, List.foldl_cons, course.enter_reach start (Ne.symm relative.1),
          ih relative.2]
  exact follows still

/-- Folding a component puts its step on the course below it. -/
theorem fold_stackOn (course : Course) {bottom : List Component} (low : bottom = [] ∨ bottom = [root])
    {component : Component} (relative : component ≠ root) :
    fold (course.stackOn bottom) component = (course.follow component).stackOn bottom := by
  cases component with
  | root => exact absurd rfl relative
  | here => rfl
  | name text => rfl
  | up =>
      obtain ⟨climbed, descended⟩ := course
      cases descended with
      | cons text before => rfl
      | nil =>
          by_cases odd : climbed % 2 = 1
          · have even : ¬(climbed + 1) % 2 = 1 := by omega
            simp only [stackOn, follow, odd, even, List.map_nil, List.nil_append, if_true, if_false]
            rfl
          · have next : (climbed + 1) % 2 = 1 := by omega
            simp only [stackOn, follow, odd, next, List.map_nil, List.nil_append, if_true, if_false]
            rcases low with rfl | rfl <;> rfl

/-- Folding a way without the root leaves its course. -/
theorem foldl_fold_eq_stackOn {bottom components : List Component}
    (low : bottom = [] ∨ bottom = [root]) (relative : root ∉ components) :
    components.foldl fold bottom = (along components).stackOn bottom := by
  have follows (course : Course) :
      components.foldl fold (course.stackOn bottom) =
        (components.foldl follow course).stackOn bottom := by
    induction components generalizing course with
    | nil => rfl
    | cons component rest ih =>
        rw [List.mem_cons, not_or] at relative
        rw [List.foldl_cons, List.foldl_cons, course.fold_stackOn low (Ne.symm relative.1),
          ih relative.2]
  exact follows still

/-- What is left of a course leads down the same names, but climbs one folder at most. -/
theorem walk_reverse_stackOn_nil (course : Course) (start : List String) :
    walk start (course.stackOn []).reverse = reach ⟨course.climbed % 2, course.descended⟩ start := by
  rw [stackOn, List.reverse_append, walk_append, ← List.map_reverse, walk_names, List.reverse_reverse,
    reach]
  by_cases odd : course.climbed % 2 = 1
  · rw [if_pos odd, odd]
    show course.descended ++ start.tail = course.descended ++ start.drop 1
    rw [List.drop_one]
  · have even : course.climbed % 2 = 0 := by omega
    rw [if_neg odd, even]
    rfl

/-- At the top a course climbs nowhere. -/
theorem walk_reverse_stackOn_root (course : Course) (start : List String) :
    walk start (course.stackOn [root]).reverse = course.descended := by
  have top : walk start (if course.climbed % 2 = 1 then [up, root] else [root]).reverse = [] := by
    split <;> rfl
  rw [stackOn, List.reverse_append, walk_append, top, ← List.map_reverse, walk_names,
    List.reverse_reverse, List.append_nil]

/-- Names are put on what a course has gone down. -/
theorem foldl_follow_names (course : Course) (texts : List String) :
    (texts.map name).foldl follow course = ⟨course.climbed, texts.reverse ++ course.descended⟩ := by
  induction texts generalizing course with
  | nil => rfl
  | cons text rest ih =>
      rw [List.map_cons, List.foldl_cons, ih, List.reverse_cons, List.append_assoc]
      rfl

/-- Names that a course goes down further stand behind the rest of what is left of it. -/
theorem reverse_stackOn_foldl_follow_names (course : Course) (bottom : List Component)
    (texts : List String) :
    (((texts.map name).foldl follow course).stackOn bottom).reverse =
      (course.stackOn bottom).reverse ++ texts.map name := by
  rw [foldl_follow_names, stackOn, stackOn, List.map_append, List.append_assoc, List.reverse_append,
    ← List.map_reverse, List.reverse_reverse]

/-- Without an odd climb only names are left of a course from the root. -/
theorem reverse_stackOn_root_of_even {course : Course} (even : ¬course.climbed % 2 = 1) :
    (course.stackOn [root]).reverse = root :: course.descended.reverse.map name := by
  rw [stackOn, if_neg even, List.reverse_append, List.map_reverse]
  rfl

theorem root_notMem_stackOn_nil (course : Course) : root ∉ course.stackOn [] := by
  rw [stackOn]
  split <;> simp

/-- A `.` changes no course. -/
theorem foldl_follow_filter_here (course : Course) (components : List Component) :
    (components.filter (· ≠ here)).foldl follow course = components.foldl follow course := by
  induction components generalizing course with
  | nil => rfl
  | cons component rest ih =>
      by_cases still : component = here
      · subst still
        rw [List.filter_cons_of_neg (by simp), ih]
        rfl
      · rw [List.filter_cons_of_pos (by simpa using still), List.foldl_cons, ih]
        rfl

/-- No `..` stands behind the root where only names do. -/
theorem not_root_up_prefix_names (texts : List String) : ¬[root, up] <+: root :: texts.map name := by
  intro climbs
  have second : up ∈ texts.map name :=
    (List.cons_prefix_cons.mp climbs).2.subset (List.mem_singleton_self up)
  simp at second

/-- What is left of a course from the root begins with a `..` when the climb is odd. -/
theorem root_up_prefix_iff (course : Course) :
    [root, up] <+: (course.stackOn [root]).reverse ↔ course.climbed % 2 = 1 := by
  by_cases odd : course.climbed % 2 = 1
  · rw [stackOn, if_pos odd, List.reverse_append]
    exact iff_of_true (List.prefix_append _ _) odd
  · rw [reverse_stackOn_root_of_even odd]
    exact iff_of_false (not_root_up_prefix_names _) odd

/-- From the top a course leads down its names alone. -/
theorem reach_nil (course : Course) : course.reach [] = course.descended := by
  rw [reach, List.drop_nil, List.append_nil]

/-- Courses that lead alike from everywhere are one. -/
theorem eq_of_reach_eq {first second : Course} (alike : ∀ start, first.reach start = second.reach start) :
    first = second := by
  have names := alike []
  rw [reach_nil, reach_nil] at names
  have far := alike (List.replicate (first.climbed + second.climbed) "")
  rw [reach, reach, names, List.append_cancel_left_eq] at far
  have lengths := congrArg List.length far
  simp only [List.length_drop, List.length_replicate] at lengths
  obtain ⟨climbed, descended⟩ := first
  obtain ⟨other, _⟩ := second
  simp only at lengths names
  have same : climbed = other := by omega
  rw [same, names]

end Course

/-! ## Paths -/

/-- The root is the first component of an absolute path, and stands nowhere else. -/
theorem exists_components_of_isAbsolute {path : Path} (absolute : path.isAbsolute = true) :
    ∃ rest, path.components = root :: rest ∧ root ∉ rest := by
  obtain ⟨behind, text⟩ : ∃ behind, path.text.toList = '/' :: behind :=
    List.head?_eq_some_iff.mp (of_decide_eq_true absolute)
  have shape : path.components = root :: (Text.pieces '/' behind).filterMap ofSegment? := by
    simp [components, componentsOf, text, Text.pieces]
  have spelled := path.wellSpelled_components
  rw [shape] at spelled
  exact ⟨_, shape, fun member => (spelled.2 root member).ne_root rfl⟩

/-- A relative path goes to the root nowhere. -/
theorem root_notMem_components {path : Path} (relative : path.isAbsolute = false) :
    root ∉ path.components := by
  have head : path.text.toList.head? ≠ some '/' := of_decide_eq_false relative
  have below := filter_componentsOf_of_relative head
  intro member
  have kept : root ∈ (componentsOf path.text.toList).filter (· ≠ here) :=
    List.mem_filter.mpr ⟨member, by decide⟩
  rw [below] at kept
  have segment := isSegment_of_mem_filterMap (fun _ => Text.notMem_of_mem_pieces) kept
  exact segment.ne_root rfl

/-- The course of a path. -/
def course (path : Path) : Course :=
  Course.along path.components

/-- A relative path goes on with the course of the path it is joined to. -/
theorem course_join {path other : Path} (relative : other.isAbsolute = false) :
    (path.join other).course = other.components.foldl Course.follow path.course := by
  by_cases empty : path.text = ""
  · have blank : path.components = [] := by rw [components, empty]; rfl
    rw [join_of_empty empty, course, course, blank]
    rfl
  · rw [course, components_join relative empty, Course.along, List.foldl_append,
      Course.foldl_follow_filter_here]
    rfl

/-- Joining a relative path changes nothing about where the whole begins. -/
theorem isAbsolute_join {path other : Path} (relative : other.isAbsolute = false) :
    (path.join other).isAbsolute = path.isAbsolute := by
  by_cases empty : path.text = ""
  · rw [join_of_empty empty, relative, isAbsolute, empty]
    rfl
  · have filled : path.text.toList ≠ [] := by simpa using empty
    have head (behind : List Char) : (path.text.toList ++ behind).head? = path.text.toList.head? := by
      rw [List.head?_append_of_ne_nil _ filled]
    rw [isAbsolute, isAbsolute, join, relative]
    simp only [Bool.false_eq_true, if_false]
    split
    · rw [String.toList_append, head]
    · rw [String.toList_append, String.toList_append, List.append_assoc, head]

section Relative

variable {path : Path} (relative : path.isAbsolute = false)

include relative

/-- A relative path leads where its course does. -/
theorem walk_components (start : List String) :
    walk start path.components = path.course.reach start :=
  Course.walk_eq_reach start (root_notMem_components relative)

/-- What normalizing keeps of a relative path is what folding leaves of its course. -/
theorem components_normalize_eq_stackOn_nil :
    path.normalize.components = (path.course.stackOn []).reverse := by
  rw [components_normalize, normalizeComponents,
    Course.foldl_fold_eq_stackOn (.inl rfl) (root_notMem_components relative)]
  rfl

end Relative

section Absolute

variable {path : Path} (absolute : path.isAbsolute = true)

include absolute

/-- The course of an absolute path leads down from the top. -/
theorem walk_components_of_isAbsolute (start : List String) :
    walk start path.components = path.course.descended := by
  obtain ⟨rest, shape, relative⟩ := exists_components_of_isAbsolute absolute
  rw [course, shape, walk_root, Course.walk_eq_reach [] relative, Course.reach_nil]
  rfl

/-- For an absolute path the same is left above the root. -/
theorem components_normalize_eq_stackOn_root :
    path.normalize.components = (path.course.stackOn [root]).reverse := by
  obtain ⟨rest, shape, relative⟩ := exists_components_of_isAbsolute absolute
  rw [components_normalize, course, shape, normalizeComponents]
  show (rest.foldl fold [root]).reverse = ((Course.along rest).stackOn [root]).reverse
  rw [Course.foldl_fold_eq_stackOn (.inr rfl) relative]

end Absolute

/-- Nothing folds on a path that leads from the root through names. -/
theorem components_normalize_of_root_names {path : Path} {texts : List String}
    (shape : path.components = root :: texts.map name) :
    path.normalize.components = root :: texts.map name := by
  have absolute : path.isAbsolute = true := by
    rw [← Bool.not_eq_false]
    exact fun relative => root_notMem_components relative (shape ▸ List.mem_cons_self)
  rw [components_normalize_eq_stackOn_root absolute, course, shape]
  show (((texts.map name).foldl Course.follow Course.still).stackOn [root]).reverse = _
  rw [Course.reverse_stackOn_foldl_follow_names]
  rfl

/-- From one folder a path and what is left of it lead to the same place exactly when the path begins at the root
or climbs, from there and as far as the top, as many folders as are left of its climb. -/
theorem walk_normalize_eq_iff (path : Path) (start : List String) :
    walk start path.normalize.components = walk start path.components ↔
      path.isAbsolute = true ∨
        min path.course.climbed start.length = min (path.course.climbed % 2) start.length := by
  cases absolute : path.isAbsolute with
  | true =>
      rw [components_normalize_eq_stackOn_root absolute, Course.walk_reverse_stackOn_root,
        walk_components_of_isAbsolute absolute]
      simp
  | false =>
      rw [components_normalize_eq_stackOn_nil absolute, Course.walk_reverse_stackOn_nil,
        walk_components absolute, Course.reach, Course.reach, List.append_cancel_left_eq]
      have left : ¬(false = true) := Bool.false_ne_true
      rw [or_iff_right left]
      constructor
      · intro same
        have lengths := congrArg List.length same
        simp only [List.length_drop] at lengths
        omega
      · intro same
        have whole (count : Nat) : start.drop count = start.drop (min count start.length) := by
          rcases Nat.le_total count start.length with within | beyond
          · rw [Nat.min_eq_left within]
          · rw [Nat.min_eq_right beyond, List.drop_length, List.drop_of_length_le beyond]
        rw [whole, whole path.course.climbed, same]

/-- From everywhere a path leads where it did before it was normalized exactly when it begins at the root or
climbs at most one folder above its start. From a single folder it does so exactly when it begins at the root
or, as far as the top lets it, climbs as many folders as normalizing has left of its climb. -/
theorem normalize_leads_alike_iff (path : Path) :
    (LeadAlike path.normalize.components path.components ↔
        path.isAbsolute = true ∨ path.course.climbed ≤ 1) ∧
      ∀ start, walk start path.normalize.components = walk start path.components ↔
        path.isAbsolute = true ∨
          min path.course.climbed start.length = min (path.course.climbed % 2) start.length := by
  refine ⟨?_, walk_normalize_eq_iff path⟩
  constructor
  · intro alike
    have far := (path.walk_normalize_eq_iff (List.replicate path.course.climbed "")).mp (alike _)
    rw [List.length_replicate] at far
    exact far.imp_right fun same => by omega
  · intro near start
    apply (path.walk_normalize_eq_iff start).mpr
    exact near.imp_right fun short => by rw [Nat.mod_eq_of_lt (Nat.lt_succ_of_le short)]

/-- Two steps up leave the folder, but nothing is left of them. -/
theorem normalize_of_two_steps_up_stays :
    walk ["b", "a"] (Path.normalize ⟨"../.."⟩).components = ["b", "a"] ∧
      walk ["b", "a"] (Path.components ⟨"../.."⟩) = [] := by
  decide

/-! ## Paths that lead alike -/

/-- A name reached on a walk was there at the start or is one of the components. -/
theorem mem_walk {start : List String} {components : List Component} {text : String}
    (member : text ∈ walk start components) : text ∈ start ∨ name text ∈ components := by
  induction components generalizing start with
  | nil => exact .inl member
  | cons component rest ih =>
      rcases ih member with entered | later
      · cases component with
        | root => cases entered
        | here => exact .inl entered
        | up => exact .inl (List.mem_of_mem_tail entered)
        | name other =>
            rcases List.mem_cons.mp entered with rfl | before
            · exact .inr List.mem_cons_self
            · exact .inl before
      · exact .inr (List.mem_cons_of_mem _ later)

/-- A path that leads alike a way without the root has its course. -/
theorem course_eq_of_leadAlike {path : Path} {components : List Component} (free : root ∉ components)
    (alike : LeadAlike path.components components) :
    path.isAbsolute = false ∧ path.course = Course.along components := by
  have relative : path.isAbsolute = false := by
    rw [← Bool.not_eq_true]
    intro absolute
    have near := alike []
    have far := alike (List.replicate ((Course.along components).climbed + 1) "")
    rw [walk_components_of_isAbsolute absolute, Course.walk_eq_reach _ free] at near far
    have lengths := congrArg List.length (near.symm.trans far)
    simp only [Course.reach, List.length_append, List.length_drop, List.length_replicate,
      List.length_nil] at lengths
    omega
  refine ⟨relative, Course.eq_of_reach_eq fun start => ?_⟩
  rw [← walk_components relative, ← Course.walk_eq_reach start free]
  exact alike start

/-- A path that leads alike a way from the root is absolute and leads down the same names. -/
theorem descended_eq_of_leadAlike {path : Path} {rest : List Component}
    (alike : LeadAlike path.components (root :: rest)) :
    path.isAbsolute = true ∧ path.course.descended = walk [] rest := by
  have absolute : path.isAbsolute = true := by
    rw [← Bool.not_eq_false]
    intro relative
    have near := alike []
    have far := alike (List.replicate (path.course.climbed + 1) "")
    rw [walk_components relative] at near far
    have lengths := congrArg List.length (near.trans far.symm)
    simp only [Course.reach, List.length_append, List.length_drop, List.length_replicate,
      List.length_nil] at lengths
    omega
  refine ⟨absolute, ?_⟩
  rw [← walk_components_of_isAbsolute absolute []]
  exact alike []

end Path

end BarrelSynthesis
