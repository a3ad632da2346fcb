/-
# Paths

A path keeps the spelling it was given and is compared by its components: repeated separators and
interior `.` components do not count, a leading `.` does. The order puts the root first, then a
leading `.`, then `..`, then names by code point; the folder `/p/a` and everything below it therefore
stand before `/p/a-b`.

Normalizing is lexical. It folds every `..` into the component before it and keeps the `..` only when
nothing is left to fold it into.
-/
import BarrelSynthesis.Text.Pieces

namespace BarrelSynthesis

/-- One step of a path. -/
inductive Component
  | root
  | here
  | up
  | name (text : String)
  deriving Repr, DecidableEq

namespace Component

/-- The kinds of component in ascending order. -/
def rank : Component → Nat
  | root => 0
  | here => 1
  | up => 2
  | name _ => 3

/-- The component as it is written between separators. -/
def label : Component → String
  | root => "/"
  | here => "."
  | up => ".."
  | name text => text

/-- Components are ordered by kind, names among themselves by code point. -/
def order : Component → Component → Ordering :=
  compareLex (compareOn rank) (compareOn label)

instance : Std.TransCmp order :=
  inferInstanceAs (Std.TransCmp (compareLex (compareOn rank) (compareOn label)))

/-- Only equal components compare as equal. -/
theorem eq_of_order_eq {a b : Component} (h : order a b = .eq) : a = b := by
  simp only [order, compareLex_eq_eq, compareOn, Std.LawfulEqCmp.compare_eq_iff_eq] at h
  cases a <;> cases b <;> simp_all [rank, label]

instance : Std.LawfulEqCmp order where
  eq_of_compare := eq_of_order_eq

/-- Reads a segment that stands after the first: empty segments and `.` are no components. -/
def ofSegment? (segment : List Char) : Option Component :=
  if segment = [] ∨ segment = ['.'] then none
  else if segment = ['.', '.'] then some up
  else some (name (String.ofList segment))

end Component

/-- A path in the spelling it was given. -/
structure Path where
  text : String
  deriving Repr, DecidableEq, Inhabited

namespace Path

/-- Whether the path starts at the root. -/
def isAbsolute (path : Path) : Bool :=
  path.text.toList.head? = some '/'

/-- The components of a spelled path. -/
def componentsOf (text : List Char) : List Component :=
  match Text.pieces '/' text with
  | [] => []
  | first :: rest =>
    let start :=
      if first = [] then (if text = [] then [] else [Component.root])
      else if first = ['.'] then [.here]
      else (Component.ofSegment? first).toList
    start ++ rest.filterMap Component.ofSegment?

/-- The components of the path. -/
def components (path : Path) : List Component :=
  componentsOf path.text.toList

/-- Paths are ordered by their components. -/
def order (a b : Path) : Ordering :=
  List.compareLex Component.order a.components b.components

instance : Std.TransCmp order where
  eq_swap := fun { a b } =>
    @Std.OrientedCmp.eq_swap _ (List.compareLex Component.order) _ a.components b.components
  isLE_trans := fun { a b c } =>
    @Std.TransCmp.isLE_trans _ (List.compareLex Component.order) _ a.components b.components
      c.components

/-- Two spellings of one path: the components agree. -/
def same (a b : Path) : Bool :=
  a.components = b.components

/-- Paths compare as equal when they have the same components. -/
theorem order_eq_iff {a b : Path} : order a b = .eq ↔ a.components = b.components :=
  @Std.LawfulEqCmp.compare_eq_iff_eq _ (List.compareLex Component.order) _ _ _

/-- Whether the components of `folder` begin those of `path`. -/
def startsWith (path folder : Path) : Bool :=
  folder.components.isPrefixOf path.components

/-- A path starts with another when its components do. -/
theorem startsWith_iff {path folder : Path} :
    path.startsWith folder = true ↔ folder.components <+: path.components :=
  List.isPrefixOf_iff_prefix

/-- Segments of a spelled path from the back, without the trailing ones that are no component. The
first segment always stays. -/
def significantFromBack : List (List Char) → List (List Char)
  | [] => []
  | [first] => [first]
  | last :: before =>
    if last = [] ∨ last = ['.'] then significantFromBack before else last :: before

/-- The path without its last component, in the spelling of this path. The root and the empty path
have no parent. -/
def parent? (path : Path) : Option Path :=
  match significantFromBack (Text.pieces '/' path.text.toList).reverse with
  | [] => none
  | [first] => if first = [] then none else some ⟨""⟩
  | _ :: before =>
    match significantFromBack before with
    | [[]] => some ⟨"/"⟩
    | segments => some ⟨String.ofList (Text.glue '/' segments.reverse)⟩

/-- The last component, when it is a name. -/
def fileName? (path : Path) : Option String :=
  match path.components.getLast? with
  | some (.name text) => some text
  | _ => none

/-- Puts a path below this one; an absolute path replaces it. -/
def join (path other : Path) : Path :=
  if other.isAbsolute then other
  else if path.text.isEmpty || path.text.toList.getLast? = some '/' then ⟨path.text ++ other.text⟩
  else ⟨path.text ++ "/" ++ other.text⟩

/-- The plainest spelling of a list of components. -/
def ofComponents : List Component → Path
  | .root :: rest => ⟨"/" ++ "/".intercalate (rest.map Component.label)⟩
  | components => ⟨"/".intercalate (components.map Component.label)⟩

/-- Folds one more component into a normalized stack of components, nearest first. -/
def fold (stack : List Component) : Component → List Component
  | .here => stack
  | .up =>
    match stack with
    | .name _ :: below => below
    | .up :: below => below
    | _ => .up :: stack
  | component => component :: stack

/-- The components of a path with every `.` dropped and every `..` folded. -/
def normalizeComponents (components : List Component) : List Component :=
  (components.foldl fold []).reverse

/-- The normalized path, in its plainest spelling. -/
def normalize (path : Path) : Path :=
  ofComponents (normalizeComponents path.components)

end Path

end BarrelSynthesis
