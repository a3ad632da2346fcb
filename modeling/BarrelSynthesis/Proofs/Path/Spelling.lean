/-
# Spelling paths

Components are read off a text by cutting it at every `/`, and written into one by putting a `/` between
their labels. What can be read off any text are the well-spelled lists of components; on them, writing
and reading are inverse to each other, the parent of a path drops its last component, and joining puts
the components of one path behind those of another.
-/
import BarrelSynthesis.Path.Basic

namespace BarrelSynthesis

/-! ## Cutting and gluing -/

namespace Text

/-- A text without the separator is a piece of its own. -/
theorem pieces_of_notMem {separator : Char} {text : List Char} (absent : separator ∉ text) :
    pieces separator text = [text] := by
  induction text with
  | nil => rfl
  | cons c rest ih =>
      rw [List.mem_cons, not_or] at absent
      rw [pieces, if_neg (Ne.symm absent.1), ih absent.2]

/-- A separator parts the pieces before it from the pieces behind it. -/
theorem pieces_append_cons (separator : Char) (before behind : List Char) :
    pieces separator (before ++ separator :: behind) =
      pieces separator before ++ pieces separator behind := by
  induction before with
  | nil => simp [pieces]
  | cons c rest ih =>
      rw [List.cons_append, pieces, pieces]
      by_cases cut : c = separator
      · rw [if_pos cut, if_pos cut, ih, List.cons_append]
      · rw [if_neg cut, if_neg cut, ih]
        cases first : pieces separator rest with
        | nil => exact absurd first (pieces_ne_nil separator rest)
        | cons piece more => rfl

/-- A piece holds no separator, as the separators are where a text was taken apart. -/
theorem notMem_of_mem_pieces {separator : Char} {text piece : List Char}
    (member : piece ∈ pieces separator text) : separator ∉ piece := by
  induction text generalizing piece with
  | nil =>
      rw [pieces, List.mem_singleton] at member
      subst member
      exact List.not_mem_nil
  | cons c rest ih =>
      rw [pieces] at member
      by_cases cut : c = separator
      · rw [if_pos cut] at member
        rcases List.mem_cons.mp member with rfl | member
        · exact List.not_mem_nil
        · exact ih member
      · rw [if_neg cut] at member
        cases first : pieces separator rest with
        | nil => exact absurd first (pieces_ne_nil separator rest)
        | cons head more =>
            rw [first] at ih member
            rcases List.mem_cons.mp member with rfl | member
            · rw [List.mem_cons, not_or]
              exact ⟨Ne.symm cut, ih List.mem_cons_self⟩
            · exact ih (List.mem_cons_of_mem _ member)

/-- Gluing invents nothing: pieces without the separator are found again. -/
theorem pieces_glue {separator : Char} {segments : List (List Char)} (nonempty : segments ≠ [])
    (clean : ∀ segment ∈ segments, separator ∉ segment) :
    pieces separator (glue separator segments) = segments := by
  induction segments with
  | nil => exact absurd rfl nonempty
  | cons first rest ih =>
      have firstClean := pieces_of_notMem (clean first List.mem_cons_self)
      cases rest with
      | nil => exact firstClean
      | cons second others =>
          have restClean := ih (List.cons_ne_nil _ _) fun segment member =>
            clean segment (List.mem_cons_of_mem _ member)
          rw [glue, pieces_append_cons, firstClean, restClean, List.singleton_append]
          exact List.cons_ne_nil _ _

/-- One more segment stands behind one more separator. -/
theorem glue_append_singleton {separator : Char} {segments : List (List Char)}
    (nonempty : segments ≠ []) (last : List Char) :
    glue separator (segments ++ [last]) = glue separator segments ++ separator :: last := by
  induction segments with
  | nil => exact absurd rfl nonempty
  | cons first rest ih =>
      cases rest with
      | nil => rfl
      | cons second others =>
          have behind := ih (List.cons_ne_nil _ _)
          show first ++ separator :: glue separator (second :: others ++ [last]) =
            first ++ separator :: glue separator (second :: others) ++ separator :: last
          rw [behind, List.append_assoc, List.cons_append]

/-- Names with slashes between them are glued with slashes. -/
theorem toList_intercalate_slash (labels : List String) :
    ("/".intercalate labels).toList = glue '/' (labels.map String.toList) := by
  induction labels with
  | nil => rfl
  | cons first rest ih =>
      cases rest with
      | nil => rw [String.intercalate_singleton]; rfl
      | cons second others =>
          rw [String.intercalate_cons_cons, String.toList_append, String.toList_append, ih,
            List.append_assoc]
          rfl

end Text

/-! ## Well-spelled components -/

namespace Component

/-- A component that is read again from the segment it is written as. -/
structure IsSegment (component : Component) : Prop where
  read : ofSegment? component.label.toList = some component
  whole : '/' ∉ component.label.toList

/-- What is read from a piece of a text is a component that a slash may stand beside. -/
theorem isSegment_of_ofSegment? {segment : List Char} {component : Component}
    (read : ofSegment? segment = some component) (whole : '/' ∉ segment) :
    component.IsSegment := by
  have spelled : component.label.toList = segment := by
    rw [ofSegment?] at read
    split at read
    · cases read
    · split at read
      · next climbs =>
          cases read
          rw [climbs]
          rfl
      · cases read
        exact String.toList_ofList
  exact ⟨spelled ▸ read, spelled ▸ whole⟩

theorem isSegment_up : up.IsSegment := ⟨by decide, by decide⟩

theorem IsSegment.ne_here {component : Component} (segment : component.IsSegment) :
    component ≠ here := by
  rintro rfl
  exact absurd segment.read (by decide)

theorem IsSegment.ne_root {component : Component} (segment : component.IsSegment) :
    component ≠ root := by
  rintro rfl
  exact absurd segment.read (by decide)

/-- The label of a segment is neither empty nor a dot, so it is read again. -/
theorem IsSegment.label_ne {component : Component} (segment : component.IsSegment) :
    component.label.toList ≠ [] ∧ component.label.toList ≠ ['.'] := by
  have read := segment.read
  rw [ofSegment?] at read
  split at read
  · cases read
  · next significant => exact not_or.mp significant

end Component

namespace Path

open Component

/-- Lists of components that a text can spell: what stands behind the first is a segment. -/
def WellSpelled : List Component → Prop
  | [] => True
  | first :: rest =>
    (first = root ∨ first = here ∨ first.IsSegment) ∧ ∀ component ∈ rest, component.IsSegment

/-- What is read from pieces without slashes are segments. -/
theorem isSegment_of_mem_filterMap {segments : List (List Char)} {component : Component}
    (clean : ∀ segment ∈ segments, '/' ∉ segment)
    (member : component ∈ segments.filterMap ofSegment?) : component.IsSegment := by
  obtain ⟨segment, listed, read⟩ := List.mem_filterMap.mp member
  exact isSegment_of_ofSegment? read (clean segment listed)

/-- Segments are read back from their labels. -/
theorem filterMap_labels {components : List Component}
    (segments : ∀ component ∈ components, component.IsSegment) :
    (components.map fun component => component.label.toList).filterMap ofSegment? =
      components := by
  induction components with
  | nil => rfl
  | cons first rest ih =>
      rw [List.map_cons, List.filterMap_cons, (segments first List.mem_cons_self).read,
        ih fun component member => segments component (List.mem_cons_of_mem _ member)]

/-- The components of every text are well-spelled. -/
theorem wellSpelled_componentsOf (text : List Char) : WellSpelled (componentsOf text) := by
  rw [componentsOf]
  cases cut : Text.pieces '/' text with
  | nil => trivial
  | cons first rest =>
      have clean : ∀ segment ∈ first :: rest, '/' ∉ segment := by
        rw [← cut]
        exact fun _ member => Text.notMem_of_mem_pieces member
      have behind : ∀ component ∈ rest.filterMap ofSegment?, component.IsSegment :=
        fun component member => isSegment_of_mem_filterMap
          (fun segment listed => clean segment (List.mem_cons_of_mem _ listed)) member
      have loose : WellSpelled (rest.filterMap ofSegment?) := by
        cases found : rest.filterMap ofSegment? with
        | nil => trivial
        | cons component others =>
            rw [found] at behind
            exact ⟨.inr (.inr (behind component List.mem_cons_self)), fun other member =>
              behind other (List.mem_cons_of_mem _ member)⟩
      by_cases leading : first = []
      · by_cases blank : text = []
        · simpa [leading, blank] using loose
        · simpa [leading, blank, WellSpelled] using behind
      · by_cases dot : first = ['.']
        · simpa [dot, WellSpelled] using behind
        · cases read : ofSegment? first with
          | none => simpa [leading, dot, read] using loose
          | some component =>
              have segment := isSegment_of_ofSegment? read (clean first List.mem_cons_self)
              simp only [leading, dot, read, if_false, Option.toList_some, List.singleton_append]
              exact ⟨.inr (.inr segment), behind⟩

/-- The components of a path can be spelled, as they were read from a text. -/
theorem wellSpelled_components (path : Path) : WellSpelled path.components :=
  wellSpelled_componentsOf _

/-- The front of what can be spelled can be spelled, with the root or the dot that only the front may have.
-/
theorem WellSpelled.front {components behind : List Component}
    (spelled : WellSpelled (components ++ behind)) : WellSpelled components := by
  cases components with
  | nil => trivial
  | cons first rest =>
      exact ⟨spelled.1, fun other member => spelled.2 other (List.mem_append_left _ member)⟩

/-! ## Writing and reading -/

/-- The segments that a list of components is written as. -/
def segmentsOf : List Component → List (List Char)
  | .root :: rest => [] :: rest.map fun component => component.label.toList
  | components => components.map fun component => component.label.toList

/-- Without the root, the segments of a spelling are the labels. -/
theorem segmentsOf_of_ne_root {first : Component} (rest : List Component) (relative : first ≠ root) :
    segmentsOf (first :: rest) = (first :: rest).map fun component => component.label.toList := by
  cases first with
  | root => exact absurd rfl relative
  | here => rfl
  | up => rfl
  | name text => rfl

theorem segmentsOf_ne_nil {components : List Component} (filled : components ≠ []) :
    segmentsOf components ≠ [] := by
  cases components with
  | nil => exact absurd rfl filled
  | cons first rest => cases first <;> simp [segmentsOf]

/-- Only the root would be written as one empty segment. -/
theorem segmentsOf_ne_blank {components : List Component} (spelled : WellSpelled components)
    (below : components ≠ [root]) : segmentsOf components ≠ [[]] := by
  cases components with
  | nil => simp [segmentsOf]
  | cons first rest =>
      cases rest with
      | nil =>
          obtain ⟨rfl | rfl | single, -⟩ := spelled
          · exact absurd rfl below
          · decide
          · rw [segmentsOf_of_ne_root [] single.ne_root]
            simpa using single.label_ne.1
      | cons second others => cases first <;> simp [segmentsOf]

/-- What is added behind components stands behind their segments. -/
theorem segmentsOf_append {components : List Component} (nonempty : components ≠ [])
    (more : List Component) :
    segmentsOf (components ++ more) =
      segmentsOf components ++ more.map fun component => component.label.toList := by
  cases components with
  | nil => exact absurd rfl nonempty
  | cons first rest =>
      by_cases absolute : first = root
      · subst absolute
        simp [segmentsOf]
      · rw [List.cons_append, segmentsOf_of_ne_root _ absolute, segmentsOf_of_ne_root _ absolute,
          ← List.cons_append, List.map_append]

/-- Components are spelled by their segments with slashes between them, the bare root aside. -/
theorem text_ofComponents {components : List Component} (below : components ≠ [root]) :
    (ofComponents components).text = String.ofList (Text.glue '/' (segmentsOf components)) := by
  have labels (components : List Component) :
      ("/".intercalate (components.map label)).toList =
        Text.glue '/' (components.map fun component => component.label.toList) := by
    rw [Text.toList_intercalate_slash, List.map_map]
    rfl
  rw [← String.toList_inj, String.toList_ofList]
  cases components with
  | nil => rfl
  | cons first rest =>
      cases first with
      | root =>
          cases rest with
          | nil => exact absurd rfl below
          | cons second others =>
              simp only [ofComponents, String.toList_append, labels, segmentsOf]
              rfl
      | here => exact labels _
      | up => exact labels _
      | name text => exact labels _

/-- No segment of a spelling holds a slash. -/
theorem segmentsOf_clean {components : List Component} (spelled : WellSpelled components) :
    ∀ segment ∈ segmentsOf components, '/' ∉ segment := by
  have clean {components : List Component}
      (segments : ∀ component ∈ components, component.IsSegment) :
      ∀ segment ∈ components.map fun component => component.label.toList, '/' ∉ segment := by
    intro segment member
    obtain ⟨component, listed, rfl⟩ := List.mem_map.mp member
    exact (segments component listed).whole
  intro segment member
  cases components with
  | nil => cases member
  | cons first rest =>
      obtain ⟨rfl | rfl | single, behind⟩ := spelled
      · rcases List.mem_cons.mp member with rfl | member
        · exact List.not_mem_nil
        · exact clean behind segment member
      · rcases List.mem_cons.mp member with rfl | member
        · decide
        · exact clean behind segment member
      · rw [segmentsOf_of_ne_root rest single.ne_root] at member
        exact clean (List.forall_mem_cons.mpr ⟨single, behind⟩) segment member

/-- Cutting the spelling of some components gives their segments. The root alone is spelled as two
empty segments. -/
theorem pieces_ofComponents {components : List Component} (spelled : WellSpelled components)
    (nonempty : components ≠ []) (below : components ≠ [root]) :
    Text.pieces '/' (ofComponents components).text.toList = segmentsOf components := by
  rw [text_ofComponents below, String.toList_ofList]
  exact Text.pieces_glue (segmentsOf_ne_nil nonempty) (segmentsOf_clean spelled)

/-- Reading is inverse to writing. -/
theorem components_ofComponents {components : List Component} (spelled : WellSpelled components) :
    (ofComponents components).components = components := by
  by_cases nonempty : components = []
  · subst nonempty
    rfl
  by_cases below : components = [root]
  · subst below
    rfl
  have cut := pieces_ofComponents spelled nonempty below
  rw [Path.components, componentsOf, cut]
  cases components with
  | nil => exact absurd rfl nonempty
  | cons first rest =>
      obtain ⟨rfl | rfl | single, behind⟩ := spelled
      · have long : (ofComponents (root :: rest)).text.toList ≠ [] := by
          simp [ofComponents, String.toList_append]
        simp [segmentsOf, long, filterMap_labels behind]
      · have dot : here.label.toList = ['.'] := rfl
        simp [segmentsOf, dot, filterMap_labels behind]
      · rw [segmentsOf_of_ne_root rest single.ne_root, List.map_cons]
        simp [single.label_ne, single.read, filterMap_labels behind]

/-! ## Parents -/

/-- A segment that is read counts from the back. -/
theorem significantFromBack_cons {last : List Char} (before : List (List Char))
    (significant : last ≠ [] ∧ last ≠ ['.']) :
    significantFromBack (last :: before) = last :: before := by
  cases before with
  | nil => rfl
  | cons next rest =>
      rw [significantFromBack, if_neg (not_or.mpr significant)]
      exact List.cons_ne_nil _ _

/-- All segments of a spelling are read, so none is left out from the back. -/
theorem significantFromBack_segmentsOf {components : List Component}
    (spelled : WellSpelled components) :
    significantFromBack (segmentsOf components).reverse = (segmentsOf components).reverse := by
  rcases List.eq_nil_or_concat components with rfl | ⟨front, last, rfl⟩
  · rfl
  · rw [List.concat_eq_append] at spelled ⊢
    cases front with
    | nil => cases last <;> rfl
    | cons first rest =>
        have segment : last.IsSegment := spelled.2 last (by simp)
        rw [segmentsOf_append (List.cons_ne_nil _ _), List.reverse_append]
        exact significantFromBack_cons _ segment.label_ne

/-- The parent drops the last component. -/
theorem parent?_ofComponents {components : List Component} {last : Component}
    (spelled : WellSpelled (components ++ [last])) (segment : last.IsSegment) :
    (ofComponents (components ++ [last])).parent? = some (ofComponents components) := by
  have below : components ++ [last] ≠ [root] := by
    intro same
    have isRoot : last = root := by simpa using congrArg List.getLast? same
    exact segment.ne_root isRoot
  rw [parent?, pieces_ofComponents spelled (by simp) below]
  cases components with
  | nil =>
      have single : segmentsOf [last] = [last.label.toList] :=
        segmentsOf_of_ne_root [] segment.ne_root
      rw [List.nil_append, single, List.reverse_singleton, significantFromBack]
      simp only [segment.label_ne.1, if_false]
      rfl
  | cons first rest =>
      have front : WellSpelled (first :: rest) := spelled.front
      rw [segmentsOf_append (List.cons_ne_nil _ _), List.reverse_append]
      simp only [List.map_cons, List.map_nil, List.reverse_singleton, List.singleton_append]
      rw [significantFromBack_cons _ segment.label_ne]
      by_cases isRoot : first :: rest = [root]
      · rw [isRoot]
        rfl
      have whole := significantFromBack_segmentsOf front
      have spelling := text_ofComponents isRoot
      cases found : (segmentsOf (first :: rest)).reverse with
      | nil =>
          have filled : segmentsOf (first :: rest) ≠ [] := segmentsOf_ne_nil (List.cons_ne_nil _ _)
          exact absurd (List.reverse_eq_nil_iff.mp found) filled
      | cons piece more =>
          rw [found] at whole
          have named := segmentsOf_ne_blank front isRoot
          have kept : piece :: more ≠ [[]] := by
            rw [← found]
            intro alone
            exact named (by rw [← List.reverse_reverse (segmentsOf (first :: rest)), alone]; rfl)
          simp only [whole]
          rw [← found, List.reverse_reverse, ← spelling]

/-! ## Joining -/

/-- A path is read up to a slash and from there on, and behind the slash nothing is a root. -/
theorem componentsOf_append_slash (before behind : List Char) :
    componentsOf (before ++ '/' :: behind) =
      componentsOf (before ++ ['/']) ++ (Text.pieces '/' behind).filterMap ofSegment? := by
  have none : ofSegment? [] = none := rfl
  rw [componentsOf, componentsOf, Text.pieces_append_cons, Text.pieces_append_cons]
  cases cut : Text.pieces '/' before with
  | nil => exact absurd cut (Text.pieces_ne_nil _ _)
  | cons first rest => simp [Text.pieces, none]

/-- A separator at the end is no component. -/
theorem componentsOf_append_singleton_slash {text : List Char} (nonempty : text ≠ []) :
    componentsOf (text ++ ['/']) = componentsOf text := by
  have none : ofSegment? [] = none := rfl
  rw [componentsOf, componentsOf, Text.pieces_append_cons]
  cases cut : Text.pieces '/' text with
  | nil => exact absurd cut (Text.pieces_ne_nil _ _)
  | cons first rest => simp [Text.pieces, nonempty, none]

/-- No segment behind the first is read as `.`. -/
theorem filter_filterMap_ofSegment? {segments : List (List Char)}
    (clean : ∀ segment ∈ segments, '/' ∉ segment) :
    (segments.filterMap ofSegment?).filter (· ≠ here) = segments.filterMap ofSegment? := by
  apply List.filter_eq_self.mpr
  intro component member
  simpa using (isSegment_of_mem_filterMap clean member).ne_here

/-- Only a text that begins with the separator or is empty begins with an empty piece. -/
theorem eq_nil_of_pieces_eq_nil_cons {text : List Char} {rest : List (List Char)}
    (relative : text.head? ≠ some '/') (cut : Text.pieces '/' text = [] :: rest) : text = [] := by
  have glued := Text.glue_pieces '/' text
  rw [cut] at glued
  cases rest with
  | nil => exact glued.symm
  | cons second others =>
      rw [← glued] at relative
      exact absurd rfl relative

/-- Apart from a leading dot, the components of a relative text are those of its pieces. -/
theorem filter_componentsOf_of_relative {text : List Char} (relative : text.head? ≠ some '/') :
    (componentsOf text).filter (· ≠ here) = (Text.pieces '/' text).filterMap ofSegment? := by
  rw [componentsOf]
  cases cut : Text.pieces '/' text with
  | nil => rfl
  | cons first rest =>
      have clean : ∀ segment ∈ first :: rest, '/' ∉ segment := by
        rw [← cut]
        exact fun _ member => Text.notMem_of_mem_pieces member
      have behind := filter_filterMap_ofSegment? fun segment listed =>
        clean segment (List.mem_cons_of_mem _ listed)
      by_cases leading : first = []
      · subst leading
        simp only [eq_nil_of_pieces_eq_nil_cons relative cut, if_true, List.nil_append, behind]
        rfl
      · by_cases dot : first = ['.']
        · have none : ofSegment? ['.'] = none := rfl
          simp only [dot, List.filterMap_cons, none, if_true]
          rw [if_neg (List.cons_ne_nil _ _), List.filter_append, behind]
          rfl
        · have whole : (ofSegment? first).toList ++ rest.filterMap ofSegment? =
              (first :: rest).filterMap ofSegment? := by
            rw [List.filterMap_cons]
            cases ofSegment? first <;> rfl
          simp only [leading, dot, if_false]
          rw [whole, filter_filterMap_ofSegment? clean]

/-- Joining puts the components of a relative path behind those of another; a leading `.` gets lost. -/
theorem components_join {path other : Path} (relative : other.isAbsolute = false)
    (filled : path.text ≠ "") :
    (path.join other).components = path.components ++ other.components.filter (· ≠ here) := by
  have head : other.text.toList.head? ≠ some '/' := by simpa [isAbsolute] using relative
  have text : path.text.toList ≠ [] := by simpa using filled
  rw [components, components, components, filter_componentsOf_of_relative head, join, relative]
  have unfilled : path.text.isEmpty = false := by simpa using filled
  simp only [unfilled, Bool.false_or, Bool.false_eq_true, if_false]
  by_cases ended : path.text.toList.getLast? = some '/'
  · obtain ⟨front, spelled⟩ := List.getLast?_eq_some_iff.mp ended
    rw [if_pos (by simpa using ended), String.toList_append, spelled, List.append_assoc,
      List.singleton_append, componentsOf_append_slash]
  · rw [if_neg (by simpa using ended), String.toList_append, String.toList_append,
      List.append_assoc]
    show componentsOf (path.text.toList ++ '/' :: other.text.toList) = _
    rw [componentsOf_append_slash, componentsOf_append_singleton_slash text]

/-- A path without text adds nothing in front of what is joined to it. -/
theorem join_of_empty {path other : Path} (empty : path.text = "") : path.join other = other := by
  rw [join]
  split
  · rfl
  · simp [empty]

end Path

end BarrelSynthesis
