/-
# Parents of spelled paths

The parent of a path is cut from its spelling: segments at the end that are no component go first, then
the last component, then again what is no component. However a path is spelled, its parent has the
components of the path without the last one.
-/
import BarrelSynthesis.Proofs.Path.Sibling

namespace BarrelSynthesis

namespace Path

open Component

/-- The components of some segments that a separator follows. -/
def componentsBefore : List (List Char) → List Component
  | [] => []
  | first :: rest =>
    (if first = [] then [root]
     else if first = ['.'] then [here]
     else (ofSegment? first).toList) ++ rest.filterMap ofSegment?

/-- The components of a path that is not empty are those of its segments. -/
theorem components_eq_componentsBefore {path : Path} (filled : path.text.toList ≠ []) :
    path.components = componentsBefore (Text.pieces '/' path.text.toList) := by
  rw [components, componentsOf]
  cases Text.pieces '/' path.text.toList with
  | nil => rfl
  | cons first rest => simp only [filled, if_false, componentsBefore]

/-- One segment more is one component more, if it is one. -/
theorem componentsBefore_append_singleton {segments : List (List Char)} (nonempty : segments ≠ [])
    (last : List Char) :
    componentsBefore (segments ++ [last]) =
      componentsBefore segments ++ (ofSegment? last).toList := by
  cases segments with
  | nil => exact absurd rfl nonempty
  | cons first rest =>
      have single : [last].filterMap ofSegment? = (ofSegment? last).toList := by
        rw [List.filterMap_cons]
        cases ofSegment? last <;> rfl
      rw [List.cons_append, componentsBefore, componentsBefore, List.filterMap_append, single,
        List.append_assoc]

/-- A single segment has one component at most. -/
theorem length_componentsBefore_singleton_le (segment : List Char) :
    (componentsBefore [segment]).length ≤ 1 := by
  rw [componentsBefore]
  split
  · exact Nat.le_refl 1
  split
  · exact Nat.le_refl 1
  · cases ofSegment? segment <;> simp

/-- A segment that is neither empty nor `.` is a component. -/
theorem exists_ofSegment? {segment : List Char} (significant : ¬(segment = [] ∨ segment = ['.'])) :
    ∃ component, ofSegment? segment = some component := by
  rw [ofSegment?, if_neg significant]
  split
  · exact ⟨_, rfl⟩
  · exact ⟨_, rfl⟩

/-! ## The significant segments -/

/-- Leaving trailing segments out leaves a tail of the segments seen from the back. -/
theorem significantFromBack_suffix (back : List (List Char)) : significantFromBack back <:+ back := by
  fun_induction significantFromBack back with
  | case1 => exact List.suffix_refl _
  | case2 first => exact List.suffix_refl _
  | case3 last before _ _ ih => exact ih.trans (List.suffix_cons _ _)
  | case4 last before _ _ => exact List.suffix_refl _

/-- What is dropped at the end is no component. -/
theorem componentsBefore_significantFromBack (back : List (List Char)) :
    componentsBefore (significantFromBack back).reverse = componentsBefore back.reverse := by
  fun_induction significantFromBack back with
  | case1 => rfl
  | case2 first => rfl
  | case3 last before several blank ih =>
      have nothing : ofSegment? last = none := if_pos blank
      have nonempty : before.reverse ≠ [] := fun none => several (List.reverse_eq_nil_iff.mp none)
      rw [ih, List.reverse_cons, componentsBefore_append_singleton nonempty, nothing]
      exact (List.append_nil _).symm
  | case4 last before _ _ => rfl

/-- What stays at the end behind other segments is a component. -/
theorem significant_of_significantFromBack {back before : List (List Char)} {last : List Char}
    (kept : significantFromBack back = last :: before) (several : before ≠ []) :
    ¬(last = [] ∨ last = ['.']) := by
  fun_induction significantFromBack back with
  | case1 => cases kept
  | case2 first => exact absurd (List.cons.inj kept).2.symm several
  | case3 last before _ _ ih => exact ih kept
  | case4 last before _ significant =>
      obtain ⟨rfl, -⟩ := List.cons.inj kept
      exact significant

/-- The first segment always stays. -/
theorem significantFromBack_ne_nil {back : List (List Char)} (nonempty : back ≠ []) :
    significantFromBack back ≠ [] := by
  fun_induction significantFromBack back with
  | case1 => exact nonempty
  | case2 first => exact List.cons_ne_nil _ _
  | case3 last before several _ ih => exact ih several
  | case4 last before _ _ => exact List.cons_ne_nil _ _

/-- Segments glued together are read again, unless they are a single empty one. -/
theorem components_glue {segments : List (List Char)} (nonempty : segments ≠ [])
    (clean : ∀ segment ∈ segments, '/' ∉ segment) (visible : segments ≠ [[]]) :
    components ⟨String.ofList (Text.glue '/' segments)⟩ = componentsBefore segments := by
  have cut := Text.pieces_glue nonempty clean
  have spelled : (String.ofList (Text.glue '/' segments)).toList = Text.glue '/' segments :=
    String.toList_ofList
  rw [components_eq_componentsBefore, spelled, cut]
  rw [spelled]
  intro empty
  rw [empty] at cut
  exact visible cut.symm

/-- The spelling of a folder is read as the segments it was glued from. -/
theorem exists_spelling {back : List (List Char)} :
    back ≠ [] → (∀ segment ∈ back, '/' ∉ segment) →
      ∃ folder : Path,
        (match back with
          | [[]] => some ⟨"/"⟩
          | segments => some ⟨String.ofList (Text.glue '/' segments.reverse)⟩) = some folder ∧
        folder.components = componentsBefore back.reverse := by
  intro nonempty clean
  split
  · exact ⟨⟨"/"⟩, rfl, rfl⟩
  · next several =>
      refine ⟨_, rfl, components_glue ?_ ?_ ?_⟩
      · exact fun none => nonempty (List.reverse_eq_nil_iff.mp none)
      · exact fun segment listed => clean segment (List.mem_reverse.mp listed)
      · exact fun single => several (List.reverse_eq_iff.mp single)

/-- A name that is all there is stands alone, in a segment that is not empty. -/
theorem eq_nil_of_componentsBefore_singleton {segment : List Char} {front : List Component}
    {text : String} (read : componentsBefore [segment] = front ++ [name text]) :
    front = [] ∧ segment ≠ [] := by
  have short := length_componentsBefore_singleton_le segment
  rw [read, List.length_append, List.length_singleton] at short
  have alone : front = [] := List.length_eq_zero_iff.mp (by omega)
  refine ⟨alone, ?_⟩
  rintro rfl
  rw [alone] at read
  cases read

/-- What stays of some segments before a significant one spells a folder, with the components before the
last one. -/
theorem exists_folder_before {segments before : List (List Char)} {last : List Char}
    {front : List Component} {text : String}
    (clean : ∀ segment ∈ segments, '/' ∉ segment)
    (kept : significantFromBack segments = last :: before) (several : before ≠ [])
    (read : componentsBefore (before.reverse ++ [last]) = front ++ [name text]) :
    ∃ folder : Path,
      (match significantFromBack before with
        | [[]] => some ⟨"/"⟩
        | segments => some ⟨String.ofList (Text.glue '/' segments.reverse)⟩) = some folder ∧
      folder.components = front := by
  obtain ⟨component, single⟩ :=
    exists_ofSegment? (significant_of_significantFromBack kept several)
  have nonempty : before.reverse ≠ [] := fun none => several (List.reverse_eq_nil_iff.mp none)
  rw [componentsBefore_append_singleton nonempty, single] at read
  have ahead := (List.append_inj' read rfl).1
  rw [← componentsBefore_significantFromBack] at ahead
  have cleanBefore : ∀ segment ∈ significantFromBack before, '/' ∉ segment := by
    intro segment listed
    have behind := (significantFromBack_suffix before).subset listed
    have inside := (significantFromBack_suffix segments).subset
      (kept ▸ List.mem_cons_of_mem last behind)
    exact clean segment inside
  obtain ⟨folder, spelled, same⟩ :=
    exists_spelling (significantFromBack_ne_nil several) cleanBefore
  exact ⟨folder, spelled, same.trans ahead⟩

/-- A path that ends in a name has a parent with the components before this name. -/
theorem exists_parent_of_components {path : Path} {front : List Component} {text : String}
    (shape : path.components = front ++ [name text]) :
    ∃ folder, path.parent? = some folder ∧ folder.components = front := by
  have filled : path.text.toList ≠ [] := by
    intro empty
    rw [components, empty] at shape
    exact List.append_ne_nil_of_right_ne_nil _ (List.cons_ne_nil _ _) shape.symm
  have read := componentsBefore_significantFromBack (Text.pieces '/' path.text.toList).reverse
  rw [List.reverse_reverse, ← components_eq_componentsBefore filled, shape] at read
  rw [parent?]
  cases kept : significantFromBack (Text.pieces '/' path.text.toList).reverse with
  | nil =>
      rw [kept] at read
      exact absurd read.symm (List.append_ne_nil_of_right_ne_nil _ (List.cons_ne_nil _ _))
  | cons last before =>
      rw [kept, List.reverse_cons] at read
      cases before with
      | nil =>
          obtain ⟨alone, visible⟩ := eq_nil_of_componentsBefore_singleton read
          exact ⟨⟨""⟩, if_neg visible, alone.symm⟩
      | cons next more =>
          refine exists_folder_before (fun segment listed => ?_) kept (List.cons_ne_nil _ _) read
          exact Text.notMem_of_mem_pieces (List.mem_reverse.mp listed)

/-- A path that ends in a name has a parent, and the name is what the parent lacks. -/
theorem exists_parent_of_fileName? {path : Path} {text : String}
    (named : path.fileName? = some text) :
    ∃ folder, path.parent? = some folder ∧ path.components = folder.components ++ [name text] := by
  obtain ⟨front, shape⟩ := List.getLast?_eq_some_iff.mp (fileName?_eq_some_iff.mp named)
  obtain ⟨folder, parent, same⟩ := exists_parent_of_components shape
  exact ⟨folder, parent, by rw [shape, same]⟩

/-- The parent of a normalized path is normalized, and lacks its last component. Neither the root nor the
empty path has one. -/
theorem parent?_eq_some_iff {path folder : Path} (normal : path.normalize = path) :
    path.parent? = some folder ↔
      folder.normalize = folder ∧ ∃ last, path.components = folder.components ++ [last] ∧
        last.IsSegment := by
  have spelled := path.wellSpelled_components
  have plainly := ofComponents_components normal
  constructor
  · intro parent
    have stacked := isNormalStack_components normal
    rw [← plainly] at parent
    rcases List.eq_nil_or_concat path.components with empty | ⟨front, last, shape⟩
    · have orphan : (ofComponents []).parent? = none := by decide
      rw [empty, orphan] at parent
      cases parent
    rw [List.concat_eq_append] at shape
    rw [shape] at spelled parent
    have stacked : IsNormalStack (last :: front.reverse) := by
      rwa [shape, List.reverse_append] at stacked
    rcases stacked.segments last List.mem_cons_self with rfl | segment
    · have alone : front = [] := by
        cases front with
        | nil => rfl
        | cons first rest =>
            exact absurd rfl (spelled.2 root (List.mem_append_right _ List.mem_cons_self)).ne_root
      have orphan : (ofComponents [root]).parent? = none := by decide
      rw [alone, List.nil_append, orphan] at parent
      cases parent
    · rw [parent?_ofComponents spelled segment] at parent
      obtain rfl := Option.some.inj parent
      have read := components_ofComponents spelled.front
      refine ⟨?_, last, by rw [read, shape], segment⟩
      have kept := stacked.tail.foldl_reverse
      rw [List.reverse_reverse] at kept
      rw [normalize, read, normalizeComponents, kept, List.reverse_reverse]
  · rintro ⟨folderNormal, last, shape, segment⟩
    rw [shape] at spelled plainly
    rw [← plainly, parent?_ofComponents spelled segment, ofComponents_components folderNormal]

/-- The parent of a name put below a normalized folder is the folder. -/
theorem parent?_join {folder : Path} {text : String} (normal : folder.normalize = folder)
    (segment : (name text).IsSegment) : (folder.join ⟨text⟩).parent? = some folder := by
  have spelled := (folder.join ⟨text⟩).wellSpelled_components
  rw [components_join_name folder segment] at spelled
  rw [join_eq_ofComponents normal segment, parent?_ofComponents spelled segment,
    ofComponents_components normal]

end Path

end BarrelSynthesis
