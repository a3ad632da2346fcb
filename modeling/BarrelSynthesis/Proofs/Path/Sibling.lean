/-
# Names in a folder

A name put below a folder is its last component, and a normalized folder with a name below it is
normalized. The texts of files in one folder differ by their names alone, so a text put behind the path of
a file makes the path of the file with that longer name.
-/
import BarrelSynthesis.Proofs.Path.Normal

namespace BarrelSynthesis

namespace Component

/-- A name is a component of its own when it is not empty, neither `.` nor `..`, and has no separator. -/
theorem isSegment_name_iff {text : String} :
    (name text).IsSegment ↔
      text ≠ "" ∧ text ≠ "." ∧ text ≠ ".." ∧ '/' ∉ text.toList := by
  have letters (text : String) (cs : List Char) : text.toList = cs ↔ text = String.ofList cs := by
    rw [← String.toList_inj, String.toList_ofList]
  constructor
  · rintro ⟨read, whole⟩
    rw [label, ofSegment?] at read
    split at read
    · cases read
    · next significant =>
        split at read
        · cases read
        · next level =>
            rw [letters, letters, not_or] at significant
            rw [letters] at level
            exact ⟨significant.1, significant.2, level, whole⟩
  · rintro ⟨filled, still, level, whole⟩
    refine ⟨?_, whole⟩
    rw [label, ofSegment?, if_neg, if_neg, String.ofList_toList]
    · rw [letters]
      exact level
    · rw [letters, letters, not_or]
      exact ⟨filled, still⟩

theorem IsSegment.name_whole {text : String} (segment : (name text).IsSegment) :
    '/' ∉ text.toList := segment.whole

end Component

namespace Path

open Component

variable {folder : Path} {text : String}

/-- A text without a separator is a relative path. -/
theorem not_isAbsolute_of_notMem (whole : '/' ∉ text.toList) : isAbsolute ⟨text⟩ = false := by
  rw [isAbsolute, decide_eq_false_iff_not]
  exact fun slash => whole (List.mem_of_head? slash)

/-- It is read as one name. -/
theorem components_of_isSegment (segment : (name text).IsSegment) :
    components ⟨text⟩ = [name text] := by
  have cut : Text.pieces '/' text.toList = [text.toList] := Text.pieces_of_notMem segment.name_whole
  have visible : text.toList ≠ [] ∧ text.toList ≠ ['.'] := segment.label_ne
  have read : ofSegment? text.toList = some (name text) := segment.read
  simp [components, componentsOf, cut, visible, read]

/-- A name put below a folder is the last component. -/
theorem components_join_name (folder : Path) (segment : (name text).IsSegment) :
    (folder.join ⟨text⟩).components = folder.components ++ [name text] := by
  have single := components_of_isSegment segment
  by_cases empty : folder.text = ""
  · have blank : folder.components = [] := by
      rw [components, empty]
      rfl
    rw [join_of_empty empty, single, blank]
    rfl
  · have relative : isAbsolute ⟨text⟩ = false := not_isAbsolute_of_notMem segment.name_whole
    rw [components_join relative empty, single]
    rfl

/-- A name put behind a folder is the file name of the whole. -/
theorem fileName?_join (folder : Path) (segment : (name text).IsSegment) :
    (folder.join ⟨text⟩).fileName? = some text := by
  rw [fileName?_eq_some_iff, components_join_name folder segment, List.getLast?_append]
  rfl

/-- A text behind the path of a file lengthens its name. -/
theorem text_join_append (folder : Path) {front behind : String}
    (frontWhole : '/' ∉ front.toList) (behindWhole : '/' ∉ behind.toList) :
    (folder.join ⟨front ++ behind⟩).text = (folder.join ⟨front⟩).text ++ behind := by
  have whole : '/' ∉ (front ++ behind).toList := by
    rw [String.toList_append, List.mem_append, not_or]
    exact ⟨frontWhole, behindWhole⟩
  simp only [join, not_isAbsolute_of_notMem frontWhole, not_isAbsolute_of_notMem whole,
    Bool.false_eq_true, if_false]
  split <;> simp only [String.append_assoc]

/-- Files of one folder are told apart by their names. -/
theorem join_right_injective (folder : Path) {first second : String}
    (firstWhole : '/' ∉ first.toList) (secondWhole : '/' ∉ second.toList)
    (same : folder.join ⟨first⟩ = folder.join ⟨second⟩) : first = second := by
  have texts := congrArg Path.text same
  simp only [join, not_isAbsolute_of_notMem firstWhole, not_isAbsolute_of_notMem secondWhole,
    Bool.false_eq_true, if_false] at texts
  split at texts
  · exact (String.append_right_inj _).mp texts
  · exact (String.append_right_inj _).mp texts

/-! ## Below a normalized folder -/

/-- Folding the components of a normalized folder stacks them all. -/
theorem foldl_components (normal : folder.normalize = folder) :
    folder.components.foldl fold [] = folder.components.reverse := by
  have kept := components_normalize folder
  rw [normal, normalizeComponents] at kept
  rw [kept, List.reverse_reverse, ← kept]

/-- Folding a normalized folder leaves its components, nearest first, and these are a normal stack. -/
theorem isNormalStack_components (normal : folder.normalize = folder) :
    IsNormalStack folder.components.reverse := by
  rw [← foldl_components normal]
  exact isNormalStack_foldl folder.wellSpelled_components

/-- A name behind a normalized folder is one more component. -/
theorem normalize_join_name (normal : folder.normalize = folder) (segment : (name text).IsSegment) :
    (folder.join ⟨text⟩).normalize = ofComponents (folder.components ++ [name text]) := by
  rw [normalize, components_join_name folder segment, normalizeComponents_append_name,
    ← components_normalize, normal]

/-- The last character of a normalized folder is a separator only at the root. -/
theorem getLast?_text_ne (normal : folder.normalize = folder) (filled : folder.components ≠ [])
    (below : folder.components ≠ [root]) : folder.text.toList.getLast? ≠ some '/' := by
  intro ended
  obtain ⟨front, spelled⟩ := List.getLast?_eq_some_iff.mp ended
  have cut := pieces_ofComponents folder.wellSpelled_components filled below
  rw [ofComponents_components normal, spelled, Text.pieces_append_cons] at cut
  have last : (segmentsOf folder.components).getLast? = some [] := by
    rw [← cut, List.getLast?_append]
    rfl
  rcases List.eq_nil_or_concat folder.components with empty | ⟨before, component, shape⟩
  · exact filled empty
  · rw [List.concat_eq_append] at shape
    have spelling := folder.wellSpelled_components
    rw [shape] at spelling last below
    cases before with
    | nil =>
        obtain ⟨rfl | rfl | segment, -⟩ := spelling
        · exact below rfl
        · exact absurd last (by decide)
        · rw [List.nil_append, segmentsOf_of_ne_root [] segment.ne_root] at last
          exact segment.label_ne.1 (by simpa using last)
    | cons first rest =>
        have segment : component.IsSegment := spelling.2 component (by simp)
        rw [segmentsOf_append (List.cons_ne_nil _ _), List.getLast?_append] at last
        exact segment.label_ne.1 (by simpa using last)

/-- A normalized folder with a name below it is spelled as plainly as it can be. -/
theorem join_eq_ofComponents (normal : folder.normalize = folder)
    (segment : (name text).IsSegment) :
    folder.join ⟨text⟩ = ofComponents (folder.components ++ [name text]) := by
  have relative : isAbsolute ⟨text⟩ = false := not_isAbsolute_of_notMem segment.name_whole
  have spelled := ofComponents_components normal
  by_cases filled : folder.components = []
  · have empty : folder.text = "" := by
      rw [← spelled, filled]
      rfl
    rw [join_of_empty empty, filled]
    rfl
  by_cases below : folder.components = [root]
  · have slash : folder.text = "/" := by
      rw [← spelled, below]
      rfl
    rw [join, relative, below, slash]
    rfl
  have lower : folder.components ++ [name text] ≠ [root] := by
    intro same
    have last := congrArg List.getLast? same
    rw [List.getLast?_append] at last
    cases last
  have unfilled : folder.text.isEmpty = false := by
    simpa using fun empty : folder.text = "" => filled (by rw [components, empty]; rfl)
  have glued : folder.text.toList = Text.glue '/' (segmentsOf folder.components) := by
    rw [← String.toList_ofList (l := Text.glue '/' (segmentsOf folder.components)),
      ← text_ofComponents below, spelled]
  have spelling : (ofComponents (folder.components ++ [name text])).text =
      folder.text ++ "/" ++ text := by
    rw [text_ofComponents lower, segmentsOf_append filled, ← String.toList_inj,
      String.toList_ofList, String.toList_append, String.toList_append, glued, List.append_assoc]
    exact Text.glue_append_singleton (segmentsOf_ne_nil filled) _
  rw [join, relative, unfilled]
  simp only [getLast?_text_ne normal filled below, Bool.false_eq_true, Bool.false_or, if_false,
    decide_false]
  rw [← spelling]

/-- So the whole is normalized too. -/
theorem normalize_join (normal : folder.normalize = folder) (segment : (name text).IsSegment) :
    (folder.join ⟨text⟩).normalize = folder.join ⟨text⟩ := by
  rw [normalize_join_name normal segment, join_eq_ofComponents normal segment]

/-- A normalized path that ends in a name is that name in a normalized folder. -/
theorem exists_folder_of_fileName? {path : Path} (normal : path.normalize = path)
    (named : path.fileName? = some text) :
    ∃ folder : Path, folder.normalize = folder ∧ path = folder.join ⟨text⟩ := by
  obtain ⟨front, shape⟩ := List.getLast?_eq_some_iff.mp (fileName?_eq_some_iff.mp named)
  have segment := isSegment_of_fileName? named
  have spelled := path.wellSpelled_components
  rw [shape] at spelled
  have read := components_ofComponents spelled.front
  have stacked := foldl_components normal
  rw [shape, List.foldl_append, List.reverse_append] at stacked
  have kept : normalizeComponents front = front := by
    have below : front.foldl fold [] = front.reverse := (List.cons.inj stacked).2
    rw [normalizeComponents, below, List.reverse_reverse]
  have folderNormal : (ofComponents front).normalize = ofComponents front := by
    rw [normalize, read, kept]
  refine ⟨ofComponents front, folderNormal, ?_⟩
  rw [join_eq_ofComponents folderNormal segment, read, ← shape, ofComponents_components normal]

/-- The normalized paths that end in no name. -/
def unnamedPaths : List Path :=
  [⟨""⟩, ⟨"/"⟩, ⟨".."⟩, ⟨"/.."⟩]

/-- These four paths are all of that kind. -/
theorem mem_unnamedPaths {path : Path} (normal : path.normalize = path)
    (unnamed : path.fileName? = none) : path ∈ unnamedPaths := by
  obtain ⟨texts, bottom, shape, kinds⟩ := (isNormalStack_components normal).shape
  rw [← ofComponents_components normal, ← List.reverse_reverse path.components, shape]
  cases texts with
  | cons text rest =>
      have last : path.components.getLast? = some (name text) := by
        rw [← List.head?_reverse, shape]
        rfl
      rw [fileName?_eq_some_iff.mpr last] at unnamed
      cases unnamed
  | nil => rcases kinds with rfl | rfl | rfl | rfl <;> decide

/-- A normalized path that ends in no name is spelled like one whose name is empty or is two dots. -/
theorem exists_folder_of_fileName?_eq_none {path : Path} (normal : path.normalize = path)
    (unnamed : path.fileName? = none) :
    ∃ folder : Path, ∃ label ∈ ["", ".."], folder.normalize = folder ∧ path = folder.join ⟨label⟩ ∧
      folder.components.length ≤ path.components.length := by
  have listed := mem_unnamedPaths normal unnamed
  simp only [unnamedPaths, List.mem_cons, List.not_mem_nil, or_false] at listed
  rcases listed with rfl | rfl | rfl | rfl
  · exact ⟨⟨""⟩, "", by decide⟩
  · exact ⟨⟨"/"⟩, "", by decide⟩
  · exact ⟨⟨""⟩, "..", by decide⟩
  · exact ⟨⟨"/"⟩, "..", by decide⟩

/-- A file is another path than its folder. -/
theorem join_name_ne_self (segment : (name text).IsSegment) :
    folder.join ⟨text⟩ ≠ folder := by
  intro same
  have shape := components_join_name folder segment
  rw [same] at shape
  have lengths := congrArg List.length shape
  simp at lengths

/-- A file lies in one normalized folder only. -/
theorem join_left_injective {first second : Path} {other : String}
    (firstNormal : first.normalize = first) (secondNormal : second.normalize = second)
    (segment : (name text).IsSegment) (otherSegment : (name other).IsSegment)
    (same : first.join ⟨text⟩ = second.join ⟨other⟩) : first = second := by
  have shape := components_join_name first segment
  rw [same, components_join_name second otherSegment] at shape
  exact eq_of_components_eq firstNormal secondNormal (List.append_inj_left' shape rfl).symm

/-- Climbing from a normalized folder leaves it, except at the root and where no folder is left. -/
theorem length_fold_up (normal : folder.normalize = folder) (deep : folder.text ≠ "")
    (below : folder.text ≠ "/") :
    (fold folder.components.reverse up).length + 1 = folder.components.length := by
  obtain ⟨texts, bottom, shape, kinds⟩ := (isNormalStack_components normal).shape
  have spelled := ofComponents_components normal
  rw [← List.reverse_reverse folder.components, shape] at spelled
  have length : folder.components.length = folder.components.reverse.length :=
    List.length_reverse.symm
  rw [length, shape]
  cases texts with
  | cons text rest => rfl
  | nil =>
      rcases kinds with rfl | rfl | rfl | rfl
      · exact absurd (congrArg Path.text spelled).symm deep
      · exact absurd (congrArg Path.text spelled).symm below
      · rfl
      · rfl

end Path

end BarrelSynthesis
