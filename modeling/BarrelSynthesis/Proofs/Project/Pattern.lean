/-
# Files that a pattern includes

The segments of an include pattern are read like those of a path, from the folder of the project or, when the
pattern begins with a separator, from the root. Within a segment `*` stands for any characters and `?` for any
one, and the segment `**` stands for any number of folders. A pattern without wildcards includes what lies below
the place it leads to as well.

The folder that is derived from a pattern is put together from the segments before its first wildcard, always
below the folder of the project. For a pattern that begins there, all that it includes lies in that folder, unless
it climbs above the root an odd number of times: normalizing keeps a `..` behind the root. A pattern that begins
with a separator loses it, so that its folder is in general not the one whose files it includes.
-/
import BarrelSynthesis.Project.Configuration
import BarrelSynthesis.Proofs.Path.Walking

namespace BarrelSynthesis

namespace Pattern

open Component (root here up name ofSegment?)
open BarrelSynthesis.Path (walk LeadAlike Course)

/-! ## What a pattern includes -/

/-- Whether a segment with wildcards stands for a name. -/
def fits : List Char → List Char → Bool
  | [], text => text.isEmpty
  | c :: glob, text =>
    if c = '*' then text.tails.any (fits glob)
    else
      match text with
      | [] => false
      | d :: rest => (c = '?' || c = d) && fits glob rest

/-- Whether a segment of a pattern stands for some components. -/
def StandsFor (segment : List Char) (components : List Component) : Prop :=
  if segment = ['*', '*'] then ∃ texts : List String, components = texts.map name
  else if isWildcard segment then
    ∃ text : String, fits segment text.toList = true ∧ components = [name text]
  else components = (ofSegment? segment).toList

/-- Whether the segments of a pattern stand for some components, each for a stretch of them. -/
def StandFor : List (List Char) → List Component → Prop
  | [], components => components = []
  | segment :: rest, components =>
    ∃ front behind, components = front ++ behind ∧ StandsFor segment front ∧ StandFor rest behind

/-- The segments of a pattern. -/
def segments (pattern : String) : List (List Char) :=
  Text.pieces '/' pattern.toList

/-- The segments before the first one with wildcards. -/
def plain (pattern : String) : List (List Char) :=
  (segments pattern).takeWhile fun segment => !isWildcard segment

/-- The segments from the first one with wildcards on. -/
def wild (pattern : String) : List (List Char) :=
  (segments pattern).dropWhile fun segment => !isWildcard segment

/-- The folder from which a pattern is read. -/
def start (rootDir : Path) (pattern : String) : Path :=
  if Path.isAbsolute ⟨pattern⟩ then ⟨"/"⟩ else rootDir

/-- Whether a pattern of a project in a folder includes a file: the file lies where the pattern can lead, or below
when the pattern has no wildcards, and is not spelled as if it lay above the root. -/
def Includes (rootDir : Path) (pattern : String) (file : Path) : Prop :=
  (∃ (inside : List Component) (below : List String),
    StandFor (segments pattern) inside ∧ (below = [] ∨ wild pattern = []) ∧
      LeadAlike file.components
        ((start rootDir pattern).components ++ inside ++ below.map name)) ∧
    ¬[root, up] <+: file.normalize.components

/-- The components of a pattern before its first wildcard. -/
def plainComponents (pattern : String) : List Component :=
  (plain pattern).filterMap ofSegment?

/-- The place, from the root, that a pattern leads to before its first wildcard. -/
def plainPlace (start : Path) (pattern : String) : List Component :=
  root :: (walk [] (start.components ++ plainComponents pattern)).reverse.map name

/-! ## Segments -/

theorem segments_eq (pattern : String) : segments pattern = plain pattern ++ wild pattern :=
  List.takeWhile_append_dropWhile.symm

/-- A segment is read by itself, whatever stands behind it. -/
theorem filterMap_ofSegment?_cons (segment : List Char) (rest : List (List Char)) :
    (segment :: rest).filterMap ofSegment? =
      (ofSegment? segment).toList ++ rest.filterMap ofSegment? := by
  rw [List.filterMap_cons]
  cases ofSegment? segment <;> rfl

/-- A segment holds no slash, because a pattern is taken apart there. -/
theorem slash_notMem_of_mem_segments {pattern : String} {segment : List Char}
    (member : segment ∈ segments pattern) : '/' ∉ segment :=
  Text.notMem_of_mem_pieces member

theorem slash_notMem_of_mem_plain {pattern : String} {segment : List Char}
    (member : segment ∈ plain pattern) : '/' ∉ segment :=
  slash_notMem_of_mem_segments (List.takeWhile_subset _ member)

/-- What stands before the first wildcard has none. -/
theorem isWildcard_of_mem_plain {pattern : String} {segment : List Char}
    (member : segment ∈ plain pattern) : isWildcard segment = false := by
  simpa using List.all_eq_true.mp List.all_takeWhile segment member

/-- Segments stand for what their parts stand for, one part behind the other. -/
theorem standFor_append {front behind : List (List Char)} {components : List Component} :
    StandFor (front ++ behind) components ↔
      ∃ first second, components = first ++ second ∧ StandFor front first ∧
        StandFor behind second := by
  induction front generalizing components with
  | nil =>
      constructor
      · exact fun stands => ⟨[], components, rfl, rfl, stands⟩
      · rintro ⟨first, second, rfl, rfl, stands⟩
        exact stands
  | cons segment rest ih =>
      constructor
      · rintro ⟨one, others, rfl, stands, more⟩
        obtain ⟨first, second, rfl, left, right⟩ := ih.mp more
        exact ⟨one ++ first, second, (List.append_assoc ..).symm, ⟨one, first, rfl, stands, left⟩, right⟩
      · rintro ⟨first, second, rfl, ⟨one, others, rfl, stands, left⟩, right⟩
        exact ⟨one, others ++ second, List.append_assoc .., stands,
          ih.mpr ⟨others, second, rfl, left, right⟩⟩

/-- A segment without wildcards stands for the component that it is read as, or for nothing. -/
theorem standsFor_iff_of_plain {segment : List Char} {components : List Component}
    (still : isWildcard segment = false) :
    StandsFor segment components ↔ components = (ofSegment? segment).toList := by
  have level : segment ≠ ['*', '*'] := by
    rintro rfl
    exact absurd still (by decide)
  rw [StandsFor, if_neg level, if_neg (by rw [still]; decide)]

/-- Segments without wildcards stand for what they are in a path. -/
theorem standFor_iff_of_plain {list : List (List Char)} {components : List Component}
    (still : ∀ segment ∈ list, isWildcard segment = false) :
    StandFor list components ↔ components = list.filterMap ofSegment? := by
  induction list generalizing components with
  | nil => rfl
  | cons segment rest ih =>
      have own := still segment List.mem_cons_self
      have later {components : List Component} :
          StandFor rest components ↔ components = rest.filterMap ofSegment? :=
        ih fun other member => still other (List.mem_cons_of_mem _ member)
      rw [StandFor, filterMap_ofSegment?_cons]
      constructor
      · rintro ⟨front, behind, rfl, first, others⟩
        rw [(standsFor_iff_of_plain own).mp first, later.mp others]
      · intro shape
        exact ⟨_, _, shape, (standsFor_iff_of_plain own).mpr rfl, later.mpr rfl⟩

/-- A segment that is not `..` stands for names, since wildcards match no `..`. -/
theorem exists_names_of_standsFor {segment : List Char} {components : List Component}
    (level : segment ≠ ['.', '.']) (stands : StandsFor segment components) :
    ∃ texts : List String, components = texts.map name := by
  rw [StandsFor] at stands
  split at stands
  · exact stands
  split at stands
  · obtain ⟨text, -, rfl⟩ := stands
    exact ⟨[text], rfl⟩
  · subst stands
    rw [ofSegment?]
    split
    · exact ⟨[], rfl⟩
    · exact ⟨[String.ofList segment], rfl⟩

/-- Segments that do not climb stand for names. -/
theorem exists_names_of_standFor {list : List (List Char)} {components : List Component}
    (level : ∀ segment ∈ list, segment ≠ ['.', '.']) (stand : StandFor list components) :
    ∃ texts : List String, components = texts.map name := by
  induction list generalizing components with
  | nil => exact ⟨[], stand⟩
  | cons segment rest ih =>
      obtain ⟨front, behind, rfl, first, others⟩ := stand
      obtain ⟨texts, rfl⟩ := exists_names_of_standsFor (level segment List.mem_cons_self) first
      obtain ⟨more, rfl⟩ := ih (fun other member => level other (List.mem_cons_of_mem _ member)) others
      exact ⟨texts ++ more, (List.map_append ..).symm⟩

/-- What a pattern can stand for begins with its components before the first wildcard. Behind them are names, if
no `..` stands behind a wildcard. -/
theorem exists_names_of_standFor_segments {pattern : String} {inside : List Component}
    (level : ∀ segment ∈ wild pattern, segment ≠ ['.', '.'])
    (stand : StandFor (segments pattern) inside) :
    ∃ texts : List String, inside = plainComponents pattern ++ texts.map name ∧
      StandFor (wild pattern) (texts.map name) := by
  rw [segments_eq, standFor_append] at stand
  obtain ⟨first, second, rfl, left, right⟩ := stand
  rw [standFor_iff_of_plain fun segment => isWildcard_of_mem_plain] at left
  obtain ⟨texts, rfl⟩ := exists_names_of_standFor level right
  exact ⟨texts, by rw [left, plainComponents], right⟩

/-! ## The folder that is derived -/

/-- A segment is a relative path of one component at most. -/
theorem components_single {segment : List Char} (whole : '/' ∉ segment) :
    Path.isAbsolute ⟨String.ofList segment⟩ = false ∧
      (Path.components ⟨String.ofList segment⟩).filter (· ≠ here) = (ofSegment? segment).toList := by
  have spelled : (String.ofList segment).toList = segment := String.toList_ofList
  have head : segment.head? ≠ some '/' := fun slash => whole (List.mem_of_head? slash)
  constructor
  · rw [Path.isAbsolute, spelled]
    exact decide_eq_false head
  · rw [Path.components, spelled, Path.filter_componentsOf_of_relative head,
      Text.pieces_of_notMem whole, filterMap_ofSegment?_cons]
    exact List.append_nil _

/-- Segments put below a relative path, one after the other. -/
theorem filter_components_foldl_join {list : List (List Char)} {path : Path}
    (relative : path.isAbsolute = false) (whole : ∀ segment ∈ list, '/' ∉ segment) :
    let folder := list.foldl (fun path segment => path.join ⟨String.ofList segment⟩) path
    folder.isAbsolute = false ∧
      folder.components.filter (· ≠ here) =
        path.components.filter (· ≠ here) ++ list.filterMap ofSegment? := by
  induction list generalizing path with
  | nil => exact ⟨relative, (List.append_nil _).symm⟩
  | cons segment rest ih =>
      obtain ⟨level, single⟩ := components_single (whole segment List.mem_cons_self)
      have below := ih ((Path.isAbsolute_join level).trans relative) fun other member =>
        whole other (List.mem_cons_of_mem _ member)
      have joined : (path.join ⟨String.ofList segment⟩).components.filter (· ≠ here) =
          path.components.filter (· ≠ here) ++ (ofSegment? segment).toList := by
        by_cases empty : path.text = ""
        · have blank : path.components = [] := by rw [Path.components, empty]; rfl
          rw [Path.join_of_empty empty, single, blank]
          rfl
        · rw [Path.components_join level empty, List.filter_append, List.filter_filter, ← single]
          simp
      refine ⟨below.1, below.2.trans ?_⟩
      rw [joined, filterMap_ofSegment?_cons, List.append_assoc]

/-- The segments that the folder of a pattern is put together from. -/
def folders (pattern : String) : List (List Char) :=
  if ((plain pattern).getLast?.map looksLikeFile).getD false
      && (plain pattern).length = (segments pattern).length then
    (plain pattern).dropLast
  else plain pattern

theorem patternFolder_eq (pattern : String) :
    patternFolder pattern =
      (folders pattern).foldl (fun path segment => path.join ⟨String.ofList segment⟩) ⟨""⟩ := rfl

/-- What looks like a file is a name, and neither a dot nor `..`. -/
theorem exists_name_of_looksLikeFile {segment : List Char} (file : looksLikeFile segment = true) :
    ∃ text, ofSegment? segment = some (name text) := by
  simp only [looksLikeFile, Bool.and_eq_true, decide_eq_true_eq, List.contains_iff_mem] at file
  obtain ⟨⟨dotted, still⟩, level⟩ := file
  have filled : segment ≠ [] := List.ne_nil_of_mem dotted
  exact ⟨String.ofList segment, by rw [ofSegment?, if_neg (not_or.mpr ⟨filled, still⟩), if_neg level]⟩

/-- Before the first wildcard stand the segments of the folder and at most the name of a file. -/
theorem exists_file_behind_folders (pattern : String) :
    ∃ (file : List (List Char)) (texts : List String),
      plain pattern = folders pattern ++ file ∧ file.filterMap ofSegment? = texts.map name := by
  rw [folders]
  split
  · next isFile =>
      cases last : (plain pattern).getLast? with
      | none => simp [last] at isFile
      | some segment =>
          rw [last, Bool.and_eq_true] at isFile
          obtain ⟨text, read⟩ := exists_name_of_looksLikeFile isFile.1
          obtain ⟨front, shape⟩ := List.getLast?_eq_some_iff.mp last
          refine ⟨[segment], [text], ?_, by rw [List.filterMap_cons, read]; rfl⟩
          rw [shape, List.dropLast_concat]
  · exact ⟨[], [], (List.append_nil _).symm, rfl⟩

/-- The folder of a pattern has its components before the first wildcard, up to the name of a file. -/
theorem exists_components_patternFolder (pattern : String) :
    (patternFolder pattern).isAbsolute = false ∧ ∃ texts : List String,
      plainComponents pattern =
        (patternFolder pattern).components.filter (· ≠ here) ++ texts.map name := by
  obtain ⟨file, texts, shape, named⟩ := exists_file_behind_folders pattern
  have whole : ∀ segment ∈ folders pattern, '/' ∉ segment := fun segment member =>
    slash_notMem_of_mem_plain (shape ▸ List.mem_append_left _ member)
  have empty : Path.isAbsolute ⟨""⟩ = false := by decide
  obtain ⟨relative, spelled⟩ := filter_components_foldl_join empty whole
  rw [patternFolder_eq]
  refine ⟨relative, texts, ?_⟩
  rw [spelled, plainComponents, shape, List.filterMap_append, named]
  rfl

end Pattern

end BarrelSynthesis
