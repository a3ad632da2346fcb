/-
# Included files and the folder of their pattern

Where the files lie that a pattern includes. Read from a relative folder, they all lie in the folder that is
derived from the pattern. Read from an absolute one, they lie at and below the place that the pattern leads to
before its first wildcard, in more than one folder there when it has wildcards. So the derived folder holds all
of them exactly when it is at or above this place.
-/
import Mathlib.Data.List.Infix
import BarrelSynthesis.Proofs.Project.Pattern

namespace BarrelSynthesis

namespace Pattern

open Component (root here up name ofSegment?)
open BarrelSynthesis.Path (walk LeadAlike Course)

variable {rootDir file : Path} {pattern : String}

/-! ## Where included files lie -/

/-- What stands before the first wildcard never goes back to the root. -/
theorem root_notMem_plainComponents (pattern : String) : root ∉ plainComponents pattern := by
  intro member
  exact (Path.isSegment_of_mem_filterMap (fun _ => slash_notMem_of_mem_plain) member).ne_root rfl

/-- Nor does it with names behind it. -/
theorem root_notMem_plainComponents_append (pattern : String) (texts : List String) :
    root ∉ plainComponents pattern ++ texts.map name := by
  rw [List.mem_append, not_or]
  exact ⟨root_notMem_plainComponents pattern, by simp⟩

/-- An included file lies below the place that the pattern leads to before its first wildcard, or there. -/
theorem exists_names_of_includes (level : ∀ segment ∈ wild pattern, segment ≠ ['.', '.'])
    (includes : Includes rootDir pattern file) :
    ∃ texts : List String, LeadAlike file.components
      ((start rootDir pattern).components ++ (plainComponents pattern ++ texts.map name)) := by
  obtain ⟨⟨inside, below, stand, -, alike⟩, -⟩ := includes
  obtain ⟨texts, rfl, -⟩ := exists_names_of_standFor_segments level stand
  refine ⟨texts ++ below, ?_⟩
  rwa [List.map_append, ← List.append_assoc (plainComponents pattern), ← List.append_assoc]

/-- Read from a relative folder, a pattern includes files below what is left of the place it leads to. -/
theorem exists_components_normalize_of_relative
    (relative : (start rootDir pattern).isAbsolute = false)
    (level : ∀ segment ∈ wild pattern, segment ≠ ['.', '.'])
    (includes : Includes rootDir pattern file) :
    ∃ texts : List String, file.normalize.components =
      (((plainComponents pattern).foldl Course.follow (start rootDir pattern).course).stackOn
        []).reverse ++ texts.map name := by
  obtain ⟨texts, alike⟩ := exists_names_of_includes level includes
  have free : root ∉
      (start rootDir pattern).components ++ (plainComponents pattern ++ texts.map name) := by
    rw [List.mem_append, not_or]
    exact ⟨Path.root_notMem_components relative, root_notMem_plainComponents_append pattern texts⟩
  obtain ⟨fileRelative, same⟩ := Path.course_eq_of_leadAlike free alike
  refine ⟨texts, ?_⟩
  rw [Path.components_normalize_eq_stackOn_nil fileRelative, same,
    ← Course.reverse_stackOn_foldl_follow_names, Course.along, List.foldl_append, List.foldl_append]
  rfl

/-- Read from an absolute folder, a pattern includes files below the place it leads to. -/
theorem exists_components_normalize_of_isAbsolute
    (absolute : (start rootDir pattern).isAbsolute = true)
    (level : ∀ segment ∈ wild pattern, segment ≠ ['.', '.'])
    (includes : Includes rootDir pattern file) :
    ∃ texts : List String, file.normalize.components =
      plainPlace (start rootDir pattern) pattern ++ texts.map name := by
  obtain ⟨texts, alike⟩ := exists_names_of_includes level includes
  obtain ⟨rest, shape, -⟩ := Path.exists_components_of_isAbsolute absolute
  rw [shape, List.cons_append] at alike
  obtain ⟨fileAbsolute, same⟩ := Path.descended_eq_of_leadAlike alike
  have kept := Path.components_normalize_eq_stackOn_root fileAbsolute
  have even : ¬file.course.climbed % 2 = 1 := by
    rw [← Course.root_up_prefix_iff, ← kept]
    exact includes.2
  refine ⟨texts, ?_⟩
  rw [kept, Course.reverse_stackOn_root_of_even even, same, ← List.append_assoc, Path.walk_append,
    Path.walk_names, List.reverse_append, List.reverse_reverse, List.map_append, plainPlace, shape]
  rfl

/-! ## The folder beside them -/

/-- The way that a pattern leads to before its first wildcard goes through its folder. -/
theorem exists_names_behind_folder (rootDir : Path) (pattern : String) :
    ∃ texts : List String, (plainComponents pattern).foldl Course.follow rootDir.course =
      (texts.map name).foldl Course.follow (rootDir.join (patternFolder pattern)).course := by
  obtain ⟨relative, texts, shape⟩ := exists_components_patternFolder pattern
  refine ⟨texts, ?_⟩
  rw [shape, List.foldl_append, Course.foldl_follow_filter_here, Path.course_join relative]

/-- The folder of a pattern is relative, so it begins where the root folder begins. -/
theorem isAbsolute_join_patternFolder (rootDir : Path) (pattern : String) :
    (rootDir.join (patternFolder pattern)).isAbsolute = rootDir.isAbsolute :=
  Path.isAbsolute_join (exists_components_patternFolder pattern).1

/-! ## Files that are included -/

/-- The components of a segment whose wildcards all stand for one character. -/
def sample (c : Char) (segment : List Char) : List Component :=
  if isWildcard segment then
    [name (String.ofList (segment.map fun d => if d = '*' ∨ d = '?' then c else d))]
  else (ofSegment? segment).toList

/-- A glob fits itself with a character in the place of every wildcard. -/
theorem fits_sample (c : Char) (glob : List Char) :
    fits glob (glob.map fun d => if d = '*' ∨ d = '?' then c else d) = true := by
  induction glob with
  | nil => rfl
  | cons d rest ih =>
      rw [List.map_cons, fits]
      by_cases star : d = '*'
      · rw [if_pos star, List.any_eq_true]
        exact ⟨_, (List.mem_tails _ _).mpr (List.suffix_cons _ _), ih⟩
      · rw [if_neg star]
        by_cases mark : d = '?'
        · simp [mark, ih]
        · simp [star, mark, ih]

/-- So a segment stands for its sample. -/
theorem standsFor_sample (c : Char) (segment : List Char) : StandsFor segment (sample c segment) := by
  rw [StandsFor, sample]
  by_cases deep : segment = ['*', '*']
  · rw [if_pos deep, deep]
    exact ⟨[String.ofList [c, c]], rfl⟩
  · rw [if_neg deep]
    split
    · exact ⟨_, by rw [String.toList_ofList]; exact fits_sample c segment, rfl⟩
    · rfl

/-- The same for a list of segments. -/
theorem standFor_sample (c : Char) (list : List (List Char)) :
    StandFor list (list.flatMap (sample c)) := by
  induction list with
  | nil => rfl
  | cons segment rest ih => exact ⟨_, _, List.flatMap_cons, standsFor_sample c segment, ih⟩

/-- A character that is no dot and no separator makes a name of every segment with wildcards. -/
theorem isSegment_of_mem_sample {c : Char} (plainly : c ≠ '.' ∧ c ≠ '/') {segment : List Char}
    (whole : '/' ∉ segment) {component : Component} (member : component ∈ sample c segment) :
    component.IsSegment := by
  rw [sample] at member
  split at member
  · next wildcard =>
      rw [List.mem_singleton] at member
      subst member
      have stands : c ∈ segment.map fun d => if d = '*' ∨ d = '?' then c else d := by
        simp only [isWildcard, Bool.or_eq_true, List.contains_iff_mem] at wildcard
        rw [List.mem_map]
        rcases wildcard with star | mark
        · exact ⟨'*', star, rfl⟩
        · exact ⟨'?', mark, rfl⟩
      have other (text : String) (absent : c ∉ text.toList) :
          String.ofList (segment.map fun d => if d = '*' ∨ d = '?' then c else d) ≠ text := by
        rintro rfl
        rw [String.toList_ofList] at absent
        exact absent stands
      refine Component.isSegment_name_iff.mpr ⟨other _ ?_, other _ ?_, other _ ?_, ?_⟩
      · exact List.not_mem_nil
      · simpa using plainly.1
      · simpa using plainly.1
      · rw [String.toList_ofList, List.mem_map]
        rintro ⟨d, listed, same⟩
        split at same
        · exact plainly.2 same
        · exact whole (same ▸ listed)
  · cases read : ofSegment? segment with
    | none => simp [read] at member
    | some found =>
        rw [read, Option.mem_toList, Option.some_inj] at member
        exact member ▸ Component.isSegment_of_ofSegment? read whole

/-- A sample is a plain component, if the character is neither a dot nor a separator. -/
theorem isSegment_of_mem_flatMap_sample {c : Char} (plainly : c ≠ '.' ∧ c ≠ '/') {component : Component}
    (member : component ∈ (wild pattern).flatMap (sample c)) : component.IsSegment := by
  obtain ⟨segment, among, inside⟩ := List.mem_flatMap.mp member
  have whole : '/' ∉ segment :=
    slash_notMem_of_mem_segments (segments_eq pattern ▸ List.mem_append_right _ among)
  exact isSegment_of_mem_sample plainly whole inside

/-- A way that is spelled from the root leads to the same place from everywhere. -/
theorem walk_of_isAbsolute {start : Path} (absolute : start.isAbsolute = true) (folder : List String)
    (behind : List Component) :
    walk folder (start.components ++ behind) = walk [] (start.components ++ behind) := by
  obtain ⟨rest, shape, -⟩ := Path.exists_components_of_isAbsolute absolute
  rw [shape, List.cons_append, Path.walk_root, Path.walk_root]

/-- In a way that is spelled from the root every name can be one. -/
theorem isSegment_of_mem_plainPlace {start : Path} (absolute : start.isAbsolute = true)
    (pattern : String) {text : String}
    (member : text ∈ walk [] (start.components ++ plainComponents pattern)) :
    (name text).IsSegment := by
  rcases Path.mem_walk member with absent | listed
  · cases absent
  rcases List.mem_append.mp listed with before | behind
  · obtain ⟨rest, shape, -⟩ := Path.exists_components_of_isAbsolute absolute
    have spelled := start.wellSpelled_components
    rw [shape] at before spelled
    exact spelled.2 _ ((List.mem_cons.mp before).resolve_left (by simp))
  · exact Path.isSegment_of_mem_filterMap (fun _ => slash_notMem_of_mem_plain) behind

/-- Read from an absolute folder, a pattern includes a file for each way in which its wildcards all stand for one
character. -/
theorem exists_included_of_isAbsolute {c : Char} (plainly : c ≠ '.' ∧ c ≠ '/')
    (absolute : (start rootDir pattern).isAbsolute = true)
    (level : ∀ segment ∈ wild pattern, segment ≠ ['.', '.']) :
    ∃ file, Includes rootDir pattern file ∧ file.normalize.components =
      plainPlace (start rootDir pattern) pattern ++ (wild pattern).flatMap (sample c) := by
  obtain ⟨texts, sampled⟩ := exists_names_of_standFor level (standFor_sample c (wild pattern))
  have named : ∀ text ∈ texts, (name text).IsSegment := fun text listed =>
    isSegment_of_mem_flatMap_sample plainly (sampled ▸ List.mem_map_of_mem listed)
  -- the names that lead to the file from the root
  let down := (walk [] ((start rootDir pattern).components ++ plainComponents pattern)).reverse ++ texts
  have spelled : Path.WellSpelled (root :: down.map name) := by
    refine ⟨.inl rfl, fun component member => ?_⟩
    obtain ⟨text, listed, rfl⟩ := List.mem_map.mp member
    rcases List.mem_append.mp listed with before | behind
    · exact isSegment_of_mem_plainPlace absolute pattern (List.mem_reverse.mp before)
    · exact named text behind
  have read := Path.components_ofComponents spelled
  have left := Path.components_normalize_of_root_names read
  have whole : root :: down.map name =
      plainPlace (start rootDir pattern) pattern ++ (wild pattern).flatMap (sample c) := by
    rw [sampled, plainPlace, List.map_append, List.cons_append]
  have stand : StandFor (segments pattern) (plainComponents pattern ++ texts.map name) := by
    rw [segments_eq, standFor_append]
    exact ⟨_, _, rfl, (standFor_iff_of_plain fun segment => isWildcard_of_mem_plain).mpr rfl,
      sampled ▸ standFor_sample c (wild pattern)⟩
  refine ⟨Path.ofComponents (root :: down.map name), ⟨⟨_, [], stand, .inl rfl, fun folder => ?_⟩, ?_⟩,
    left.trans whole⟩
  · rw [read, List.map_nil, List.append_nil, ← List.append_assoc, Path.walk_append folder,
      walk_of_isAbsolute absolute, Path.walk_names, Path.walk_root, Path.walk_names,
      List.reverse_append, List.reverse_reverse, List.append_nil]
  · rw [left]
    exact Course.not_root_up_prefix_names down

/-- With wildcards a segment stands for more than one name. -/
theorem exists_sample_ne {segment : List Char} (wildcard : isWildcard segment = true) :
    ∃ first second, first ≠ second ∧ sample 'a' segment = [first] ∧ sample 'b' segment = [second] := by
  refine ⟨_, _, ?_, if_pos wildcard, if_pos wildcard⟩
  intro same
  have letters := List.map_inj_left.mp (String.ofList_injective (Component.name.inj same))
  simp only [isWildcard, Bool.or_eq_true, List.contains_iff_mem] at wildcard
  rcases wildcard with star | mark
  · exact absurd (letters '*' star) (by decide)
  · exact absurd (letters '?' mark) (by decide)

/-- What begins two lists that part at a place begins them before it. -/
theorem prefix_of_parting {front place first second : List Component} {a b : Component} (part : a ≠ b)
    (left : front <+: place ++ a :: first) (right : front <+: place ++ b :: second) :
    front <+: place := by
  rcases List.prefix_or_prefix_of_prefix left (List.prefix_append place _) with within | beyond
  · exact within
  obtain ⟨rest, rfl⟩ := beyond
  rw [List.prefix_append_right_inj] at left right
  cases rest with
  | nil => rw [List.append_nil]
  | cons c others =>
      exact absurd ((List.cons_prefix_cons.mp left).1.symm.trans (List.cons_prefix_cons.mp right).1) part

/-- Read from an absolute folder, a pattern includes only files in a folder exactly when the place that it leads
to before its first wildcard is there. -/
theorem forall_included_prefix_iff (absolute : (start rootDir pattern).isAbsolute = true)
    (level : ∀ segment ∈ wild pattern, segment ≠ ['.', '.']) (front : List Component) :
    (∀ file, Includes rootDir pattern file → front <+: file.normalize.components) ↔
      front <+: plainPlace (start rootDir pattern) pattern := by
  constructor
  · intro covers
    obtain ⟨first, firstIncluded, firstPlace⟩ :=
      exists_included_of_isAbsolute (c := 'a') (by decide) absolute level
    obtain ⟨second, secondIncluded, secondPlace⟩ :=
      exists_included_of_isAbsolute (c := 'b') (by decide) absolute level
    have left := firstPlace ▸ covers first firstIncluded
    have right := secondPlace ▸ covers second secondIncluded
    cases found : wild pattern with
    | nil => simpa [found] using left
    | cons segment rest =>
        have wildcard : isWildcard segment = true := by
          have head := List.head?_dropWhile_not (fun segment => !isWildcard segment) (segments pattern)
          rw [← wild, found] at head
          simpa using head
        obtain ⟨a, b, part, one, other⟩ := exists_sample_ne wildcard
        rw [found, List.flatMap_cons] at left right
        rw [one] at left
        rw [other] at right
        exact prefix_of_parting part left right
  · intro within file included
    obtain ⟨texts, shape⟩ := exists_components_normalize_of_isAbsolute absolute level included
    rw [shape]
    exact within.trans (List.prefix_append _ _)

/-- The place a pattern leads to from an absolute folder: the names of the whole way, below the root. -/
theorem plainPlace_eq {start : Path} (absolute : start.isAbsolute = true) (pattern : String) :
    plainPlace start pattern =
      root :: ((plainComponents pattern).foldl Course.follow
        start.course).descended.reverse.map name := by
  obtain ⟨rest, shape, relative⟩ := Path.exists_components_of_isAbsolute absolute
  have free : root ∉ rest ++ plainComponents pattern := by
    rw [List.mem_append, not_or]
    exact ⟨relative, root_notMem_plainComponents pattern⟩
  have down : walk [] (rest ++ plainComponents pattern) = _ :=
    (Course.walk_eq_reach [] free).trans (Course.reach_nil _)
  rw [plainPlace, Path.course, shape, List.cons_append, Path.walk_root, down, Course.along,
    List.foldl_append]
  rfl

/-- From an absolute folder of a project, the folder of a pattern that begins there is at or above the place that
the pattern leads to, unless a `..` is left behind the root. -/
theorem components_folder_prefix_plainPlace_iff (absolute : rootDir.isAbsolute = true) :
    (rootDir.join (patternFolder pattern)).normalize.components <+: plainPlace rootDir pattern ↔
      ¬[root, up] <+: (rootDir.join (patternFolder pattern)).normalize.components := by
  have folderAbsolute := (isAbsolute_join_patternFolder rootDir pattern).trans absolute
  obtain ⟨texts, behind⟩ := exists_names_behind_folder rootDir pattern
  rw [Path.components_normalize_eq_stackOn_root folderAbsolute, plainPlace_eq absolute, behind,
    Course.root_up_prefix_iff, Course.foldl_follow_names]
  constructor
  · intro within odd
    exact Course.not_root_up_prefix_names _ (((Course.root_up_prefix_iff _).mpr odd).trans within)
  · intro even
    rw [Course.reverse_stackOn_root_of_even even, List.reverse_append, List.reverse_reverse,
      List.map_append]
    exact List.prefix_append (root :: _) _

/-! ## The folders of a project -/

/-- The files that a pattern of a project includes all lie in the folder that the project has for it, exactly in
these cases. A pattern that begins with a separator: when the folder, although it was put below that of the
project, is at or above the place that the pattern leads to before its first wildcard. Any other pattern:
when the folder does not climb above the root, where normalizing would leave a `..`. -/
theorem included_files_lie_in_folder_iff {fields : ProjectFields} {patterns : List String}
    {position : Nat} (read : fields.patterns = some patterns)
    (listed : patterns[position]? = some pattern)
    (level : ∀ segment ∈ wild pattern, segment ≠ ['.', '.']) :
    ∃ folder, (ProjectConfig.ofFields rootDir fields).projectDirs[position]? = some folder ∧
      ((∀ file, Includes rootDir pattern file →
          file.normalize.startsWith folder.normalize = true) ↔
        if Path.isAbsolute ⟨pattern⟩ then
          folder.normalize.components <+: plainPlace ⟨"/"⟩ pattern
        else ¬[root, up] <+: folder.normalize.components) := by
  have filled : patterns.isEmpty = false := by
    cases patterns with
    | nil => cases listed
    | cons first rest => rfl
  refine ⟨rootDir.join (patternFolder pattern), ?_, ?_⟩
  · simp [ProjectConfig.ofFields, read, filled, listed]
  simp only [Path.startsWith_iff]
  cases slash : Path.isAbsolute ⟨pattern⟩ with
  | true =>
      have begins : start rootDir pattern = ⟨"/"⟩ := if_pos slash
      rw [forall_included_prefix_iff (by rw [begins]; decide) level, begins]
      rfl
  | false =>
      have begins : start rootDir pattern = rootDir := if_neg (by rw [slash]; decide)
      cases absolute : rootDir.isAbsolute with
      | true =>
          rw [forall_included_prefix_iff (by rw [begins, absolute]) level, begins,
            components_folder_prefix_plainPlace_iff absolute]
          rfl
      | false =>
          have folderRelative := (isAbsolute_join_patternFolder rootDir pattern).trans absolute
          have below : ¬[root, up] <+: (rootDir.join (patternFolder pattern)).normalize.components := by
            rw [Path.components_normalize_eq_stackOn_nil folderRelative]
            exact fun climbs => Course.root_notMem_stackOn_nil _
              (List.mem_reverse.mp (climbs.subset List.mem_cons_self))
          refine iff_of_true (fun file included => ?_) below
          obtain ⟨texts, shape⟩ :=
            exists_components_normalize_of_relative (by rw [begins, absolute]) level included
          obtain ⟨more, behind⟩ := exists_names_behind_folder rootDir pattern
          rw [shape, begins, behind, Course.reverse_stackOn_foldl_follow_names, List.append_assoc,
            Path.components_normalize_eq_stackOn_nil folderRelative]
          exact List.prefix_append _ _

/-- A pattern can climb out of the folder of the project. A file that it includes, with a folder for `**` and
a spelling of its own, then lies in the derived folder beside the project's. -/
theorem included_file_lies_in_folder_beside_project :
    let fields : ProjectFields := { patterns := some ["lib", "../q/**/*.t?"] }
    let file : Path := ⟨"/q/./a//main.ts"⟩
    Includes ⟨"/p"⟩ "../q/**/*.t?" file ∧
      ∃ folder, (ProjectConfig.ofFields ⟨"/p"⟩ fields).projectDirs[1]? = some folder ∧
        file.normalize.startsWith folder.normalize = true := by
  intro fields file
  have stand : StandFor (segments "../q/**/*.t?") [up, name "q", name "a", name "main.ts"] := by
    have wildcards : wild "../q/**/*.t?" = [['*', '*'], ['*', '.', 't', '?']] := by decide
    rw [segments_eq, standFor_append, wildcards]
    refine ⟨[up, name "q"], [name "a", name "main.ts"], rfl, ?_, [name "a"], [name "main.ts"], rfl, ?_,
      [name "main.ts"], [], rfl, ?_, rfl⟩
    · exact (standFor_iff_of_plain fun segment => isWildcard_of_mem_plain).mpr (by decide)
    · rw [StandsFor, if_pos rfl]
      exact ⟨["a"], rfl⟩
    · rw [StandsFor, if_neg (by decide), if_pos (by decide)]
      exact ⟨"main.ts", by decide, rfl⟩
  have included : Includes ⟨"/p"⟩ "../q/**/*.t?" file := by
    refine ⟨⟨_, [], stand, .inl rfl, fun folder => ?_⟩, by decide⟩
    have way : (start ⟨"/p"⟩ "../q/**/*.t?").components = [root, name "p"] := by decide
    have place : file.components = [root, name "q", name "a", name "main.ts"] := by decide
    rw [way, place]
    rfl
  obtain ⟨folder, found, iff⟩ :=
    @included_files_lie_in_folder_iff ⟨"/p"⟩ _ fields _ 1 rfl rfl (by decide)
  have derived : folder = ⟨"/p/../q"⟩ := by
    have computed : (ProjectConfig.ofFields ⟨"/p"⟩ fields).projectDirs[1]? = some ⟨"/p/../q"⟩ := by decide
    exact Option.some.inj (found.symm.trans computed)
  refine ⟨included, folder, found, iff.mpr ?_ file included⟩
  rw [derived]
  decide

/-- A pattern that begins with a separator includes files beside the project, but its folder is in the project. -/
theorem included_file_lies_outside_folder_of_rooted_pattern :
    Includes ⟨"/p"⟩ "/src/*" ⟨"/src/a.ts"⟩ ∧
      (ProjectConfig.ofFields ⟨"/p"⟩ { patterns := some ["/src/*"] }).projectDirs = [⟨"/p/src"⟩] ∧
      (Path.normalize ⟨"/src/a.ts"⟩).startsWith (Path.normalize ⟨"/p/src"⟩) = false := by
  have stand : StandFor (segments "/src/*") [name "src", name "a.ts"] := by
    have wildcards : wild "/src/*" = [['*']] := by decide
    rw [segments_eq, standFor_append, wildcards]
    refine ⟨[name "src"], [name "a.ts"], rfl, ?_, [name "a.ts"], [], rfl, ?_, rfl⟩
    · exact (standFor_iff_of_plain fun segment => isWildcard_of_mem_plain).mpr (by decide)
    · rw [StandsFor, if_neg (by decide), if_pos (by decide)]
      exact ⟨"a.ts", by decide, rfl⟩
  refine ⟨⟨⟨_, [], stand, .inl rfl, fun folder => ?_⟩, by decide⟩, by decide, by decide⟩
  have way : (start ⟨"/p"⟩ "/src/*").components = [root] := by decide
  have place : Path.components ⟨"/src/a.ts"⟩ = [root, name "src", name "a.ts"] := by decide
  rw [way, place]
  rfl

end Pattern

end BarrelSynthesis
