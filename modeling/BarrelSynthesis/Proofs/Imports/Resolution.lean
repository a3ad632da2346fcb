/-
# Names that are tried in a folder

Seen from the barrel of a folder, a specifier of one name is resolved among the names of the folder: the
candidates are files of the folder in a fixed order, and the candidates behind them stand one folder
deeper. The two names that are no segments, `.` and `..`, lead out of the folder, and only `..` at a folder
without a parent is a name to look for.
-/
import BarrelSynthesis.Imports.Resolution
import BarrelSynthesis.Proofs.Path.Joining
import BarrelSynthesis.Proofs.Path.Parent
import BarrelSynthesis.Proofs.Project.Extension

namespace BarrelSynthesis

/-- Only what stands in the first part can be found there. -/
theorem find?_append_eq_some_iff {α : Type} {front behind : List α} {p : α → Bool} {x : α}
    (absent : x ∉ behind) : (front ++ behind).find? p = some x ↔ front.find? p = some x := by
  rw [List.find?_append]
  cases found : front.find? p with
  | some other => rfl
  | none =>
      rw [Option.none_or]
      constructor
      · exact fun found => absurd (List.mem_of_find?_eq_some found) absent
      · exact fun found => absurd found (by simp)

namespace Resolution

open Component

variable {host : FileSystem} {options : CompilerOptions} {folder : Path} {text : String}

theorem mem_known_of_mem_sourceExtensions {extension source : String}
    (member : source ∈ sourceExtensions extension) : source ∈ Extension.known := by
  revert source
  rw [sourceExtensions]
  split
  · decide
  · split
    · decide
    · split
      · decide
      · split <;> decide

theorem mem_known_of_mem_triedExtensions {extension : String}
    (member : extension ∈ triedExtensions options) : extension ∈ Extension.known := by
  revert extension
  rw [triedExtensions]
  split <;> decide

/-- The names under which a specifier of one name is looked for, in order. -/
def namesTried (options : CompilerOptions) (name : String) : List String :=
  (match Extension.ofName? name with
    | some extension =>
      (sourceExtensions extension).map (Extension.strip extension name ++ ·) ++ [name]
    | none => [])
    ++ (triedExtensions options).map (name ++ ·)

/-- A name with a known extension is tried with the sources of that extension first, then as it is, and last
with extensions behind it. -/
theorem namesTried_of_known {extension : String} (found : Extension.ofName? text = some extension) :
    namesTried options text =
      (sourceExtensions extension).map (Extension.strip extension text ++ ·) ++ [text]
        ++ (triedExtensions options).map (text ++ ·) := by
  rw [namesTried, found]

/-- A name without one is tried with extensions behind it only. -/
theorem namesTried_of_unknown (unknown : Extension.ofName? text = none) :
    namesTried options text = (triedExtensions options).map (text ++ ·) := by
  rw [namesTried, unknown, List.nil_append]

/-- Each name that is tried for a component of its own is one too. -/
theorem isSegment_of_mem_namesTried (segment : (name text).IsSegment) {tried : String}
    (member : tried ∈ namesTried options text) : (name tried).IsSegment := by
  have whole := segment.name_whole
  have extended {tried : String} (member : tried ∈ (triedExtensions options).map (text ++ ·)) :
      (name tried).IsSegment := by
    obtain ⟨extension, listed, rfl⟩ := List.mem_map.mp member
    exact isSegment_name_append whole (mem_known_of_mem_triedExtensions listed)
  cases found : Extension.ofName? text with
  | none =>
      rw [namesTried_of_unknown found] at member
      exact extended member
  | some extension =>
      have stemWhole := Extension.notMem_strip found whole
      rw [namesTried_of_known found, List.append_assoc] at member
      rcases List.mem_append.mp member with sourced | member
      · obtain ⟨source, listed, rfl⟩ := List.mem_map.mp sourced
        exact isSegment_name_append stemWhole (mem_known_of_mem_sourceExtensions listed)
      · rcases List.mem_append.mp member with itself | member
        · rw [List.mem_singleton.mp itself]
          exact segment
        · exact extended member

/-- Extensions behind the path of a name are extensions behind the name. -/
theorem map_text_join_append (folder : Path) (whole : '/' ∉ text.toList) {extensions : List String}
    (known : ∀ extension ∈ extensions, extension ∈ Extension.known) :
    extensions.map (fun extension => Path.mk ((folder.join ⟨text⟩).text ++ extension)) =
      (extensions.map (text ++ ·)).map fun tried => folder.join ⟨tried⟩ := by
  rw [List.map_map]
  apply List.map_congr_left
  intro extension listed
  have clean := Extension.slash_notMem_of_mem_known (known extension listed)
  rw [Function.comp_apply, ← Path.text_join_append folder whole clean]

/-- The candidates for a name in a folder are the names tried, in that folder. -/
theorem fileCandidates_join (folder : Path) (segment : (name text).IsSegment) :
    fileCandidates options (folder.join ⟨text⟩) =
      (namesTried options text).map fun tried => folder.join ⟨tried⟩ := by
  have whole := segment.name_whole
  rw [fileCandidates, namesTried, Extension.ofPath?_of_fileName? (Path.fileName?_join folder segment),
    List.map_append, map_text_join_append folder whole fun _ => mem_known_of_mem_triedExtensions]
  cases found : Extension.ofName? text with
  | none => simp only [List.map_nil]
  | some extension =>
      obtain ⟨known, -, spelled⟩ := Extension.ofName?_eq_some found
      have clean := Extension.slash_notMem_of_mem_known known
      have stemWhole := Extension.notMem_strip found whole
      have stripped : Extension.strip extension (folder.join ⟨text⟩).text =
          (folder.join ⟨Extension.strip extension text⟩).text := by
        have lengthened := Path.text_join_append folder stemWhole clean
        rw [spelled] at lengthened
        rw [lengthened, Extension.strip_append]
      simp only [stripped, List.map_append, List.map_singleton,
        map_text_join_append folder stemWhole fun _ => mem_known_of_mem_sourceExtensions]

/-- Among files of one folder, finding a file is finding its name. -/
theorem find?_map_join {p : Path → Bool} {names : List String} {wanted : String}
    (whole : ∀ tried ∈ names, '/' ∉ tried.toList) (wantedWhole : '/' ∉ wanted.toList) :
    (names.map fun tried => folder.join ⟨tried⟩).find? p = some (folder.join ⟨wanted⟩) ↔
      names.find? (fun tried => p (folder.join ⟨tried⟩)) = some wanted := by
  rw [List.find?_map, Option.map_eq_some_iff]
  constructor
  · rintro ⟨tried, found, same⟩
    have listed := whole tried (List.mem_of_find?_eq_some found)
    obtain rfl := Path.join_right_injective folder listed wantedWhole same
    exact found
  · exact fun found => ⟨wanted, found, rfl⟩

/-- The candidates for a name in a folder stand immediately in the folder. -/
theorem length_of_mem_fileCandidates_join {candidate : Path} (segment : (name text).IsSegment)
    (member : candidate ∈ fileCandidates options (folder.join ⟨text⟩)) :
    candidate.components.length = folder.components.length + 1 := by
  rw [fileCandidates_join folder segment] at member
  obtain ⟨tried, listed, rfl⟩ := List.mem_map.mp member
  rw [Path.components_join_name folder (isSegment_of_mem_namesTried segment listed),
    List.length_append]
  rfl

/-! ## Seen from a barrel -/

theorem isSegment_barrelStem : (name Extension.barrelStem).IsSegment := ⟨by decide, by decide⟩

/-- The barrel of a folder stands immediately in it. -/
theorem barrelPath_eq_join (folder : Path) :
    Folder.barrelPath folder = folder.normalize.join ⟨Extension.barrelFileName⟩ :=
  folder.normalize_join_of_isSegment Extension.isSegment_barrelFileName

/-- The barrel of a folder stands immediately in it. -/
theorem parent?_barrelPath (folder : Path) :
    (Folder.barrelPath folder).parent? = some folder.normalize := by
  rw [barrelPath_eq_join,
    Path.parent?_join folder.normalize_normalize Extension.isSegment_barrelFileName]

theorem normalize_base (specifier : String) (containingFile : Path) :
    (base specifier containingFile).normalize = base specifier containingFile :=
  Path.normalize_normalize _

/-- A piece behind `./` is folded onto the folder of the barrel. -/
theorem components_base (folder : Path) (whole : '/' ∉ text.toList) :
    (base ("./" ++ text) (Folder.barrelPath folder)).components =
      ((ofSegment? text.toList).toList.foldl Path.fold
        folder.normalize.components.reverse).reverse := by
  have relative : Path.isAbsolute ⟨"./" ++ text⟩ = false := by
    simp [Path.isAbsolute, String.toList_append]
  have cut : Path.components ⟨"./" ++ text⟩ = here :: (ofSegment? text.toList).toList := by
    have pieces : Text.pieces '/' ("./" ++ text).toList = [['.'], text.toList] := by
      rw [String.toList_append, ← Text.pieces_of_notMem whole]
      exact Text.pieces_append_cons '/' ['.'] text.toList
    rw [Path.components, Path.componentsOf, pieces]
    cases read : ofSegment? text.toList <;> simp [read]
  rw [base, parent?_barrelPath, Option.getD_some, Path.components_normalize,
    Path.normalizeComponents, Path.foldl_components_join relative, cut,
    Path.foldl_components folder.normalize_normalize, List.foldl_cons, Path.fold]

/-- Seen from the barrel, a specifier of one name leads to that name in the folder. -/
theorem base_of_isSegment (folder : Path) (segment : (name text).IsSegment) :
    base ("./" ++ text) (Folder.barrelPath folder) = folder.normalize.join ⟨text⟩ := by
  have normal := folder.normalize_normalize
  apply Path.eq_of_components_eq (normalize_base _ _) (Path.normalize_join normal segment)
  have read : ofSegment? text.toList = some (name text) := segment.read
  rw [components_base folder segment.name_whole, Path.components_join_name _ segment, read,
    Option.toList_some, List.foldl_cons, List.foldl_nil, Path.fold_name, List.reverse_cons,
    List.reverse_reverse]

theorem isRelative_here (text : String) : Specifier.isRelative ("./" ++ text) = true := by
  simp [Specifier.isRelative, String.toList_append, List.isPrefixOf]

/-- A specifier of one name is resolved among the files of the folder. -/
theorem resolve_of_isSegment {wanted : String} (segment : (name text).IsSegment)
    (named : (name wanted).IsSegment) :
    resolve host options ("./" ++ text) (Folder.barrelPath folder) =
        some (folder.normalize.join ⟨wanted⟩) ↔
      (namesTried options text).find?
        (fun tried => host.fileExists (folder.normalize.join ⟨tried⟩)) = some wanted := by
  have deeper : folder.normalize.join ⟨wanted⟩ ∉
      fileCandidates options ((folder.normalize.join ⟨text⟩).join ⟨Extension.barrelStem⟩) := by
    intro member
    have length := length_of_mem_fileCandidates_join isSegment_barrelStem member
    rw [Path.components_join_name _ segment, Path.components_join_name _ named] at length
    simp at length
  rw [resolve, candidates, if_pos (isRelative_here text), base_of_isSegment folder segment]
  refine (find?_append_eq_some_iff deeper).trans ?_
  rw [fileCandidates_join _ segment]
  exact find?_map_join
    (fun _ member => (isSegment_of_mem_namesTried segment member).name_whole) named.name_whole

/-! ## Leading out of the folder -/

/-- A path that ends in no name is tried with extensions behind it. -/
theorem fileCandidates_of_fileName?_eq_none {path : Path} (unnamed : path.fileName? = none) :
    fileCandidates options path =
      (triedExtensions options).map fun extension => Path.mk (path.text ++ extension) := by
  have unknown : Extension.ofPath? path = none := by
    rw [Extension.ofPath?, unnamed]
    rfl
  rw [fileCandidates, unknown]
  rfl

/-- What is tried for a path that ends in no name is a name that an extension makes of dots or of nothing. -/
theorem exists_extension_of_mem_fileCandidates {path candidate : Path}
    (normal : path.normalize = path) (unnamed : path.fileName? = none)
    (member : candidate ∈ fileCandidates options path) :
    ∃ folder : Path, ∃ label ∈ ["", ".."], ∃ extension ∈ Extension.known,
      folder.normalize = folder ∧ folder.components.length ≤ path.components.length ∧
        (name (label ++ extension)).IsSegment ∧ candidate = folder.join ⟨label ++ extension⟩ := by
  obtain ⟨folder, label, listed, folderNormal, rfl, shorter⟩ :=
    Path.exists_folder_of_fileName?_eq_none normal unnamed
  have wholes : ∀ label ∈ ["", ".."], '/' ∉ label.toList := by decide
  have whole := wholes label listed
  rw [fileCandidates_of_fileName?_eq_none unnamed] at member
  obtain ⟨extension, tried, rfl⟩ := List.mem_map.mp member
  have known := mem_known_of_mem_triedExtensions tried
  refine ⟨folder, label, listed, extension, known, folderNormal, shorter,
    isSegment_name_append whole known, ?_⟩
  rw [← Path.text_join_append folder whole (Extension.slash_notMem_of_mem_known known)]

/-- What is tried for a normalized path is a file of a normalized folder. -/
theorem exists_folder_of_mem_fileCandidates {path candidate : Path}
    (normal : path.normalize = path) (member : candidate ∈ fileCandidates options path) :
    ∃ folder : Path, ∃ text, folder.normalize = folder ∧
      folder.components.length ≤ path.components.length ∧
        (name text).IsSegment ∧ candidate = folder.join ⟨text⟩ := by
  cases named : path.fileName? with
  | some text =>
      obtain ⟨folder, folderNormal, rfl⟩ := Path.exists_folder_of_fileName? normal named
      have segment := Path.isSegment_of_fileName? named
      rw [fileCandidates_join _ segment] at member
      obtain ⟨tried, listed, rfl⟩ := List.mem_map.mp member
      refine ⟨folder, tried, folderNormal, ?_, isSegment_of_mem_namesTried segment listed, rfl⟩
      rw [Path.components_join_name folder segment, List.length_append]
      exact Nat.le_add_right _ _
  | none =>
      obtain ⟨folder, label, -, extension, -, folderNormal, shorter, segment, spelled⟩ :=
        exists_extension_of_mem_fileCandidates normal named member
      exact ⟨folder, label ++ extension, folderNormal, shorter, segment, spelled⟩

/-- No candidate for a path stands more than one folder deeper. -/
theorem length_le_of_mem_fileCandidates {path candidate : Path} (normal : path.normalize = path)
    (member : candidate ∈ fileCandidates options path) :
    candidate.components.length ≤ path.components.length + 1 := by
  obtain ⟨folder, text, -, shorter, segment, rfl⟩ :=
    exists_folder_of_mem_fileCandidates normal member
  rw [Path.components_join_name folder segment, List.length_append]
  exact Nat.add_le_add_right shorter 1

/-- What is tried for a normalized path is normalized. -/
theorem normalize_of_mem_fileCandidates {path candidate : Path} (normal : path.normalize = path)
    (member : candidate ∈ fileCandidates options path) : candidate.normalize = candidate := by
  obtain ⟨folder, text, folderNormal, -, segment, rfl⟩ :=
    exists_folder_of_mem_fileCandidates normal member
  exact Path.normalize_join folderNormal segment

/-- Seen from the barrel, `.` leads to the folder itself. -/
theorem base_here (folder : Path) :
    base ("./" ++ ".") (Folder.barrelPath folder) = folder.normalize := by
  apply Path.eq_of_components_eq (normalize_base _ _) folder.normalize_normalize
  have read : ofSegment? ".".toList = none := by decide
  rw [components_base folder (by decide), read, Option.toList_none, List.foldl_nil,
    List.reverse_reverse]

/-- The folder itself is no way to a file of the folder whose stem is a dot. -/
theorem resolve_here_ne {extension : String} (known : extension ∈ Extension.known) :
    resolve host options ("./" ++ ".") (Folder.barrelPath folder) ≠
      some (folder.normalize.join ⟨"." ++ extension⟩) := by
  intro found
  have segment : (name ("." ++ extension)).IsSegment := isSegment_name_append (by decide) known
  have normal := folder.normalize_normalize
  have member := List.mem_of_find?_eq_some found
  rw [candidates, if_pos (isRelative_here "."), base_here] at member
  rcases List.mem_append.mp member with beside | inside
  -- Beside the folder every candidate is too short, unless the folder ends in no name.
  · cases named : folder.normalize.fileName? with
    | some text =>
        obtain ⟨parent, -, spelled⟩ := Path.exists_folder_of_fileName? normal named
        have outer := Path.isSegment_of_fileName? named
        rw [spelled] at beside
        have length := length_of_mem_fileCandidates_join outer beside
        rw [Path.components_join_name _ segment, Path.components_join_name _ outer] at length
        simp at length
    | none =>
        have differ : ∀ label ∈ ["", ".."], ∀ tried ∈ Extension.known,
            ∀ extension ∈ Extension.known, label ++ tried ≠ "." ++ extension := by decide
        obtain ⟨parent, label, listed, tried, behind, -, -, inner, spelled⟩ :=
          exists_extension_of_mem_fileCandidates normal named beside
        have same := congrArg Path.fileName? spelled
        rw [Path.fileName?_join _ segment, Path.fileName?_join _ inner] at same
        exact differ label listed tried behind extension known (Option.some.inj same).symm
  · have differ : ∀ tried ∈ Extension.known, ∀ extension ∈ Extension.known,
        Extension.barrelStem ++ tried ≠ "." ++ extension := by decide
    have bare : Extension.ofName? Extension.barrelStem = none := by decide
    rw [fileCandidates_join _ isSegment_barrelStem] at inside
    obtain ⟨tried, listed, same⟩ := List.mem_map.mp inside
    have whole := (isSegment_of_mem_namesTried isSegment_barrelStem listed).name_whole
    obtain rfl := Path.join_right_injective _ whole segment.name_whole same
    rw [namesTried_of_unknown bare] at listed
    obtain ⟨behind, tries, same⟩ := List.mem_map.mp listed
    exact differ behind (mem_known_of_mem_triedExtensions tries) extension known same

/-- Seen from the barrel, `..` is folded into the folder. -/
theorem components_base_up (folder : Path) :
    (base ("./" ++ "..") (Folder.barrelPath folder)).components =
      (Path.fold folder.normalize.components.reverse up).reverse := by
  have read : ofSegment? "..".toList = some up := by decide
  rw [components_base folder (by decide), read, Option.toList_some, List.foldl_cons, List.foldl_nil]

/-- Where no folder is left to climb from, `..` is looked for like a name. -/
theorem base_up_of_outermost
    (outermost : folder.normalize.text = "" ∨ folder.normalize.text = "/") :
    base ("./" ++ "..") (Folder.barrelPath folder) = folder.normalize.join ⟨".."⟩ ∧
      (folder.normalize.join ⟨".."⟩).components = folder.normalize.components ++ [up] := by
  have climbs : ∀ path ∈ [⟨""⟩, (⟨"/"⟩ : Path)],
      (path.join ⟨".."⟩).normalize = path.join ⟨".."⟩ ∧
        (Path.fold path.components.reverse up).reverse = path.components ++ [up] ∧
        (path.join ⟨".."⟩).components = path.components ++ [up] := by decide
  have outer : folder.normalize ∈ [⟨""⟩, (⟨"/"⟩ : Path)] := by
    rcases outermost with empty | slash
    · exact List.mem_cons.mpr (.inl (congrArg Path.mk empty))
    · exact List.mem_cons_of_mem _ (List.mem_singleton.mpr (congrArg Path.mk slash))
  obtain ⟨normal, climbed, components⟩ := climbs _ outer
  refine ⟨Path.eq_of_components_eq (normalize_base _ _) normal ?_, components⟩
  rw [components_base_up, climbed, components]

/-- The parent of the folder is a way to a file of the folder only where there is no parent: then the
specifier is a name that is tried with extensions behind it. -/
theorem resolve_up_iff {wanted : String} (named : (name wanted).IsSegment) :
    resolve host options ("./" ++ "..") (Folder.barrelPath folder) =
        some (folder.normalize.join ⟨wanted⟩) ↔
      (folder.normalize.text = "" ∨ folder.normalize.text = "/") ∧
        (namesTried options "..").find?
          (fun tried => host.fileExists (folder.normalize.join ⟨tried⟩)) = some wanted := by
  have wantedLength := congrArg List.length (Path.components_join_name folder.normalize named)
  rw [List.length_append, List.length_singleton] at wantedLength
  rw [resolve, candidates, if_pos (isRelative_here "..")]
  by_cases outermost : folder.normalize.text = "" ∨ folder.normalize.text = "/"
  · obtain ⟨climbed, components⟩ := base_up_of_outermost outermost
    have unnamed : (folder.normalize.join ⟨".."⟩).fileName? = none := by
      rw [Path.fileName?, components, List.getLast?_append]
      rfl
    have deeper : folder.normalize.join ⟨wanted⟩ ∉
        fileCandidates options ((folder.normalize.join ⟨".."⟩).join ⟨Extension.barrelStem⟩) := by
      intro member
      have inside := length_of_mem_fileCandidates_join isSegment_barrelStem member
      rw [components, List.length_append, List.length_singleton] at inside
      omega
    rw [climbed]
    refine (find?_append_eq_some_iff deeper).trans ?_
    have bare : Extension.ofName? ".." = none := by decide
    rw [and_iff_right outermost, fileCandidates_of_fileName?_eq_none unnamed,
      map_text_join_append _ (by decide) fun _ => mem_known_of_mem_triedExtensions,
      namesTried_of_unknown bare]
    refine find?_map_join (fun tried listed => ?_) named.name_whole
    obtain ⟨extension, tries, rfl⟩ := List.mem_map.mp listed
    exact (isSegment_name_append (by decide) (mem_known_of_mem_triedExtensions tries)).name_whole
  -- Otherwise the parent is shorter than the folder, and no candidate goes two steps down from it.
  · rw [not_or] at outermost
    have climbs := Path.length_fold_up folder.normalize_normalize outermost.1 outermost.2
    have length := congrArg List.length (components_base_up folder)
    rw [List.length_reverse] at length
    refine iff_of_false (fun found => ?_) fun both => ?_
    · rcases List.mem_append.mp (List.mem_of_find?_eq_some found) with beside | inside
      · have bound := length_le_of_mem_fileCandidates (normalize_base _ _) beside
        omega
      · have bound := length_of_mem_fileCandidates_join isSegment_barrelStem inside
        omega
    · exact both.1.elim outermost.1 outermost.2

end Resolution

end BarrelSynthesis
