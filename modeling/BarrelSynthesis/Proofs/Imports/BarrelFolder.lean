/-
# The folder a specifier of a barrel stands for

A specifier that resolves to a barrel is cut down to a specifier of its folder. The cut goes by the text of
the last segment, while resolution goes by what exists: first a file of the normalized path, then the
aggregator of a folder at that path. The specifier that is left denotes the folder of the barrel exactly
when both agree: a specifier that ends in the name of an aggregator was resolved as a file, and any other
as a folder. They disagree where a folder itself is called `index`, and where dots lead into such a folder
but a barrel stands beside it.
-/
import BarrelSynthesis.Build
import BarrelSynthesis.Disk.Flat
import BarrelSynthesis.Proofs.Imports.Resolution
import Mathlib.Data.List.TakeWhile

namespace BarrelSynthesis

/-! ## The end of a text -/

namespace Text

/-- What is trimmed are repetitions of one character. -/
theorem exists_trimEnd (c : Char) (text : List Char) :
    ∃ count, text = trimEnd c text ++ List.replicate count c := by
  have repeated : text.reverse.takeWhile (· = c) =
      List.replicate (text.reverse.takeWhile (· = c)).length c := by
    refine List.eq_replicate_iff.mpr ⟨rfl, fun other listed => ?_⟩
    simpa using List.mem_takeWhile_imp listed
  refine ⟨(text.reverse.takeWhile (· = c)).length, ?_⟩
  rw [trimEnd, ← List.reverse_replicate, ← repeated, ← List.reverse_append,
    List.takeWhile_append_dropWhile, List.reverse_reverse]

/-- A text is split at a separator, and none stands behind it. -/
theorem splitAtLast?_eq_some {separator : Char} {text front last : List Char}
    (split : splitAtLast? separator text = some (front, last)) :
    text = front ++ separator :: last ∧ separator ∉ last := by
  rw [splitAtLast?] at split
  have whole := List.takeWhile_append_dropWhile (p := (· ≠ separator)) (l := text.reverse)
  have stops := List.head?_dropWhile_not (· ≠ separator) text.reverse
  have free : separator ∉ text.reverse.takeWhile (· ≠ separator) := fun listed => by
    simpa using List.mem_takeWhile_imp listed
  generalize text.reverse.takeWhile (· ≠ separator) = behind at split whole free
  generalize text.reverse.dropWhile (· ≠ separator) = rest at split whole stops
  cases rest with
  | nil => cases split
  | cons first before =>
      obtain rfl : first = separator := by simpa using stops
      obtain ⟨rfl, rfl⟩ := Prod.mk.inj (Option.some.inj split)
      have spelled := congrArg List.reverse whole
      rw [List.reverse_reverse, List.reverse_append, List.reverse_cons, List.append_assoc] at spelled
      exact ⟨spelled.symm, fun listed => free (List.mem_reverse.mp listed)⟩

end Text

/-! ## What a specifier is cut down to -/

namespace Specifier

open Component

/-- Whether the last segment of a specifier is the name of an aggregator: `index`, or `index` with a known
extension behind it. -/
def endsInAggregator (specifier : String) : Bool :=
  match Text.splitAtLast? '/' (Text.trimEnd '/' specifier.toList) with
  | some (_, last) => namesBarrel last
  | none => false

/-- The name of an aggregator is a segment. -/
theorem isSegment_of_namesBarrel {last : List Char} (names : namesBarrel last = true) :
    (name (String.ofList last)).IsSegment := by
  rw [namesBarrel, decide_eq_true_iff] at names
  cases cut : Extension.known.findSome? fun extension =>
      Text.withoutSuffix? extension.toList last with
  | none =>
      rw [cut, Option.getD_none] at names
      rw [names, String.ofList_toList]
      exact Resolution.isSegment_barrelStem
  | some stem =>
      rw [cut, Option.getD_some] at names
      obtain ⟨extension, listed, without⟩ := List.exists_of_findSome?_eq_some cut
      rw [Text.withoutSuffix?] at without
      split at without
      · next ends =>
          obtain ⟨front, rfl⟩ := List.isSuffixOf_iff_suffix.mp ends
          have stem : front = Extension.barrelStem.toList := by
            rw [List.length_append, Nat.add_sub_cancel, List.take_left] at without
            exact (Option.some.inj without).trans names
          have spelled : String.ofList (front ++ extension.toList) =
              Extension.barrelStem ++ extension := by
            rw [← String.toList_inj, String.toList_append, String.toList_ofList, stem]
          rw [spelled]
          exact isSegment_name_append (by decide) listed
      · cases without

/-- A relative specifier begins with a dot. -/
theorem head?_of_isRelative {specifier : String} (relative : isRelative specifier = true) :
    specifier.toList.head? = some '.' := by
  simp only [isRelative, Bool.or_eq_true, decide_eq_true_iff, List.isPrefixOf_iff_prefix] at relative
  rcases relative with ((rfl | rfl) | ⟨rest, spelled⟩) | ⟨rest, spelled⟩
  · decide
  · decide
  · rw [← spelled]
    rfl
  · rw [← spelled]
    rfl

variable {specifier : String} (dot : specifier.toList.head? = some '.')
include dot

/-- What begins with a dot begins with it without separators at the end. -/
theorem head?_trimEnd : (Text.trimEnd '/' specifier.toList).head? = some '.' := by
  obtain ⟨count, spelled⟩ := Text.exists_trimEnd '/' specifier.toList
  rw [spelled] at dot
  cases trimmed : Text.trimEnd '/' specifier.toList with
  | cons first rest => simpa [trimmed] using dot
  | nil =>
      rw [trimmed, List.nil_append] at dot
      cases count with
      | zero => cases dot
      | succ count => cases dot

/-- So it is not empty without them. -/
theorem trimEnd_ne_nil : Text.trimEnd '/' specifier.toList ≠ [] := fun empty => by
  have head := head?_trimEnd dot
  simp [empty] at head

/-- A specifier that does not end in an aggregator only loses its trailing separators. -/
theorem barrelBase_of_not_endsInAggregator (other : endsInAggregator specifier = false) :
    barrelBase specifier = String.ofList (Text.trimEnd '/' specifier.toList) := by
  have filled : (Text.trimEnd '/' specifier.toList).isEmpty = false :=
    List.isEmpty_eq_false_iff.mpr (trimEnd_ne_nil dot)
  rw [endsInAggregator] at other
  rw [barrelBase]
  cases split : Text.splitAtLast? '/' (Text.trimEnd '/' specifier.toList) with
  | none => simp [filled]
  | some parts =>
      obtain ⟨front, last⟩ := parts
      rw [split] at other
      simp only [other]
      rfl

/-- A specifier that ends in the name of an aggregator is what it is cut down to and that name. -/
theorem exists_name_of_endsInAggregator (ends : endsInAggregator specifier = true) :
    ∃ text, (name text).IsSegment ∧
      String.ofList (Text.trimEnd '/' specifier.toList) = barrelBase specifier ++ "/" ++ text ∧
      (barrelBase specifier).toList.head? = some '.' := by
  have head := head?_trimEnd dot
  rw [endsInAggregator] at ends
  rw [barrelBase]
  cases split : Text.splitAtLast? '/' (Text.trimEnd '/' specifier.toList) with
  | none => simp [split] at ends
  | some parts =>
      obtain ⟨front, last⟩ := parts
      rw [split] at ends
      obtain ⟨spelled, -⟩ := Text.splitAtLast?_eq_some split
      rw [spelled] at head
      have names : namesBarrel last = true := ends
      cases front with
      | nil => cases head
      | cons first rest =>
          refine ⟨String.ofList last, isSegment_of_namesBarrel names, ?_, ?_⟩
          · rw [← String.toList_inj, spelled]
            simp [names]
          · simpa [names] using head

/-- The folder part begins with a dot too. -/
theorem head?_barrelBase : (barrelBase specifier).toList.head? = some '.' := by
  cases ends : endsInAggregator specifier with
  | true =>
      obtain ⟨-, -, -, head⟩ := exists_name_of_endsInAggregator dot ends
      exact head
  | false =>
      rw [barrelBase_of_not_endsInAggregator dot ends, String.toList_ofList]
      exact head?_trimEnd dot

end Specifier

/-! ## What it denotes -/

namespace Path

open Component

/-- Separators at the end are no components. -/
theorem components_append_replicate {text : List Char} (filled : text ≠ []) (count : Nat) :
    componentsOf (text ++ List.replicate count '/') = componentsOf text := by
  induction count with
  | zero => rw [List.replicate_zero, List.append_nil]
  | succ count ih =>
      rw [List.replicate_succ', ← List.append_assoc, componentsOf_append_singleton_slash, ih]
      exact List.append_ne_nil_of_left_ne_nil filled _

end Path

namespace Resolution

open Component

variable {host : FileSystem} {options : CompilerOptions} {specifier : String}
  {containingFile folder : Path}

/-- What begins with a dot is a relative path. -/
theorem not_isAbsolute_of_head? {text : String} (dot : text.toList.head? = some '.') :
    Path.isAbsolute ⟨text⟩ = false := by
  rw [Path.isAbsolute, dot]
  decide

/-- What a relative specifier denotes depends on its components. -/
theorem components_base_of_relative (relative : Path.isAbsolute ⟨specifier⟩ = false) :
    (base specifier containingFile).components =
      ((Path.components ⟨specifier⟩).foldl Path.fold
        ((containingFile.parent?.getD ⟨""⟩).components.foldl Path.fold [])).reverse := by
  rw [base, Path.components_normalize, Path.normalizeComponents, Path.foldl_components_join relative]

/-- Where a relative specifier leads depends on its components alone. -/
theorem base_congr {other : String} (relative : Path.isAbsolute ⟨specifier⟩ = false)
    (otherRelative : Path.isAbsolute ⟨other⟩ = false)
    (same : Path.components ⟨specifier⟩ = Path.components ⟨other⟩) :
    base specifier containingFile = base other containingFile := by
  apply Path.eq_of_components_eq (normalize_base _ _) (normalize_base _ _)
  rw [components_base_of_relative relative, components_base_of_relative otherRelative, same]

/-- A specifier put behind another leads on from what that denotes. -/
theorem base_append_slash {front behind : String} (dot : front.toList.head? = some '.')
    (relative : Path.isAbsolute ⟨behind⟩ = false) :
    base (front ++ "/" ++ behind) containingFile =
      ((base front containingFile).join ⟨behind⟩).normalize := by
  have filled : front.toList ≠ [] := fun empty => by simp [empty] at dot
  have head : behind.toList.head? ≠ some '/' := by simpa [Path.isAbsolute] using relative
  have dotted : (front ++ "/" ++ behind).toList.head? = some '.' := by
    simp [String.toList_append, List.head?_append, dot]
  have spelled : Path.components ⟨front ++ "/" ++ behind⟩ =
      Path.components ⟨front⟩ ++ (Path.components ⟨behind⟩).filter (· ≠ here) := by
    have text : (front ++ "/" ++ behind).toList = front.toList ++ '/' :: behind.toList := by
      simp [String.toList_append]
    rw [Path.components, Path.components, Path.components, text, Path.componentsOf_append_slash,
      Path.componentsOf_append_singleton_slash filled, Path.filter_componentsOf_of_relative head]
  apply Path.eq_of_components_eq (normalize_base _ _) (Path.normalize_normalize _)
  rw [components_base_of_relative (not_isAbsolute_of_head? dotted), spelled, List.foldl_append,
    Path.foldl_filter_here, Path.components_normalize, Path.normalizeComponents,
    Path.foldl_components_join relative, Path.foldl_components (normalize_base _ _),
    components_base_of_relative (not_isAbsolute_of_head? dot), List.reverse_reverse]

/-- Trailing separators change nothing about where it leads. -/
theorem base_trimEnd (dot : specifier.toList.head? = some '.') :
    base (String.ofList (Text.trimEnd '/' specifier.toList)) containingFile =
      base specifier containingFile := by
  obtain ⟨count, spelled⟩ := Text.exists_trimEnd '/' specifier.toList
  have trimmed : (String.ofList (Text.trimEnd '/' specifier.toList)).toList.head? = some '.' := by
    rw [String.toList_ofList, Specifier.head?_trimEnd dot]
  have whole : Path.components ⟨specifier⟩ =
      Path.componentsOf (Text.trimEnd '/' specifier.toList ++ List.replicate count '/') :=
    congrArg Path.componentsOf spelled
  apply base_congr (not_isAbsolute_of_head? trimmed) (not_isAbsolute_of_head? dot)
  rw [whole, Path.components_append_replicate (Specifier.trimEnd_ne_nil dot), Path.components,
    String.toList_ofList]

/-- What is cut down to a folder leads there, and the name of the aggregator on from there. -/
theorem base_of_endsInAggregator (dot : specifier.toList.head? = some '.')
    (ends : Specifier.endsInAggregator specifier = true) (containingFile : Path) :
    ∃ text, (name text).IsSegment ∧ base specifier containingFile =
      (base (Specifier.barrelBase specifier) containingFile).join ⟨text⟩ := by
  obtain ⟨text, segment, spelled, head⟩ := Specifier.exists_name_of_endsInAggregator dot ends
  refine ⟨text, segment, ?_⟩
  rw [← base_trimEnd dot, spelled,
    base_append_slash head (Path.not_isAbsolute_of_notMem segment.name_whole),
    Path.normalize_join (normalize_base _ _) segment]

/-- A specifier that does not end in an aggregator leads where its folder part does. -/
theorem base_of_not_endsInAggregator (dot : specifier.toList.head? = some '.')
    (other : Specifier.endsInAggregator specifier = false) (containingFile : Path) :
    base (Specifier.barrelBase specifier) containingFile = base specifier containingFile := by
  rw [Specifier.barrelBase_of_not_endsInAggregator dot other, base_trimEnd dot]

/-- The specifier of an entity leads on from what the specifier of its folder denotes. -/
theorem base_origin (dot : specifier.toList.head? = some '.') {entity : Entity}
    (relative : Path.isAbsolute ⟨Specifier.originName entity options⟩ = false)
    (containingFile : Path) :
    base (Specifier.origin specifier entity options) containingFile =
      ((base specifier containingFile).join ⟨Specifier.originName entity options⟩).normalize := by
  have trimmed : Specifier.withoutTrailingSeparators specifier =
      String.ofList (Text.trimEnd '/' specifier.toList) :=
    if_neg (by simpa using Specifier.trimEnd_ne_nil dot)
  have head : (String.ofList (Text.trimEnd '/' specifier.toList)).toList.head? = some '.' := by
    rw [String.toList_ofList, Specifier.head?_trimEnd dot]
  rw [Specifier.origin, trimmed, base_append_slash head relative, base_trimEnd dot]

/-! ## What it was resolved to -/

/-- A barrel that stands inside a folder is the barrel of this folder. -/
theorem eq_of_barrelPath_mem_inside {place : Path} (normal : place.normalize = place)
    (inside : Folder.barrelPath folder ∈
      fileCandidates options (place.join ⟨Extension.barrelStem⟩)) :
    place = folder.normalize := by
  rw [fileCandidates_join _ isSegment_barrelStem, barrelPath_eq_join] at inside
  obtain ⟨tried, listed, same⟩ := List.mem_map.mp inside
  exact Path.join_left_injective normal folder.normalize_normalize
    (isSegment_of_mem_namesTried isSegment_barrelStem listed) Extension.isSegment_barrelFileName same

/-- A barrel that a path stands for as a file is the barrel of the folder that the path lies in. -/
theorem exists_join_of_barrelPath_mem {place : Path} (normal : place.normalize = place)
    (beside : Folder.barrelPath folder ∈ fileCandidates options place) :
    ∃ text, (name text).IsSegment ∧ place = folder.normalize.join ⟨text⟩ := by
  rw [barrelPath_eq_join] at beside
  cases named : place.fileName? with
  | some text =>
      obtain ⟨parent, parentNormal, rfl⟩ := Path.exists_folder_of_fileName? normal named
      have segment := Path.isSegment_of_fileName? named
      rw [fileCandidates_join _ segment] at beside
      obtain ⟨tried, listed, same⟩ := List.mem_map.mp beside
      have one := Path.join_left_injective parentNormal folder.normalize_normalize
        (isSegment_of_mem_namesTried segment listed) Extension.isSegment_barrelFileName same
      exact ⟨text, segment, by rw [one]⟩
  -- Extensions behind `..` or behind nothing make no aggregator.
  | none =>
      have differ : ∀ label ∈ ["", ".."], ∀ tried ∈ Extension.known,
          label ++ tried ≠ Extension.barrelFileName := by decide
      obtain ⟨parent, label, listed, tried, known, -, -, segment, same⟩ :=
        exists_extension_of_mem_fileCandidates normal named beside
      have spelled := congrArg Path.fileName? same
      rw [Path.fileName?_join _ Extension.isSegment_barrelFileName,
        Path.fileName?_join _ segment] at spelled
      exact (differ label listed tried known (Option.some.inj spelled).symm).elim

/-- Only relative specifiers are resolved to a file. -/
theorem isRelative_of_resolve {file : Path}
    (resolved : resolve host options specifier containingFile = some file) :
    Specifier.isRelative specifier = true := by
  by_contra other
  rw [resolve, candidates, if_neg other] at resolved
  cases resolved

/-- A specifier that resolves to the barrel of a folder is resolved to it as a file, or is resolved to no file
and denotes the folder. -/
theorem find?_fileCandidates_of_resolve_barrelPath
    (resolved : resolve host options specifier containingFile = some (Folder.barrelPath folder)) :
    let place := base specifier containingFile
    (fileCandidates options place).find? host.fileExists = some (Folder.barrelPath folder) ∨
      (fileCandidates options place).find? host.fileExists = none ∧ place = folder.normalize := by
  intro place
  rw [resolve, candidates, if_pos (isRelative_of_resolve resolved), List.find?_append] at resolved
  cases found : (fileCandidates options place).find? host.fileExists with
  | some file =>
      rw [found, Option.some_or] at resolved
      exact .inl resolved
  | none =>
      rw [found, Option.none_or] at resolved
      exact .inr ⟨rfl, eq_of_barrelPath_mem_inside (normalize_base specifier containingFile)
        (List.mem_of_find?_eq_some resolved)⟩

/-- A specifier that resolves to the barrel of a folder denotes a file of the folder if it is resolved as a
file, and the folder itself otherwise. -/
theorem base_of_resolve_barrelPath
    (resolved : resolve host options specifier containingFile = some (Folder.barrelPath folder)) :
    let place := base specifier containingFile
    (∃ file ∈ fileCandidates options place, host.fileExists file = true) ∧
        (∃ text, (name text).IsSegment ∧ place = folder.normalize.join ⟨text⟩) ∨
      (¬∃ file ∈ fileCandidates options place, host.fileExists file = true) ∧
        place = folder.normalize := by
  intro place
  have normal : place.normalize = place := normalize_base specifier containingFile
  rcases find?_fileCandidates_of_resolve_barrelPath resolved with found | ⟨missing, lies⟩
  · left
    have listed := List.mem_of_find?_eq_some found
    exact ⟨⟨_, listed, List.find?_some found⟩, exists_join_of_barrelPath_mem normal listed⟩
  · right
    refine ⟨?_, lies⟩
    rintro ⟨file, listed, present⟩
    exact List.find?_eq_none.mp missing file listed present

/-- A specifier that resolves to the barrel of a folder is cut down to a specifier that denotes the folder
if and only if it ends in the name of an aggregator exactly where it was resolved as a file. A specifier
that is derived from it stands for a name in whatever folder it denotes. -/
theorem barrelBase_denotes_iff (host : FileSystem) (options : CompilerOptions)
    {specifier : String} {containingFile folder : Path}
    (resolved : resolve host options specifier containingFile = some (Folder.barrelPath folder)) :
    let denoted := base (Specifier.barrelBase specifier) containingFile
    (denoted = folder.normalize ↔
      (Specifier.endsInAggregator specifier = true ↔
        ∃ file ∈ fileCandidates options (base specifier containingFile),
          host.fileExists file = true)) ∧
      ∀ entity, Path.isAbsolute ⟨Specifier.originName entity options⟩ = false →
        base (Specifier.origin (Specifier.barrelBase specifier) entity options) containingFile =
          (denoted.join ⟨Specifier.originName entity options⟩).normalize := by
  intro denoted
  have dot := Specifier.head?_of_isRelative (isRelative_of_resolve resolved)
  refine ⟨?_, fun entity relative => base_origin (Specifier.head?_barrelBase dot) relative _⟩
  rcases base_of_resolve_barrelPath resolved with ⟨exist, text, segment, lies⟩ | ⟨missing, lies⟩
  · rw [iff_true_right exist]
    cases ends : Specifier.endsInAggregator specifier with
    | true =>
        obtain ⟨aggregator, named, leads⟩ := base_of_endsInAggregator dot ends containingFile
        have same := Path.join_left_injective (normalize_base _ _) folder.normalize_normalize
          named segment (leads.symm.trans lies)
        exact iff_of_true same rfl
    | false =>
        refine iff_of_false (fun same => ?_) Bool.false_ne_true
        have kept : denoted = base specifier containingFile :=
          base_of_not_endsInAggregator dot ends containingFile
        exact Path.join_name_ne_self segment (lies.symm.trans (kept.symm.trans same))
  · rw [iff_false_right missing]
    cases ends : Specifier.endsInAggregator specifier with
    | true =>
        obtain ⟨aggregator, named, leads⟩ := base_of_endsInAggregator dot ends containingFile
        refine iff_of_false (fun same => ?_) (not_not_intro rfl)
        have onward : denoted.join ⟨aggregator⟩ = denoted :=
          leads.symm.trans (lies.trans same.symm)
        exact Path.join_name_ne_self named onward
    | false =>
        refine iff_of_true ?_ Bool.false_ne_true
        exact (base_of_not_endsInAggregator dot ends containingFile).trans lies

/-- The name of an emitted aggregator and separators behind it are cut off. -/
theorem barrelBase_of_emitted_index_denotes :
    let disk : Disk := .ofList [(⟨"/p/c/index.ts"⟩, "")] []
    let entity : Entity := ⟨"v", "a", ".ts", false, false, none⟩
    resolve disk.fileSystem {} ".././c//index.js/" ⟨"/p/d/m.ts"⟩ =
        some (Folder.barrelPath ⟨"/p/c"⟩) ∧
      base (Specifier.barrelBase ".././c//index.js/") ⟨"/p/d/m.ts"⟩ = ⟨"/p/c"⟩ ∧
      base (Specifier.origin (Specifier.barrelBase ".././c//index.js/") entity {}) ⟨"/p/d/m.ts"⟩ =
        ⟨"/p/c/a"⟩ := by
  intro disk entity
  have resolved : resolve disk.fileSystem {} ".././c//index.js/" ⟨"/p/d/m.ts"⟩ =
      some (Folder.barrelPath ⟨"/p/c"⟩) := by decide +kernel
  obtain ⟨agrees, derived⟩ := barrelBase_denotes_iff disk.fileSystem {} resolved
  have denoted : base (Specifier.barrelBase ".././c//index.js/") ⟨"/p/d/m.ts"⟩ = ⟨"/p/c"⟩ :=
    agrees.mpr (iff_of_true (by decide +kernel) ⟨⟨"/p/c/index.ts"⟩, by decide +kernel⟩)
  refine ⟨resolved, denoted, ?_⟩
  rw [derived entity (by decide), denoted]
  decide +kernel

/-- A folder with the name `index` is resolved as a folder, but its name is cut off, and what is written
names a file beside the folder. -/
theorem barrelBase_of_folder_index_denotes_parent :
    let text := "import\x7bv\x7dfrom'./index'"
    let disk : Disk := .ofList
      [(⟨"main.ts"⟩, text), (⟨"index.mts"⟩, ""), (⟨"index/a.ts"⟩, "export const v = 1")] []
    let program : Program :=
      ⟨[⟨"main.ts"⟩, ⟨"index.mts"⟩, ⟨"index/a.ts"⟩], { module := .esNext }, fun _ => []⟩
    let host := (program.transform disk.fileSystem true).2
    host.resolve "./index" ⟨"main.ts"⟩ = some (Folder.barrelPath ⟨"index"⟩) ∧
      base (Specifier.barrelBase "./index") ⟨"main.ts"⟩ = ⟨""⟩ ∧
      base (Specifier.barrelBase "./index") ⟨"main.ts"⟩ ≠ (⟨"index"⟩ : Path).normalize ∧
      host.writtenText? ⟨"main.js"⟩ text [⟨"main.ts"⟩] = some "import \x7b v \x7d from './a';" := by
  decide +kernel

end Resolution

end BarrelSynthesis
