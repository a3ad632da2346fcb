/-
# Specifiers of a barrel

A relative specifier leads to the barrel of a folder along one of two ways. It may denote the barrel itself,
its stem or the file emitted for it: then the barrel is the first file that is tried. Or it denotes the
folder: then the barrel is tried when the folder stands for no file. There is no other way to a barrel, on
whatever disk it stands.
-/
import BarrelSynthesis.Proofs.Imports.BarrelFolder

namespace BarrelSynthesis

open Component

namespace Resolution

variable {host : FileSystem} {options : CompilerOptions} {folder containingFile : Path}
  {specifier text : String}

/-- The names in a folder that stand for its barrel. -/
def barrelNames : List String :=
  ["index", "index.js", "index.ts"]

theorem isSegment_of_mem_barrelNames (member : text ∈ barrelNames) : (name text).IsSegment := by
  have plain : ∀ text ∈ barrelNames,
      text ≠ "" ∧ text ≠ "." ∧ text ≠ ".." ∧ '/' ∉ text.toList := by decide
  exact isSegment_name_iff.mpr (plain text member)

/-- For each of these names the barrel is tried before any other file. -/
theorem exists_namesTried_eq_cons (options : CompilerOptions) (member : text ∈ barrelNames) :
    ∃ behind, namesTried options text = Extension.barrelFileName :: behind := by
  have stem : Extension.ofName? "index" = none := by decide
  have emitted : Extension.ofName? "index.js" = some ".js" := by decide
  have itself : Extension.ofName? "index.ts" = some ".ts" := by decide
  rcases List.mem_cons.mp member with rfl | member
  · rw [namesTried_of_unknown stem]
    exact ⟨_, rfl⟩
  rcases List.mem_cons.mp member with rfl | member
  · rw [namesTried_of_known emitted]
    exact ⟨_, rfl⟩
  · rw [List.mem_singleton.mp member, namesTried_of_known itself]
    exact ⟨_, rfl⟩

/-- Of the known extensions only one makes the name of a barrel. -/
theorem eq_of_append_eq_barrelFileName {front extension : String}
    (known : extension ∈ Extension.known) (spelled : front ++ extension = Extension.barrelFileName) :
    extension = ".ts" ∧ front = Extension.barrelStem := by
  have ending : ∀ extension ∈ Extension.known,
      extension.toList.isSuffixOf Extension.barrelFileName.toList = true → extension = ".ts" := by
    decide
  have suffix : extension.toList <:+ Extension.barrelFileName.toList := by
    rw [← spelled, String.toList_append]
    exact List.suffix_append _ _
  obtain rfl := ending extension known (List.isSuffixOf_iff_suffix.mpr suffix)
  refine ⟨rfl, ?_⟩
  rw [← Extension.strip_append front ".ts", spelled]
  decide

/-- No other name is looked for under the name of the barrel. -/
theorem mem_barrelNames_of_mem_namesTried
    (member : Extension.barrelFileName ∈ namesTried options text) : text ∈ barrelNames := by
  have extended (member : Extension.barrelFileName ∈ (triedExtensions options).map (text ++ ·)) :
      text ∈ barrelNames := by
    obtain ⟨extension, listed, spelled⟩ := List.mem_map.mp member
    obtain ⟨-, rfl⟩ :=
      eq_of_append_eq_barrelFileName (mem_known_of_mem_triedExtensions listed) spelled
    decide
  cases found : Extension.ofName? text with
  | none =>
      rw [namesTried_of_unknown found] at member
      exact extended member
  | some extension =>
      rw [namesTried_of_known found, List.append_assoc] at member
      rcases List.mem_append.mp member with sourced | member
      · obtain ⟨source, listed, spelled⟩ := List.mem_map.mp sourced
        obtain ⟨rfl, stem⟩ :=
          eq_of_append_eq_barrelFileName (mem_known_of_mem_sourceExtensions listed) spelled
        obtain ⟨known, -, whole⟩ := Extension.ofName?_eq_some found
        have emitted : ∀ extension ∈ Extension.known,
            ".ts" ∈ sourceExtensions extension → extension = ".js" := by decide
        obtain rfl := emitted extension known listed
        rw [stem] at whole
        rw [← whole]
        decide
      · rcases List.mem_append.mp member with itself | member
        · rw [← List.mem_singleton.mp itself]
          decide
        · exact extended member

/-- A barrel is tried as a file for its names in the folder only. -/
theorem exists_mem_barrelNames_of_mem {place : Path} (normal : place.normalize = place)
    (beside : Folder.barrelPath folder ∈ fileCandidates options place) :
    ∃ text ∈ barrelNames, place = folder.normalize.join ⟨text⟩ := by
  obtain ⟨text, segment, rfl⟩ := exists_join_of_barrelPath_mem normal beside
  rw [fileCandidates_join _ segment, barrelPath_eq_join] at beside
  obtain ⟨tried, member, same⟩ := List.mem_map.mp beside
  have whole := (isSegment_of_mem_namesTried segment member).name_whole
  obtain rfl := Path.join_right_injective _ whole
    Extension.isSegment_barrelFileName.name_whole same
  exact ⟨text, mem_barrelNames_of_mem_namesTried member, rfl⟩

/-- A barrel that exists is found under each of its names. -/
theorem find?_fileCandidates_of_mem_barrelNames
    (stored : host.fileExists (Folder.barrelPath folder) = true) (member : text ∈ barrelNames) :
    (fileCandidates options (folder.normalize.join ⟨text⟩)).find? host.fileExists =
      some (Folder.barrelPath folder) := by
  obtain ⟨behind, tried⟩ := exists_namesTried_eq_cons options member
  rw [barrelPath_eq_join] at stored ⊢
  rw [fileCandidates_join _ (isSegment_of_mem_barrelNames member), tried, List.map_cons,
    List.find?_cons_of_pos stored]

/-- A relative specifier leads to the barrel of a folder exactly when it denotes a name of the barrel in the
folder, or the folder itself and the folder stands for no file. -/
theorem resolve_eq_barrelPath_iff (relative : Specifier.isRelative specifier = true)
    (stored : host.fileExists (Folder.barrelPath folder) = true) :
    resolve host options specifier containingFile = some (Folder.barrelPath folder) ↔
      (∃ text ∈ barrelNames, base specifier containingFile = folder.normalize.join ⟨text⟩) ∨
        base specifier containingFile = folder.normalize ∧
          ∀ candidate ∈ fileCandidates options folder.normalize,
            ¬host.fileExists candidate = true := by
  constructor
  · intro resolved
    rcases find?_fileCandidates_of_resolve_barrelPath resolved with found | ⟨missing, lies⟩
    · have listed := List.mem_of_find?_eq_some found
      exact .inl (exists_mem_barrelNames_of_mem (normalize_base _ _) listed)
    · rw [lies] at missing
      exact .inr ⟨lies, List.find?_eq_none.mp missing⟩
  · rw [resolve, candidates, if_pos relative, List.find?_append]
    rintro (⟨text, member, lies⟩ | ⟨lies, missing⟩)
    · rw [lies, find?_fileCandidates_of_mem_barrelNames stored member, Option.some_or]
    · have itself : Extension.barrelStem ∈ barrelNames := by decide
      rw [lies, List.find?_eq_none.mpr missing, Option.none_or,
        find?_fileCandidates_of_mem_barrelNames stored itself]

/-! ## Spelling of what is found -/

/-- What a specifier resolves to is spelled as plainly as it can be. -/
theorem normalize_of_resolve {found : Path}
    (resolved : resolve host options specifier containingFile = some found) :
    found.normalize = found := by
  have relative := isRelative_of_resolve resolved
  have normal := normalize_base specifier containingFile
  have member := List.mem_of_find?_eq_some resolved
  rw [candidates, if_pos relative] at member
  rcases List.mem_append.mp member with beside | inside
  · exact normalize_of_mem_fileCandidates normal beside
  · exact normalize_of_mem_fileCandidates (Path.normalize_join normal isSegment_barrelStem) inside

end Resolution

namespace BuildHost

open Resolution

/-- Whatever barrels a build has, and on whatever disk: a relative specifier that resolves to the barrel of a
folder denotes the folder, or one of three names in it. Those that denote one of the three names resolve to
the barrel, and so do those that denote the folder, if its last component has no known extension and no
extension that is tried behind the folder makes a file. -/
theorem specifiers_of_barrel (host : BuildHost) (containingFile : Path) {folder : Path}
    {specifier : String} (stored : host.store.contains (Folder.barrelPath folder) = true)
    (relative : Specifier.isRelative specifier = true) :
    let denoted := ((containingFile.parent?.getD ⟨""⟩).join ⟨specifier⟩).normalize
    let place := folder.normalize
    let named := [place.join ⟨"index"⟩, place.join ⟨"index.js"⟩, place.join ⟨"index.ts"⟩]
    (∀ found, host.resolve specifier containingFile = some found →
        found.components = (Folder.barrelPath folder).components →
          denoted = place ∨ denoted ∈ named) ∧
      (denoted ∈ named →
        host.resolve specifier containingFile = some (Folder.barrelPath folder)) ∧
      (denoted = place → Extension.ofPath? place = none →
        (∀ extension ∈ triedExtensions host.options,
          host.fileSystem.fileExists ⟨place.text ++ extension⟩ = false) →
        host.resolve specifier containingFile = some (Folder.barrelPath folder)) := by
  intro denoted place named
  have served : host.fileSystem.fileExists (Folder.barrelPath folder) = true := by
    show (host.store.contains (Folder.barrelPath folder) || _) = true
    rw [stored, Bool.true_or]
  have leads : host.resolve specifier containingFile = some (Folder.barrelPath folder) ↔ _ :=
    resolve_eq_barrelPath_iff relative served
  have listed : denoted ∈ named ↔ ∃ text ∈ barrelNames, denoted = place.join ⟨text⟩ := by
    rw [show named = barrelNames.map fun text => place.join ⟨text⟩ from rfl, List.mem_map]
    simp only [eq_comm]
  refine ⟨fun found resolved same => ?_, fun member => leads.mpr (.inl (listed.mp member)),
    fun lies unknown missing => leads.mpr (.inr ⟨lies, fun candidate member => ?_⟩)⟩
  · have isBarrel : found = Folder.barrelPath folder :=
      Path.eq_of_components_eq (normalize_of_resolve resolved) (Path.normalize_normalize _) same
    rw [isBarrel] at resolved
    rcases leads.mp resolved with inside | ⟨lies, -⟩
    · exact .inr (listed.mpr inside)
    · exact .inl lies
  · rw [fileCandidates, unknown, List.nil_append] at member
    obtain ⟨extension, tried, rfl⟩ := List.mem_map.mp member
    exact Bool.eq_false_iff.mp (missing extension tried)

/-- From the file of another folder, a barrel is reached under the name of its emitted file, with separators
behind it, and under its folder, beside which a file of the same stem stands. -/
theorem barrel_reached_by_emitted_name_and_folder :
    let disk : Disk := .ofList [(⟨"/p/c/a.ts"⟩, "export const v = 1"), (⟨"/p/c.mts"⟩, "")] []
    let store : BarrelStore := BarrelStore.empty.insert ⟨"/p/d/../c/index.ts"⟩ default
    let host : BuildHost := ⟨disk.fileSystem, store, {}, true⟩
    host.resolve ".././c//index.js/" ⟨"/p/d/m.ts"⟩ = some (Folder.barrelPath ⟨"/p/c"⟩) ∧
      host.resolve "../c" ⟨"/p/d/m.ts"⟩ = some (Folder.barrelPath ⟨"/p/c"⟩) ∧
      base "../c" ⟨"/p/d/m.ts"⟩ ∈
        [⟨"/p/c"⟩, ⟨"/p/c/index"⟩, ⟨"/p/c/index.js"⟩, (⟨"/p/c/index.ts"⟩ : Path)] := by
  intro disk store host
  have stored : host.store.contains (Folder.barrelPath ⟨"/p/c"⟩) = true := by decide
  have emittedRelative : Specifier.isRelative ".././c//index.js/" = true := by decide
  have folderRelative : Specifier.isRelative "../c" = true := by decide
  obtain ⟨-, byName, -⟩ := specifiers_of_barrel host ⟨"/p/d/m.ts"⟩ stored emittedRelative
  obtain ⟨denotes, -, byFolder⟩ := specifiers_of_barrel host ⟨"/p/d/m.ts"⟩ stored folderRelative
  have missing : ∀ extension ∈ triedExtensions host.options,
      host.fileSystem.fileExists ⟨"/p/c" ++ extension⟩ = false := by decide
  have reached := byFolder (by decide) (by decide) missing
  refine ⟨byName (by decide), reached, ?_⟩
  rcases denotes _ reached rfl with place | inside
  · exact List.mem_cons.mpr (.inl place)
  · exact List.mem_cons_of_mem _ inside

end BuildHost

end BarrelSynthesis
