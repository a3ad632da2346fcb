/-
# Where the specifiers of a barrel lead

A barrel names the origin of an entity by a specifier, and resolution looks for a file behind the
specifier; the two go by different tables of extensions. Resolving a specifier of a barrel gives back the
file of its entity exactly when, of the names that resolution tries for it in the folder, the first one
that exists is the name of that file. An asset is tried under its own name alone; where specifiers carry
the extension of the emitted file, the sources of that extension are tried before it; everywhere else
the extensions behind the stem are, and `.mts` or `.cts` is none of them.
-/
import BarrelSynthesis.Disk.Flat
import BarrelSynthesis.Proofs.Barrel.Listing
import BarrelSynthesis.Proofs.Barrel.Provenance
import BarrelSynthesis.Proofs.Imports.NamedBindings
import BarrelSynthesis.Proofs.Imports.Resolution

namespace BarrelSynthesis

open Component

namespace Specifier

/-- The names under which the file of an entity is looked for in its folder, in order. A stem of one dot
names the folder itself and one of two dots its parent, unless there is none. -/
def lookupNames (options : CompilerOptions) (folder : Path) (entity : Entity) : List String :=
  if entity.isExternal then [entity.fileName]
  else if options.isNodeModernResolution then
    (Resolution.sourceExtensions (Extension.output entity.extension options)
      ++ [Extension.output entity.extension options]).map (entity.fileName ++ ·)
  else if entity.fileName = "." then []
  else if entity.fileName = ".." && folder.normalize.text != "" && folder.normalize.text != "/" then
    []
  else Resolution.namesTried options entity.fileName

end Specifier

namespace Resolution

variable {host : FileSystem} {options : CompilerOptions} {folder : Path}

/-- The full name of an asset is tried as it is, before anything behind it. -/
theorem find?_namesTried_data {p : String → Bool} {name : String}
    (data : Extension.ofName? name = some Extension.json) :
    (namesTried options name).find? p = some name ↔ [name].find? p = some name := by
  have longer : name ∉ (triedExtensions options).map (name ++ ·) := by
    intro member
    obtain ⟨extension, listed, same⟩ := List.mem_map.mp member
    have visible : ∀ extension ∈ Extension.known, 0 < extension.toList.length := by decide
    have behind := visible extension (mem_known_of_mem_triedExtensions listed)
    have length := congrArg (fun text => text.toList.length) same
    simp only [String.toList_append, List.length_append] at length
    omega
  have sources : sourceExtensions Extension.json = [] := by decide
  rw [namesTried_of_known data]
  refine (find?_append_eq_some_iff longer).trans ?_
  rw [sources, List.map_nil, List.nil_append]

/-- Behind a stem with the extension of an emitted file, only its sources and that file matter. -/
theorem find?_namesTried_emitted {p : String → Bool} {front emitted extension name : String}
    (filled : front ≠ "") (member : emitted ∈ Extension.emitted)
    (known : extension ∈ Extension.known) (spelled : front ++ extension = name) :
    (namesTried options (front ++ emitted)).find? p = some name ↔
      ((sourceExtensions emitted ++ [emitted]).map (front ++ ·)).find? p = some name := by
  have doubled : ∀ emitted ∈ Extension.emitted, ∀ tried ∈ Extension.known,
      ∀ extension ∈ Extension.known, emitted ++ tried ≠ extension := by decide
  have longer : name ∉ (triedExtensions options).map (front ++ emitted ++ ·) := by
    intro listed
    obtain ⟨tried, tries, same⟩ := List.mem_map.mp listed
    rw [← spelled, String.append_assoc] at same
    exact doubled emitted member tried (mem_known_of_mem_triedExtensions tries) extension known
      ((String.append_right_inj _).mp same)
  rw [namesTried_of_known (Extension.ofName?_append_of_mem_emitted filled member)]
  refine (find?_append_eq_some_iff longer).trans ?_
  rw [Extension.strip_append, List.map_append, List.map_singleton]

/-- A bare stem leads to the file with an extension behind it by the names tried for the stem, unless the
stem consists of dots and leads out of the folder. -/
theorem resolve_stem_iff {front extension name : String} (filled : front ≠ "")
    (whole : '/' ∉ front.toList) (known : extension ∈ Extension.known)
    (spelled : front ++ extension = name) :
    resolve host options ("./" ++ front) (Folder.barrelPath folder) =
        some (folder.normalize.join ⟨name⟩) ↔
      (if front = "." then []
        else if front = ".." && folder.normalize.text != "" && folder.normalize.text != "/" then []
        else namesTried options front).find?
          (fun tried => host.fileExists (folder.normalize.join ⟨tried⟩)) = some name := by
  have segment : (Component.name name).IsSegment := by
    rw [← spelled]
    exact isSegment_name_append whole known
  by_cases here : front = "."
  · subst here
    rw [if_pos rfl, ← spelled]
    exact iff_of_false (resolve_here_ne known) (by simp)
  · rw [if_neg here]
    by_cases level : front = ".."
    · subst level
      refine (resolve_up_iff segment).trans ?_
      by_cases outermost : folder.normalize.text = "" ∨ folder.normalize.text = "/"
      · rw [and_iff_right outermost, if_neg]
        rcases outermost with empty | slash <;> simp [*]
      · rw [if_pos (by simpa using outermost)]
        exact iff_of_false (fun both => outermost both.1) (by simp)
    · rw [if_neg (by simp [level])]
      exact resolve_of_isSegment (isSegment_name_iff.mpr ⟨filled, here, level, whole⟩) segment

/-- The specifier of an entity leads back to its file exactly when the first of the names tried that
exists is that of the file. -/
theorem resolve_origin_iff {file : Path} {entity : Entity}
    (listed : file ∈ Folder.files host options folder)
    (member : entity ∈ Contribution.entitiesOf host file) :
    resolve host options (Specifier.origin "." entity options) (Folder.barrelPath folder) =
        some file ↔
      (Specifier.lookupNames options folder entity).find?
        (fun name => host.fileExists (folder.normalize.join ⟨name⟩)) = file.fileName? := by
  obtain ⟨name, extension, spelled, named, found, supported⟩ :=
    Folder.exists_name_of_mem_files listed
  obtain ⟨ending, stem⟩ := Contribution.origin_of_mem_entitiesOf named found member
  obtain ⟨known, filled, parts⟩ := Extension.ofName?_eq_some found
  have segment := Path.isSegment_of_fileName? named
  have whole := Extension.notMem_strip found segment.name_whole
  rw [named, spelled, Specifier.origin_here, Specifier.originName, Specifier.lookupNames,
    Entity.isExternal, ending]
  cases code : Extension.isCode extension with
  | false =>
      rw [code, if_neg Bool.false_ne_true] at stem
      rw [Bool.not_false, if_pos rfl, if_pos rfl, stem]
      rw [Extension.eq_json_of_mem_supported supported code] at found
      exact (resolve_of_isSegment segment segment).trans (find?_namesTried_data found)
  | true =>
      rw [code, if_pos rfl] at stem
      rw [Bool.not_true, if_neg Bool.false_ne_true, if_neg Bool.false_ne_true, stem]
      cases modern : options.isNodeModernResolution with
      | true =>
          have emitted := Extension.output_mem_emitted options code
          have emittedKnown : Extension.output extension options ∈ Extension.known :=
            (by decide : ∀ emitted ∈ Extension.emitted, emitted ∈ Extension.known) _ emitted
          rw [if_pos rfl, if_pos rfl]
          exact (resolve_of_isSegment (isSegment_name_append whole emittedKnown) segment).trans
            (find?_namesTried_emitted filled emitted known parts)
      | false =>
          rw [if_neg Bool.false_ne_true, if_neg Bool.false_ne_true]
          exact resolve_stem_iff filled whole known parts

end Resolution

namespace Barrel

/-- For every key of a calculated barrel, the statements export the key from one module, and its entity
comes from a listed file that no later file of the listing overrides. Resolving the module from the place
of the barrel gives back that very file if and only if, of the names that are tried for the entity in the
folder, the first one that exists is the name of the file. -/
theorem specifier_leads_back_iff (host : FileSystem) (options : CompilerOptions) (folder : Path)
    {key : String} {entity : Entity}
    (won : (calculate host options folder).barrel.manifest.get? key = some entity) :
    ∃ before file after module,
      Folder.files host options folder = before ++ file :: after ∧
      entity ∈ Contribution.entitiesOf host file ∧
      (∀ later ∈ after, ∀ other ∈ Contribution.entitiesOf host later, other.identifier ≠ key) ∧
      (∀ origin named, (calculate host options folder).barrel.Gives key origin named ↔
        origin = entity.exportedName ∧ named = module) ∧
      (Resolution.resolve host options module (Folder.barrelPath folder) = some file ↔
        (Specifier.lookupNames options folder entity).find?
          (fun name => host.fileExists (folder.normalize.join ⟨name⟩)) = file.fileName?) := by
  obtain ⟨before, file, after, files, inside, last⟩ := exists_file_of_get?_calculate won
  have listed : file ∈ Folder.files host options folder := by
    rw [files]
    exact List.mem_append_right _ List.mem_cons_self
  refine ⟨before, file, after, Specifier.origin "." entity options, files, inside, last, ?_,
    Resolution.resolve_origin_iff listed inside⟩
  have identified := identifier_of_get?_calculate won
  intro origin named
  rw [calculate_barrel, ofManifest_gives_iff]
  constructor
  · rintro ⟨other, member, same, exported, module⟩
    have found := mem_entities_calculate_iff.mp member
    rw [same, won] at found
    obtain rfl := Option.some.inj found
    exact ⟨exported.symm, module.symm⟩
  · rintro ⟨rfl, rfl⟩
    exact ⟨entity, mem_entities_calculate_iff.mpr (by rw [identified, won]), identified, rfl, rfl⟩

/-- The one file of a folder, by its stem. -/
theorem specifier_of_stem_leads_back :
    let files : Disk := .ofList [(⟨"c/a.ts"⟩, "export const v = 1")] []
    let barrel := (calculate files.fileSystem {} ⟨"c"⟩).barrel
    ∃ module, (∀ origin named, barrel.Gives "v" origin named ↔ origin = "v" ∧ named = module) ∧
      Resolution.resolve files.fileSystem {} module (Folder.barrelPath ⟨"c"⟩) =
        some ⟨"c/a.ts"⟩ := by
  intro files barrel
  have won : barrel.manifest.get? "v" = some ⟨"v", "a", ".ts", false, false, some ⟨13, 14⟩⟩ := by
    decide +kernel
  obtain ⟨before, file, after, module, listed, -, -, gives, leads⟩ :=
    specifier_leads_back_iff files.fileSystem {} ⟨"c"⟩ won
  have single : Folder.files files.fileSystem {} ⟨"c"⟩ = [⟨"c/a.ts"⟩] := by decide +kernel
  have member : file ∈ Folder.files files.fileSystem {} ⟨"c"⟩ := by simp [listed]
  rw [single, List.mem_singleton] at member
  subst member
  exact ⟨module, gives, leads.mpr (by decide +kernel)⟩

/-- The stem of an `.mts` file is exported, but leads to no file at all. -/
theorem specifier_of_mts_stem_leads_nowhere :
    let files : Disk := .ofList [(⟨"c/a.mts"⟩, "export const v = 1")] []
    let calculation := calculate files.fileSystem {} ⟨"c"⟩
    calculation.includedFiles = [⟨"c/a.mts"⟩] ∧ calculation.barrel.Gives "v" "v" "./a" ∧
      Resolution.resolve files.fileSystem {} "./a" (Folder.barrelPath ⟨"c"⟩) = none := by
  refine ⟨by decide +kernel, ?_, by decide +kernel⟩
  rw [calculate_barrel, ofManifest_gives_iff]
  decide +kernel

end Barrel

end BarrelSynthesis
