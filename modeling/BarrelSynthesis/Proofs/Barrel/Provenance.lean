/-
# Where an entity comes from

An entity keeps the name and the extension of the file it was read from: the stem of a code file, the
full name of an asset. What stands under a key of a calculated manifest comes from the last listed file
that exports the key.
-/
import BarrelSynthesis.Proofs.Barrel.Calculation
import BarrelSynthesis.Proofs.Project.Extension

namespace BarrelSynthesis

/-- Merging occurrences of a name keeps from where they come. -/
theorem Entity.mem_addTo {entity other : Entity} {entities : List Entity}
    (member : other ∈ entity.addTo entities) :
    ∃ source, (source = entity ∨ source ∈ entities) ∧ other.fileName = source.fileName ∧
      other.extension = source.extension := by
  induction entities with
  | nil =>
      rw [addTo, List.mem_singleton] at member
      exact ⟨entity, .inl rfl, by rw [member], by rw [member]⟩
  | cons head rest ih =>
      rw [addTo] at member
      split at member
      · rcases List.mem_cons.mp member with rfl | member
        · exact ⟨head, .inr List.mem_cons_self, rfl, rfl⟩
        · exact ⟨other, .inr (List.mem_cons_of_mem _ member), rfl, rfl⟩
      · rcases List.mem_cons.mp member with rfl | member
        · exact ⟨other, .inr List.mem_cons_self, rfl, rfl⟩
        · obtain ⟨source, origin, same⟩ := ih member
          exact ⟨source, origin.imp id (List.mem_cons_of_mem _), same⟩

namespace ModuleExports

/-- The entities of a code file carry its stem and its extension. -/
theorem mem_ofOccurrences {path : Path} {extension source : String}
    {occurrences : List ExportOccurrence} {entity : Entity}
    (member : entity ∈ (ofOccurrences path extension source occurrences).entities) :
    entity.fileName = Extension.stem path ∧ entity.extension = extension := by
  have merged (found entities : List Entity)
      (before : ∀ entity ∈ entities,
        entity.fileName = Extension.stem path ∧ entity.extension = extension)
      (read : ∀ entity ∈ found,
        entity.fileName = Extension.stem path ∧ entity.extension = extension) :
      ∀ entity ∈ found.foldl (fun entities entity => entity.addTo entities) entities,
        entity.fileName = Extension.stem path ∧ entity.extension = extension := by
    induction found generalizing entities with
    | nil => exact before
    | cons first rest ih =>
        apply ih
        · intro other listed
          obtain ⟨source, origin, name, ending⟩ := Entity.mem_addTo listed
          rw [name, ending]
          rcases origin with rfl | listed
          · exact read _ List.mem_cons_self
          · exact before source listed
        · exact fun other listed => read other (List.mem_cons_of_mem _ listed)
  refine merged _ [] (fun _ none => absurd none List.not_mem_nil) ?_ entity member
  intro entity listed
  obtain ⟨occurrence, -, named⟩ := List.mem_filterMap.mp listed
  cases occurrence with
  | anonymous span => cases named
  | named identifier span isDefault isType =>
      cases named
      exact ⟨rfl, rfl⟩

end ModuleExports

namespace Contribution

/-- What a file adds carries its extension, and its name: without the extension when it is code. -/
theorem origin_of_mem_entitiesOf {host : FileSystem} {file : Path} {name extension : String}
    {entity : Entity} (named : file.fileName? = some name)
    (known : Extension.ofName? name = some extension) (member : entity ∈ entitiesOf host file) :
    entity.extension = extension ∧
      entity.fileName =
        if Extension.isCode extension then Extension.strip extension name else name := by
  have ofPath := (Extension.ofPath?_of_fileName? named).trans known
  rw [entitiesOf] at member
  cases text : host.fileText file with
  | none => simp [text] at member
  | some source =>
      simp only [text, Option.map_some, Option.getD_some, ofSource, ModuleExports.ofSource?,
        ofPath] at member
      by_cases code : Extension.isCode extension = true
      · rw [if_pos code] at member ⊢
        cases parsed : Source.Module.parse? (Source.Language.ofPath file) source with
        | none => simp [parsed, ModuleExports.empty] at member
        | some module =>
            simp only [parsed, Option.getD_some] at member
            obtain ⟨stem, ending⟩ := ModuleExports.mem_ofOccurrences member
            exact ⟨ending, stem.trans (Extension.stem_of_fileName? named known)⟩
      · rw [if_neg code] at member ⊢
        obtain rfl := List.mem_singleton.mp member
        simp only [Asset.entity, named, ofPath, Option.getD_some, and_self]

end Contribution

/-- The last entity of a name among those of several files comes from the last file that has one. -/
theorem Manifest.exists_last_file {added : Path → List Entity} {files : List Path} {key : String}
    {entity : Entity}
    (found : (files.flatMap added).reverse.find? (fun entity => entity.identifier = key) =
      some entity) :
    ∃ before file after, files = before ++ file :: after ∧ entity ∈ added file ∧
      ∀ later ∈ after, ∀ other ∈ added later, other.identifier ≠ key := by
  induction files with
  | nil => cases found
  | cons file rest ih =>
      rw [List.flatMap_cons, List.reverse_append, List.find?_append] at found
      cases behind : (rest.flatMap added).reverse.find? fun entity => entity.identifier = key with
      | some other =>
          rw [behind, Option.some_or] at found
          obtain ⟨before, winner, after, rfl, inside, last⟩ := ih (behind.trans found)
          exact ⟨file :: before, winner, after, rfl, inside, last⟩
      | none =>
          rw [behind, Option.none_or] at found
          refine ⟨[], file, rest, rfl, List.mem_reverse.mp (List.mem_of_find?_eq_some found), ?_⟩
          intro later listed other inside named
          have absent := List.find?_eq_none.mp behind other
            (List.mem_reverse.mpr (List.mem_flatMap.mpr ⟨later, listed, inside⟩))
          exact absent (by simpa using named)

/-- The file whose entity has won a key: it exports the key, and no file listed behind it does. -/
theorem Barrel.exists_file_of_get?_calculate {host : FileSystem} {options : CompilerOptions}
    {folder : Path} {key : String} {entity : Entity}
    (won : (calculate host options folder).barrel.manifest.get? key = some entity) :
    ∃ before file after, Folder.files host options folder = before ++ file :: after ∧
      entity ∈ Contribution.entitiesOf host file ∧
      ∀ later ∈ after, ∀ other ∈ Contribution.entitiesOf host later, other.identifier ≠ key := by
  rw [calculate_manifest, Manifest.get?_writeAll, Manifest.get?_empty, Option.or_none] at won
  exact Manifest.exists_last_file won

end BarrelSynthesis
