/-
# What a barrel is calculated from

The manifest of a folder is what its listed files export, written in the order of the listing. The
calculation therefore sees a host only through the listing of the folder and the texts of the listed
files, and the barrel of a folder is determined by its manifest.
-/
import BarrelSynthesis.Barrel.Calculation
import BarrelSynthesis.Proofs.Barrel.Manifest

namespace BarrelSynthesis

namespace Contribution

/-- The entities that a file adds to the barrel of its folder: none when it cannot be read. -/
def entitiesOf (host : FileSystem) (file : Path) : List Entity :=
  ((host.fileText file).map fun source => (ofSource file source).exports.entities).getD []

/-- The entities of the files that can be read are the entities of all files, because the others add none.
-/
theorem flatMap_ofFiles_entities (host : FileSystem) (files : List Path) :
    (ofFiles host files).flatMap (·.exports.entities) = files.flatMap (entitiesOf host) := by
  induction files with
  | nil => rfl
  | cons file rest ih =>
      rw [List.flatMap_cons, ← ih, ofFiles, ofFiles, List.filterMap_cons, entitiesOf]
      cases host.fileText file with
      | none => rfl
      | some source => rfl

/-- Hosts that agree on a text agree on what the file adds. -/
theorem entitiesOf_congr {first second : FileSystem} {file : Path}
    (agree : first.fileText file = second.fileText file) :
    entitiesOf first file = entitiesOf second file := by
  rw [entitiesOf, entitiesOf, agree]

end Contribution

namespace BarrelTally

/-- A warning changes no entity of the manifest. -/
@[simp]
theorem warn_manifest (tally : BarrelTally) (file : Path) (diagnostics : List Diagnostic) :
    (tally.warn file diagnostics).manifest = tally.manifest := by
  rw [warn]
  split <;> rfl

/-- An entity is written under its own name, whether or not it collides with an earlier one. -/
theorem addEntity_manifest (contribution : Contribution) (tally : BarrelTally) (entity : Entity) :
    (addEntity contribution tally entity).manifest =
      tally.manifest.insert entity.identifier entity := by
  simp only [addEntity]
  cases tally.origins.lookup entity.identifier <;> simp

/-- A file writes its entities one after the other. -/
theorem add_manifest (tally : BarrelTally) (contribution : Contribution) :
    (tally.add contribution).manifest =
      tally.manifest.writeAll contribution.exports.entities := by
  have gathered (entities : List Entity) (tally : BarrelTally) :
      (entities.foldl (addEntity contribution) tally).manifest =
        tally.manifest.writeAll entities := by
    induction entities generalizing tally with
    | nil => rfl
    | cons entity rest ih =>
        rw [List.foldl_cons, ih, addEntity_manifest, Manifest.writeAll_cons]
  rw [add, gathered, warn_manifest]

/-- A tally of several files holds what all their entities leave when they are written in order. -/
theorem ofContributions_manifest (contributions : List Contribution) :
    (ofContributions contributions).manifest =
      Manifest.empty.writeAll (contributions.flatMap (·.exports.entities)) := by
  have gathered (tally : BarrelTally) :
      (contributions.foldl add tally).manifest =
        tally.manifest.writeAll (contributions.flatMap (·.exports.entities)) := by
    induction contributions generalizing tally with
    | nil => rfl
    | cons contribution rest ih =>
        rw [List.foldl_cons, ih, add_manifest, List.flatMap_cons, Manifest.writeAll_append]
  exact gathered empty

end BarrelTally

namespace Barrel

/-- The statements and the text of a barrel follow from its manifest. -/
theorem calculate_barrel (host : FileSystem) (options : CompilerOptions) (folder : Path) :
    (calculate host options folder).barrel =
      ofManifest options (calculate host options folder).barrel.manifest := rfl

/-- The manifest of a folder is what its files add, one file after the other. -/
theorem calculate_manifest (host : FileSystem) (options : CompilerOptions) (folder : Path) :
    (calculate host options folder).barrel.manifest =
      Manifest.empty.writeAll
        ((Folder.files host options folder).flatMap (Contribution.entitiesOf host)) := by
  rw [← Contribution.flatMap_ofFiles_entities, ← BarrelTally.ofContributions_manifest]
  rfl

/-- An entity of a calculated manifest stands under its own name. -/
theorem identifier_of_get?_calculate {host : FileSystem} {options : CompilerOptions} {folder : Path}
    {key : String} {entity : Entity}
    (found : (calculate host options folder).barrel.manifest.get? key = some entity) :
    entity.identifier = key := by
  rw [calculate_manifest] at found
  exact (Manifest.mem_of_get?_writeAll found).2

/-- Every entity of a barrel stands under its own name. -/
theorem isKeyed_calculate (host : FileSystem) (options : CompilerOptions) (folder : Path) :
    (calculate host options folder).barrel.manifest.IsKeyed := fun _ listed =>
  identifier_of_get?_calculate (Manifest.get?_eq_some_iff.mpr listed)

/-- An entity is in a barrel exactly when its name leads to it. -/
theorem mem_entities_calculate_iff {host : FileSystem} {options : CompilerOptions} {folder : Path}
    {entity : Entity} :
    entity ∈ (calculate host options folder).barrel.manifest.entities ↔
      (calculate host options folder).barrel.manifest.get? entity.identifier = some entity := by
  constructor
  · exact (isKeyed_calculate host options folder).get?_identifier
  · intro found
    exact List.mem_map_of_mem (Manifest.get?_eq_some_iff.mp found)

end Barrel

end BarrelSynthesis
