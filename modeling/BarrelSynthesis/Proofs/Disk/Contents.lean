/-
# What a disk in memory holds

Every question to the disk normalizes the path it is asked for, and so does every change. Whatever the
history of changes, the answers therefore agree with it and with each other: a text is the one written
last and not taken away since, a listing has the files whose parent is the folder, and what exists has
a parent that exists.
-/
import BarrelSynthesis.Disk.Flat
import BarrelSynthesis.Proofs.Path.Map
import BarrelSynthesis.Proofs.Path.Parent
import Mathlib.Data.List.Induction

namespace BarrelSynthesis

namespace Path

/-- A path lies in a folder if it is the folder or stands below it: the components of the folder begin
its own, both normalized. Below the empty path, which `.` is normalized to, stands everything: as a folder
it exists as soon as there is any file. -/
def LiesIn (path folder : Path) : Prop :=
  folder.normalize.components <+: path.normalize.components

instance (path folder : Path) : Decidable (path.LiesIn folder) :=
  inferInstanceAs (Decidable (_ <+: _))

/-- The parent of a path has a part of its components, never all of them. -/
theorem prefix_of_parent? {path folder : Path} (parent : path.normalize.parent? = some folder) :
    folder.components <+: path.normalize.components ∧
      folder.components.length < path.normalize.components.length := by
  obtain ⟨-, last, shape, -⟩ := (parent?_eq_some_iff path.normalize_normalize).mp parent
  rw [shape]
  exact ⟨List.prefix_append _ _, by simp⟩

end Path

namespace Disk

/-- A change of a disk. -/
inductive Edit
  /-- A file is inserted, or written through a host: both put the text in the place of what is there. -/
  | write (path : Path) (text : String)
  | remove (path : Path)
  | removeFolder (folder : Path)
  | createFolder (folder : Path)
  deriving Repr, DecidableEq

/-- The disk after a change. -/
def apply (disk : Disk) : Edit → Disk
  | .write path text => disk.insert path text
  | .remove path => disk.erase path
  | .removeFolder folder => disk.eraseFolder folder
  | .createFolder folder => disk.createFolder folder

/-- The disk that a history of changes, the first one first, leaves of an empty one. -/
def ofHistory (edits : List Edit) : Disk :=
  edits.foldl apply empty

/-- The last change of a history is made to what the others leave. -/
theorem ofHistory_append_singleton (edits : List Edit) (edit : Edit) :
    ofHistory (edits ++ [edit]) = (ofHistory edits).apply edit :=
  List.foldl_append

/-! ## Texts -/

/-- A change decides what is to be read at a path: it writes the file, or removes it or a folder it lies in. -/
def Edit.Decides (path : Path) : Edit → Prop
  | .write other _ => other.normalize = path.normalize
  | .remove other => other.normalize = path.normalize
  | .removeFolder folder => path.LiesIn folder
  | .createFolder _ => False

instance (path : Path) : (edit : Edit) → Decidable (edit.Decides path)
  | .write other _ => inferInstanceAs (Decidable (other.normalize = path.normalize))
  | .remove other => inferInstanceAs (Decidable (other.normalize = path.normalize))
  | .removeFolder folder => inferInstanceAs (Decidable (path.LiesIn folder))
  | .createFolder _ => inferInstanceAs (Decidable False)

/-- The text that a change leaves at the paths it decides about. -/
def Edit.text? : Edit → Option String
  | .write _ text => some text
  | _ => none

/-- In a history of changes, the last one that decides about a path writes a text there. -/
def LastWrites (path : Path) (text : String) (edits : List Edit) : Prop :=
  ∃ before spelling behind, edits = before ++ .write spelling text :: behind ∧
    spelling.normalize = path.normalize ∧ ∀ later ∈ behind, ¬later.Decides path

/-- Nothing is written in a history without changes. -/
theorem not_lastWrites_nil {path : Path} {text : String} : ¬LastWrites path text [] := by
  rintro ⟨before, spelling, behind, shape, -⟩
  exact List.append_ne_nil_of_right_ne_nil _ (List.cons_ne_nil _ _) shape.symm

/-- One more change is the last to decide about a path, or leaves this to those before it. -/
theorem lastWrites_append_singleton {path : Path} {text : String} {edits : List Edit} {edit : Edit} :
    LastWrites path text (edits ++ [edit]) ↔
      (edit.Decides path ∧ edit.text? = some text) ∨
        (¬edit.Decides path ∧ LastWrites path text edits) := by
  constructor
  · rintro ⟨before, spelling, behind, shape, same, quiet⟩
    rcases List.eq_nil_or_concat behind with rfl | ⟨between, last, rfl⟩
    · obtain ⟨-, one⟩ := List.append_inj' shape rfl
      obtain rfl := List.singleton_inj.mp one
      exact .inl ⟨same, rfl⟩
    · rw [List.concat_eq_append] at shape quiet
      rw [← List.cons_append, ← List.append_assoc] at shape
      obtain ⟨rfl, one⟩ := List.append_inj' shape rfl
      obtain rfl := List.singleton_inj.mp one
      refine .inr ⟨quiet edit (by simp), before, spelling, between, rfl, same, ?_⟩
      exact fun later listed => quiet later (List.mem_append_left _ listed)
  · rintro (⟨decides, written⟩ | ⟨leaves, before, spelling, behind, rfl, same, quiet⟩)
    · cases edit with
      | write other found =>
          obtain rfl := Option.some.inj written
          exact ⟨edits, other, [], rfl, decides, fun _ listed => absurd listed List.not_mem_nil⟩
      | remove | removeFolder | createFolder => cases written
    · refine ⟨before, spelling, behind ++ [edit], by simp, same, fun later listed => ?_⟩
      rcases List.mem_append.mp listed with listed | last
      · exact quiet later listed
      · rwa [List.mem_singleton.mp last]

/-- Inserting a file decides what is read under its normalized path, and nothing else. -/
theorem fileText_insert (disk : Disk) (other path : Path) (text : String) :
    (disk.insert other text).fileText path =
      if other.normalize = path.normalize then some text else disk.fileText path := by
  rw [fileText, insert, PathMap.get?_insert, fileText]
  simp only [Path.same_normalize_iff]

/-- Removing a file leaves nothing to read under its normalized path. -/
theorem fileText_erase (disk : Disk) (other path : Path) :
    (disk.erase other).fileText path =
      if other.normalize = path.normalize then none else disk.fileText path := by
  rw [fileText, erase, PathMap.get?_erase, fileText]
  simp only [Path.same_normalize_iff]

/-- Removing a folder leaves nothing to read in it. -/
theorem fileText_eraseFolder (disk : Disk) (folder path : Path) :
    (disk.eraseFolder folder).fileText path =
      if path.LiesIn folder then none else disk.fileText path := by
  have regards {first second : Path} (same : first.components = second.components) :
      (!first.startsWith folder.normalize) = !second.startsWith folder.normalize := by
    rw [Path.startsWith, Path.startsWith, same]
  rw [fileText, eraseFolder, PathMap.get?_filter regards, fileText]
  by_cases lies : path.LiesIn folder
  · rw [if_pos lies, Path.startsWith_iff.mpr lies]
    rfl
  · rw [if_neg lies, if_pos]
    rw [Bool.not_eq_true', Bool.eq_false_iff]
    exact fun begins => lies (Path.startsWith_iff.mp begins)

/-- One change decides about a path, or leaves there what was. -/
theorem fileText_apply (disk : Disk) (edit : Edit) (path : Path) :
    (disk.apply edit).fileText path =
      if edit.Decides path then edit.text? else disk.fileText path := by
  cases edit with
  | write other text => exact disk.fileText_insert other path text
  | remove other => exact disk.fileText_erase other path
  | removeFolder folder => exact disk.fileText_eraseFolder folder path
  | createFolder folder => exact (if_neg id).symm

/-- A text is read exactly where it was written last. -/
theorem fileText_ofHistory_iff {edits : List Edit} {path : Path} {text : String} :
    (ofHistory edits).fileText path = some text ↔ LastWrites path text edits := by
  induction edits using List.reverseRecOn with
  | nil => exact iff_of_false nofun not_lastWrites_nil
  | append_singleton edits edit ih =>
      rw [ofHistory_append_singleton, fileText_apply, lastWrites_append_singleton, ← ih]
      by_cases decides : edit.Decides path
      · simp only [decides, if_true, true_and, not_true_eq_false, false_and, or_false]
      · simp only [decides, if_false, false_and, not_false_eq_true, true_and, false_or]

/-- What exists as a file is what has a text. -/
theorem fileExists_iff {disk : Disk} {path : Path} :
    disk.fileExists path = true ↔ ∃ text, disk.fileText path = some text := by
  rw [fileExists, PathMap.contains_eq_isSome_get?, Option.isSome_iff_exists]
  rfl

/-! ## Listings -/

/-- The files are kept under normalized paths. -/
theorem normalize_of_mem_paths {edits : List Edit} {path : Path}
    (listed : path ∈ (ofHistory edits).paths) : path.normalize = path := by
  induction edits using List.reverseRecOn with
  | nil => cases listed
  | append_singleton edits edit ih =>
      rw [ofHistory_append_singleton] at listed
      obtain ⟨text, member⟩ := PathMap.mem_keys_iff.mp listed
      have before (kept : (path, text) ∈ (ofHistory edits).files.entries) : path.normalize = path :=
        ih (PathMap.mem_keys_iff.mpr ⟨text, kept⟩)
      cases edit with
      | write other found =>
          rcases PathMap.mem_insert member with ⟨-, -, rfl | known⟩ | ⟨-, kept⟩
          · exact other.normalize_normalize
          · exact ih known
          · exact before kept
      | remove other => exact before (PathMap.mem_erase_iff.mp member).2
      | removeFolder folder => exact before (List.mem_filter.mp member).1
      | createFolder folder => exact before member

/-- The files of a folder are listed in strictly ascending order. -/
theorem pairwise_readFolder (disk : Disk) (folder : Path) :
    (disk.readFolder folder).Pairwise fun a b => Path.order a b = .lt :=
  (PathMap.ascending_keys disk.files).filter _

/-- A file stands immediately in a folder if the folder is its parent. -/
theorem isChildOf_iff {folder path : Path} (folderNormal : folder.normalize = folder)
    (normal : path.normalize = path) :
    isChildOf folder path = true ↔ path.parent? = some folder := by
  rw [isChildOf]
  cases parent : path.parent? with
  | none => exact iff_of_false nofun nofun
  | some other =>
      have otherNormal := ((Path.parent?_eq_some_iff normal).mp parent).1
      rw [Option.map_some, Option.getD_some, Path.same_iff, Option.some.injEq]
      exact ⟨Path.eq_of_components_eq otherNormal folderNormal, congrArg Path.components⟩

/-- The files listed for a folder are the normalized paths of files that stand immediately in it. -/
theorem mem_readFolder_iff {edits : List Edit} {folder file : Path} :
    file ∈ (ofHistory edits).readFolder folder ↔
      file.normalize = file ∧ (ofHistory edits).fileExists file = true ∧
        file.parent? = some folder.normalize := by
  rw [readFolder, List.mem_filter]
  constructor
  · rintro ⟨listed, child⟩
    have normal := normalize_of_mem_paths listed
    refine ⟨normal, ?_, (isChildOf_iff folder.normalize_normalize normal).mp child⟩
    exact PathMap.contains_iff.mpr ⟨file, listed, by rw [normal]⟩
  · rintro ⟨normal, present, parent⟩
    refine ⟨?_, (isChildOf_iff folder.normalize_normalize normal).mpr parent⟩
    obtain ⟨key, listed, same⟩ := PathMap.contains_iff.mp present
    rw [normal] at same
    rwa [← Path.eq_of_components_eq (normalize_of_mem_paths listed) normal same]

/-! ## Folders -/

/-- A folder exists because one was created at it or below it, or because a file stands below it. -/
theorem folderExists_iff {disk : Disk} {path : Path} :
    disk.folderExists path = true ↔
      (∃ folder ∈ disk.folders, path.normalize.components <+: folder.components) ∨
        ∃ file ∈ disk.paths, path.normalize.components <+: file.components ∧
          file.components ≠ path.normalize.components := by
  simp only [folderExists, paths, Bool.or_eq_true, List.any_eq_true, Bool.and_eq_true,
    Path.startsWith_iff, Bool.not_eq_true', Path.not_same_iff]

/-- What exists has a parent that exists as a folder, unless it is the root or the empty path. -/
theorem folderExists_parent {disk : Disk} {path folder : Path}
    (present : disk.fileExists path = true ∨ disk.folderExists path = true)
    (parent : path.normalize.parent? = some folder) : disk.folderExists folder = true := by
  obtain ⟨above, shorter⟩ := Path.prefix_of_parent? parent
  have normal := ((Path.parent?_eq_some_iff path.normalize_normalize).mp parent).1
  have below {file : Path} (begins : path.normalize.components <+: file.components) :
      folder.components <+: file.components ∧ file.components ≠ folder.components := by
    refine ⟨above.trans begins, fun same => ?_⟩
    have longer := begins.length_le
    rw [same] at longer
    omega
  rw [folderExists_iff, normal]
  rcases present with file | isFolder
  · obtain ⟨key, listed, same⟩ := PathMap.contains_iff.mp file
    exact .inr ⟨key, listed, below (same ▸ List.prefix_refl _)⟩
  · rcases folderExists_iff.mp isFolder with ⟨created, listed, begins⟩ | ⟨key, listed, begins, -⟩
    · exact .inl ⟨created, listed, above.trans begins⟩
    · exact .inr ⟨key, listed, below begins⟩

/-- In a folder that was removed, no folder is left. -/
theorem folderExists_eraseFolder_of_liesIn (disk : Disk) {folder path : Path}
    (lies : path.LiesIn folder) : (disk.eraseFolder folder).folderExists path = false := by
  rw [Bool.eq_false_iff]
  intro present
  have gone {other : Path} (begins : path.normalize.components <+: other.components) :
      (!other.startsWith folder.normalize) ≠ true := by
    rw [Path.startsWith_iff.mpr (lies.trans begins)]
    nofun
  rcases folderExists_iff.mp present with ⟨created, listed, begins⟩ | ⟨key, listed, begins, -⟩
  · exact gone begins (List.mem_filter.mp listed).2
  · obtain ⟨text, member⟩ := PathMap.mem_keys_iff.mp listed
    exact gone begins (List.mem_filter.mp member).2

example :
    (ofHistory [.write ⟨"/p/c/a.ts"⟩ "1", .write ⟨"/p/d.ts"⟩ "2", .write ⟨"/p/c/../d.ts"⟩ "3",
      .removeFolder ⟨"/p/./c"⟩]).readFolder ⟨"/p/"⟩ = [⟨"/p/d.ts"⟩] := by decide +kernel

end Disk

end BarrelSynthesis
