/-
# Files that are said to exist

Whether a file exists is answered from the disk and the registry, and the question may change the registry
before the file is read. Still the answer is kept: where the host can read exactly the files that it has, a
file that is said to exist can be read right afterwards, and no other file can. A barrel that the question
brings is the file that was asked for, and its text is served at once; one that the question brings into a
folder is another file than the folder.
-/
import BarrelSynthesis.Proofs.Session.Probing

namespace BarrelSynthesis

/-- A registry has a text for each barrel of it and for nothing else. -/
theorem Registry.isSome_text? (registry : Registry) (path : Path) :
    (registry.text? path).isSome = registry.isVirtual path := by
  rw [text?, Option.isSome_map, isVirtual_eq]

namespace Session

variable {host : FileSystem} {session : Session} {path : Path}

/-- A file can be read through a session when the host can read it or it is a virtual barrel. -/
theorem isSome_fileText (host : FileSystem) (session : Session) (path : Path) :
    (session.fileText host path).isSome =
      ((host.fileText path).isSome || session.isVirtual (host.casedPath path).normalize) := by
  rw [fileText, isVirtual_congr (Path.normalize_normalize _)]
  cases host.fileText path with
  | some text => rfl
  | none => exact Registry.isSome_text? _ _

/-- After a question for a file that is not on disk, a barrel stands in its place if one stood there, or
if the question brought it. -/
theorem isVirtual_after_own_question (missing : host.fileExists path = false) :
    let place := (host.casedPath path).normalize
    (session.fileExists host path).2.isVirtual place =
      (session.isVirtual place || decide (deed host session path = .bring place)) := by
  intro place
  rw [fileExists_snd]
  rcases deed_cases host session path with ⟨present, -⟩ | ⟨-, nothing | ⟨barrel, brings, room⟩⟩
  · rw [missing] at present
    cases present
  · rw [nothing]
    simp [perform]
  · have normal : place.normalize = place := Path.normalize_normalize _
    rw [brings, perform, isVirtual_createBarrel, room.normal, normal]
    simp only [Deed.bring.injEq]

/-- In whatever state a session is, and whatever case paths have on disk: if the host can read the file
exactly when it has it, the file is said to exist exactly when reading it right afterwards gives a text. -/
theorem file_exists_iff_read_afterwards (host : FileSystem) (session : Session) (path : Path)
    (honest : host.fileExists path = (host.fileText path).isSome) :
    let asked := session.fileExists host path
    asked.1 = true ↔ ∃ text, asked.2.fileText host path = some text := by
  intro asked
  rw [← Option.isSome_iff_exists, isSome_fileText, ← honest, fileExists_fst]
  cases present : host.fileExists path with
  | true => simp
  | false => rw [isVirtual_after_own_question present, Bool.false_or, Bool.false_or]

/-- The question for the barrel of a folder, in another case than it has on disk, brings the barrel, and
its text is served; the question for the folder brings the barrel too, but the folder is no file. -/
theorem brought_barrel_is_served :
    let disk : Disk := .ofList [(⟨"/p/c/a.ts"⟩, "export const v = 1")] []
    let host : FileSystem :=
      { disk.fileSystem with casedPath := fun path => ⟨String.ofList (path.text.toList.map Char.toLower)⟩ }
    let session : Session := ⟨.empty, .empty, [⟨"/p"⟩]⟩
    let lookup := session.fileExists host ⟨"/P/C/./Index.ts"⟩
    let folder := session.fileExists host ⟨"/P/C"⟩
    (lookup.1 = true ∧ ∃ text, lookup.2.fileText host ⟨"/P/C/./Index.ts"⟩ = some text) ∧
      folder.2.isVirtual ⟨"/p/c/index.ts"⟩ = true ∧
      ¬∃ text, folder.2.fileText host ⟨"/P/C"⟩ = some text := by
  intro disk host session lookup folder
  have found : lookup.1 = true := by decide +kernel
  have denied : folder.1 ≠ true := by decide +kernel
  have served := file_exists_iff_read_afterwards host session ⟨"/P/C/./Index.ts"⟩ (by decide +kernel)
  have unread := file_exists_iff_read_afterwards host session ⟨"/P/C"⟩ (by decide +kernel)
  exact ⟨⟨found, served.mp found⟩, by decide +kernel, fun read => denied (unread.mpr read)⟩

end Session

end BarrelSynthesis
