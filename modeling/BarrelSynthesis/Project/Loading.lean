/-
# Loading projects

Reading a project file from a disk. Loading fails where the file cannot be read, and where its text does
not decode.
-/
import BarrelSynthesis.Disk.Linked
import BarrelSynthesis.Project.Configuration

namespace BarrelSynthesis

/-- Why a project cannot be loaded. -/
inductive LoadError
  | unreadable (failure : DiskError)
  | undecodable (failure : Json.DecodeError)
  deriving Repr, DecidableEq

/-- Loads the project that a file describes. The project lies in the folder of the file. -/
def ProjectConfig.load (disk : LinkedDisk) (path : Path) : Except LoadError ProjectConfig :=
  match disk.read path with
  | .error failure => .error (.unreadable failure)
  | .ok text => (ofText (path.parent?.getD ⟨""⟩) text).mapError .undecodable

end BarrelSynthesis
