/-
# File systems as they are asked

What a host can be asked about its files. The answers at one moment are a value; whatever changes files
gives a new value.
-/
import BarrelSynthesis.Path.Basic

namespace BarrelSynthesis

/-- The answers of a host to questions about its files. -/
structure FileSystem where
  fileExists : Path → Bool
  fileText : Path → Option String
  directoryExists : Path → Bool
  /-- The files that are immediate children of a folder. -/
  readDirectory : Path → List Path
  /-- The spelling on disk of a path whose case may have been changed. -/
  casedPath : Path → Path

end BarrelSynthesis
