/-
# Diagnostics

Findings about a source file: where, how serious, and what. This library itself only warns, about an
export without a name that could be re-exported and about a name that several files export.

A cache keeps the warnings of many files by path. It holds no empty lists.
-/
import BarrelSynthesis.Path.Map
import BarrelSynthesis.Source.Tree
import BarrelSynthesis.Text.Offset

namespace BarrelSynthesis

/-- How serious a finding is. -/
inductive Severity
  | warning
  | error
  | suggestion
  | message
  deriving Repr, DecidableEq, Inhabited

/-- The word a severity is shown by. -/
def Severity.label : Severity → String
  | warning => "warning"
  | error => "error"
  | suggestion => "suggestion"
  | message => "message"

/-- Reads the word a severity is shown by. -/
def Severity.ofLabel? (label : String) : Option Severity :=
  [warning, error, suggestion, message].find? fun severity => severity.label = label

/-- A line and a column, both counted from one, as numbers of 32 bits. Columns count characters. -/
structure Position where
  line : Nat
  column : Nat
  deriving Repr, DecidableEq, Inhabited

namespace Position

/-- The position of a place: each number is one more than what is counted before it, and wraps around where
it leaves 32 bits. -/
def ofPlace (place : Text.Place) : Position :=
  ⟨(UInt32.ofNat place.lines + 1).toNat, (UInt32.ofNat place.characters + 1).toNat⟩

/-- The position of a byte offset. -/
def ofOffset (source : String) (offset : Nat) : Position :=
  ofPlace (.ofOffset source offset)

/-- Whether both sums fit into 32 bits. One is added last, so a sum that does not fit comes to zero. -/
def fits (position : Position) : Bool :=
  position.line ≠ 0 && position.column ≠ 0

end Position

/-- A finding about a source file. -/
structure Diagnostic where
  file : String
  start : Nat
  length : Nat
  position : Position
  severity : Severity
  code : Nat
  message : String
  /-- The source text the finding is about. -/
  key : Option String
  deriving Repr, DecidableEq, Inhabited

namespace Diagnostic

/-- The code of a warning about an export without a name. -/
def missingIdentifierCode : Nat := 9999

/-- The code of a warning about a name that several files export. -/
def duplicateIdentifierCode : Nat := 9998

/-- A warning about a stretch of a source file. -/
def warning (file : Path) (source : String) (span : Source.Span) (code : Nat) (message : String) :
    Diagnostic :=
  { file := file.text
    start := span.start
    length := span.stop - span.start
    position := Position.ofOffset source span.start
    severity := .warning
    code := code
    message := message
    key := (Text.between? span.start span.stop source.toList).map String.ofList }

/-- The warning about an export that no name can be derived for. -/
def missingIdentifier (file : Path) (source : String) (span : Source.Span) : Diagnostic :=
  warning file source span missingIdentifierCode
    "Missing identifier for export. This member will not be included in the barrel."

/-- The warning about an identifier that an earlier file exports too. -/
def duplicateIdentifier (file : Path) (source : String) (span : Source.Span) (identifier : String)
    (shadowed : Path) : Diagnostic :=
  warning file source span duplicateIdentifierCode <|
    "Identifier '" ++ identifier ++ "' is also exported by '" ++ shadowed.text
      ++ "'. Only this export is reachable through the barrel."

/-- A finding about a source, if it can be told. Nothing is told where the finding begins inside a character
of the source, or where its position does not fit into 32 bits. -/
def told? (diagnostic : Diagnostic) (source : String) : Option Diagnostic :=
  if (source.utf8ByteSize < diagnostic.start || Text.isBoundary diagnostic.start source.toList)
      && diagnostic.position.fits then
    some diagnostic
  else none

/-- The line a finding is shown by. -/
def display (diagnostic : Diagnostic) : String :=
  diagnostic.file ++ "(" ++ toString diagnostic.position.line ++ ","
    ++ toString diagnostic.position.column ++ "): " ++ diagnostic.severity.label ++ " TS"
    ++ toString diagnostic.code ++ ": " ++ diagnostic.message

end Diagnostic

/-- Warnings by the file they are about. -/
structure DiagnosticCache where
  entries : PathMap (List Diagnostic)
  deriving Inhabited

namespace DiagnosticCache

/-- The cache without warnings. -/
def empty : DiagnosticCache := ⟨.empty⟩

/-- Replaces the warnings of a file. -/
def set (cache : DiagnosticCache) (file : Path) (diagnostics : List Diagnostic) : DiagnosticCache :=
  if diagnostics.isEmpty then ⟨cache.entries.erase file⟩
  else ⟨cache.entries.insert file diagnostics⟩

/-- Replaces the warnings of several files. -/
def extend (cache : DiagnosticCache) (entries : PathMap (List Diagnostic)) : DiagnosticCache :=
  entries.entries.foldl (fun cache entry => cache.set entry.1 entry.2) cache

/-- The warnings of a file, if it has any. -/
def get? (cache : DiagnosticCache) (file : Path) : Option (List Diagnostic) :=
  cache.entries.get? file

/-- All warnings, file by file in path order. -/
def all (cache : DiagnosticCache) : List Diagnostic :=
  cache.entries.values.flatten

/-- Whether there are no warnings. -/
def isEmpty (cache : DiagnosticCache) : Bool :=
  cache.entries.isEmpty

/-- Puts the warnings of one file, or of all files, behind those a host already has. -/
def merge (cache : DiagnosticCache) (host : List Diagnostic) (file : Option Path) :
    List Diagnostic :=
  host ++ match file with
    | some file => (cache.get? file).getD []
    | none => cache.all

end DiagnosticCache

end BarrelSynthesis
