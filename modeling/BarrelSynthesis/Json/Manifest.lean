/-
# Reading manifests

A manifest is written as an object of entities. A key that is written twice keeps its first place and its
last entity.
-/
import BarrelSynthesis.Barrel.Manifest
import BarrelSynthesis.Json.Decode

namespace BarrelSynthesis

open Json

/-- The fields of an entity met so far. -/
structure EntityFields where
  fileName : Option String := none
  extension : Option String := none
  isDefaultExport : Option Bool := none
  isTypeExport : Option Bool := none

/-- Decodes one field of an entity other than its identifier. -/
def EntityFields.step (fields : EntityFields) (key : String) (value : Value) :
    Decoded EntityFields := do
  if key = "fileName" then
    return { fields with fileName := ← .once fields.fileName value.asString }
  else if key = "extension" then
    return { fields with extension := ← .once fields.extension value.asString }
  else if key = "isDefaultExport" then
    return { fields with isDefaultExport := ← .once fields.isDefaultExport value.asBool }
  else if key = "isTypeExport" then
    return { fields with isTypeExport := ← .once fields.isTypeExport value.asBool }
  else return fields

/-- Decodes one field of an entity: the identifier at once, the others are kept until the entity ends. -/
def Entity.stepField (depth : Nat) (fields : Option String × List (String × Value)) (key : String)
    (value : Value) : Decoded (Option String × List (String × Value)) := do
  if key = "identifier" then return (← .once fields.1 value.asString, fields.2)
  else
    value.buffer depth
    return (fields.1, fields.2 ++ [(key, value)])

/-- Decodes an entity at a given depth of nesting. -/
def Entity.decode (depth : Nat) (value : Value) : Decoded Entity := do
  let (identifier, others) ← value.foldEntries (stepField (depth + 1)) (none, [])
  let identifier ← Decoded.required identifier
  let fields ← others.foldlM
    (fun fields (key, value) => EntityFields.step fields key value) ({} : EntityFields)
  return {
    identifier := identifier
    fileName := ← Decoded.required fields.fileName
    extension := fields.extension.getD ""
    isDefaultExport := ← Decoded.required fields.isDefaultExport
    isTypeExport := ← Decoded.required fields.isTypeExport
    span := none }

/-- Reads an entity. -/
def Entity.ofText (text : String) : Decoded Entity :=
  (Document.ofText text).decode (decode 1)

/-- Decodes a manifest. -/
def Manifest.decode (value : Value) : Decoded Manifest :=
  value.foldEntries
    (fun manifest key value => do return manifest.insert key (← Entity.decode 2 value)) .empty

/-- Reads a manifest. -/
def Manifest.ofText (text : String) : Decoded Manifest :=
  (Document.ofText text).decode decode

end BarrelSynthesis
