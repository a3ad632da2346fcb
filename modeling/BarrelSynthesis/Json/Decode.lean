/-
# Decoding JSON values

A value is decoded in the order in which its text reads, and the first thing that is wrong decides: a
value of another kind than is asked for, or a fault of the text.
-/
import BarrelSynthesis.Json.Reader
import BarrelSynthesis.Project.CompilerOptions

namespace BarrelSynthesis.Json

/-- Why a text does not decode. -/
inductive DecodeError
  /-- The text is no JSON. -/
  | fault (fault : Fault)
  /-- The text is JSON but not what is asked for. The cause is known when a word is not among the values
  of an option. -/
  | mismatch (cause : Option UnknownOption)
  deriving Repr, DecidableEq

/-- What decoding gives. -/
abbrev Decoded (α : Type) := Except DecodeError α

variable {α σ : Type}

/-- Something else was asked for. -/
def unexpected : Decoded α :=
  .error (.mismatch none)

/-- Goes on unless there is a fault. -/
def unlessFault (fault : Option Fault) : Decoded Unit :=
  match fault with
  | some fault => .error (.fault fault)
  | none => .ok ()

namespace Value

/-- The value is of another kind than is asked for. A fault of the value itself comes first. -/
def mismatch (value : Value) : Decoded α :=
  match value with
  | array _ _ => unexpected
  | object _ _ => unexpected
  | _ =>
    match value.fault? 0 with
    | some fault => .error (.fault fault)
    | none => unexpected

/-- Passes over a value. -/
def ignore (value : Value) : Decoded Unit :=
  unlessFault value.ignoredFault?

/-- Reads a value that will be looked at later, at a given depth of nesting. -/
def buffer (depth : Nat) (value : Value) : Decoded Unit :=
  unlessFault (value.fault? depth)

/-- Decodes a truth value. -/
def asBool (value : Value) : Decoded Bool :=
  match value with
  | bool value => .ok value
  | _ => value.mismatch

/-- Decodes a string. -/
def asString (value : Value) : Decoded String :=
  match value with
  | string (some text) => .ok text
  | _ => value.mismatch

/-- Decodes a string, or `null` for none. -/
def asString? (value : Value) : Decoded (Option String) :=
  match value with
  | null => .ok none
  | _ => some <$> value.asString

/-- Decodes an array whose items are all of one kind. -/
def asList (item : Value → Decoded α) (value : Value) : Decoded (List α) :=
  match value with
  | array items fault => do
    let found ← items.mapM item
    unlessFault fault
    return found
  | _ => value.mismatch

/-- Decodes the entries of an object one after the other. -/
def foldEntries (step : σ → String → Value → Decoded σ) (start : σ) (value : Value) : Decoded σ :=
  match value with
  | object entries fault => do
    let last ← entries.foldlM
      (fun state (key, value) =>
        match key with
        | some key => step state key value
        | none => .error (.fault .malformed))
      start
    unlessFault fault
    return last
  | _ => value.mismatch

/-- Decodes an object, or the array of the values that its fields would have, in order. The array may
stop early. -/
def foldFields (fields : List String) (step : σ → String → Value → Decoded σ) (start : σ)
    (value : Value) : Decoded σ :=
  match value with
  | array items fault => do
    let last ← (fields.zip items).foldlM (fun state (key, item) => step state key item) start
    if fields.length < items.length then .error (.fault .malformed)
    unlessFault fault
    return last
  | _ => value.foldEntries step start

end Value

/-- A field that has not been met yet. -/
def Decoded.once (found : Option α) (read : Decoded α) : Decoded (Option α) :=
  match found with
  | some _ => unexpected
  | none => some <$> read

/-- A field that has to be there. -/
def Decoded.required (found : Option α) : Decoded α :=
  match found with
  | some value => .ok value
  | none => unexpected

/-- Decodes a whole text. -/
def Document.decode (document : Document) (read : Value → Decoded α) : Decoded α := do
  let found ← read document.value
  if document.hasTrailing then .error (.fault .malformed)
  return found

end BarrelSynthesis.Json
