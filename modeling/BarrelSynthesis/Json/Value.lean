/-
# JSON values as far as they can be read

A text that is no JSON is one up to the place where it breaks off. Its value holds everything before that
place and says there what is wrong, so that whoever reads it in order meets a value of the wrong kind
before a fault further on, and a fault before anything behind it.

Some faults show only to a reader who wants the value: a string whose escapes make no text, a number that
no floating-point number comes near. A reader who passes over the value does not meet them.
-/

namespace BarrelSynthesis.Json

/-- Why a text is no JSON. -/
inductive Fault
  /-- Something else stands where the grammar asks for something. -/
  | malformed
  /-- The text ends too early. -/
  | truncated
  deriving Repr, DecidableEq

/-- A value, possibly breaking off. A key is missing when its escapes make no text. -/
inductive Value
  | null
  | bool (value : Bool)
  | number (overflows : Bool)
  /-- A string; nothing when its escapes make no text. -/
  | string (text : Option String)
  | array (items : List Value) (fault : Option Fault)
  | object (entries : List (Option String × Value)) (fault : Option Fault)
  /-- A value that is none, as it shows to one who reads it and to one who passes over it. -/
  | broken (asRead asIgnored : Fault)
  deriving Repr, Inhabited

mutual

/-- The first fault that one who passes over the value meets. -/
def Value.ignoredFault? : Value → Option Fault
  | .null => none
  | .bool _ => none
  | .number _ => none
  | .string _ => none
  | .array items fault => (ignoredFaultOfItems? items).or fault
  | .object entries fault => (ignoredFaultOfEntries? entries).or fault
  | .broken _ asIgnored => some asIgnored

/-- The same for the items of an array. -/
def ignoredFaultOfItems? : List Value → Option Fault
  | [] => none
  | item :: rest => item.ignoredFault?.or (ignoredFaultOfItems? rest)

/-- The same for the entries of an object. -/
def ignoredFaultOfEntries? : List (Option String × Value) → Option Fault
  | [] => none
  | (_, value) :: rest => value.ignoredFault?.or (ignoredFaultOfEntries? rest)

end

/-- The deepest nesting of arrays and objects that a reader follows. -/
def deepest : Nat := 127

mutual

/-- The first fault that one who reads the whole value meets, at a given depth of nesting. -/
def Value.fault? (depth : Nat) : Value → Option Fault
  | .null => none
  | .bool _ => none
  | .number overflows => if overflows then some .malformed else none
  | .string text => if text.isNone then some .malformed else none
  | .array items fault =>
    if deepest < depth then some .malformed else (faultOfItems? (depth + 1) items).or fault
  | .object entries fault =>
    if deepest < depth then some .malformed else (faultOfEntries? (depth + 1) entries).or fault
  | .broken asRead _ => some asRead

/-- The same for the items of an array. -/
def faultOfItems? (depth : Nat) : List Value → Option Fault
  | [] => none
  | item :: rest => (item.fault? depth).or (faultOfItems? depth rest)

/-- The same for the entries of an object. -/
def faultOfEntries? (depth : Nat) : List (Option String × Value) → Option Fault
  | [] => none
  | (key, value) :: rest =>
    if key.isNone then some .malformed
    else (value.fault? depth).or (faultOfEntries? depth rest)

end

end BarrelSynthesis.Json
