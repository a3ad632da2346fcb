/-
# Synthesized statements

Barrels and redirected imports consist of three kinds of statement: an import, an export of names from
another module, and an object that stands for a whole module. An import or export list has an order of
its own, by name without regard to case first.
-/
import BarrelSynthesis.Text.Letter

namespace BarrelSynthesis.Synthesis

/-- One name of an export list. -/
structure ExportEntry where
  /-- The name in the module it comes from, when that is another one. -/
  property : Option String
  name : String
  deriving Repr, DecidableEq, Inhabited

/-- One name of an import list. -/
structure ImportEntry where
  typeOnly : Bool
  /-- The name in the module it comes from, when that is another one. -/
  property : Option String
  name : String
  deriving Repr, DecidableEq, Inhabited

/-- An export of names from another module. -/
structure Export where
  entries : List ExportEntry
  module : String
  /-- The kind an assert clause states. -/
  assertion : Option String
  deriving Repr, DecidableEq, Inhabited

/-- An import from another module. -/
structure Import where
  /-- The local name of the default export. -/
  defaultName : Option String
  named : List ImportEntry
  module : String
  /-- The kind an assert clause states. -/
  assertion : Option String
  deriving Repr, DecidableEq, Inhabited

/-- Whether nothing is bound, so that the module is only run. -/
def Import.isSideEffect (declaration : Import) : Bool :=
  declaration.defaultName.isNone && declaration.named.isEmpty

/-- An object whose properties are local bindings. -/
structure NamespaceObject where
  name : String
  /-- Each property with the local binding it holds. -/
  properties : List (String × String)
  deriving Repr, DecidableEq, Inhabited

/-- A property that is read from another module when it is asked for. -/
structure RequireProperty where
  name : String
  module : String
  /-- The export that is read; without one the property is the whole module. -/
  exported : Option String
  deriving Repr, DecidableEq, Inhabited

/-- An object that stands for a whole module where modules are loaded by calls. -/
structure RequireObject where
  properties : List RequireProperty
  deriving Repr, DecidableEq, Inhabited

/-- A synthesized statement. -/
inductive Statement
  | importFrom (declaration : Import)
  | exportFrom (declaration : Export)
  | namespaceObject (object : NamespaceObject)
  deriving Repr, DecidableEq, Inhabited

/-- Names are ordered by their lower-case forms, equal ones by code point. -/
def nameOrder : String → String → Ordering :=
  compareLex (compareOn Text.lower) compare

namespace ExportEntry

/-- The name in the module the entry comes from. -/
def origin (entry : ExportEntry) : String :=
  entry.property.getD entry.name

/-- Entries are ordered by the name they are taken from, then by their own. -/
def order : ExportEntry → ExportEntry → Ordering :=
  compareLex (fun a b => nameOrder a.origin b.origin) (fun a b => nameOrder a.name b.name)

end ExportEntry

namespace ImportEntry

/-- The name in the module the entry comes from. -/
def origin (entry : ImportEntry) : String :=
  entry.property.getD entry.name

/-- Values stand before types; each are ordered by the name they are taken from, then by their own. -/
def order : ImportEntry → ImportEntry → Ordering :=
  compareLex (compareOn fun entry => entry.typeOnly.toNat)
    (compareLex (fun a b => nameOrder a.origin b.origin) (fun a b => nameOrder a.name b.name))

end ImportEntry

end BarrelSynthesis.Synthesis
