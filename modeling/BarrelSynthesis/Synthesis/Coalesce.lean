/-
# Coalescing

Declarations that name the same module are brought together, their entries sorted and repetitions
dropped. The modules come out in ascending order.
-/
import BarrelSynthesis.Synthesis.Statement

namespace BarrelSynthesis.Synthesis

variable {α : Type}

/-- Drops every element that equals the one before it. -/
def dropRepeats [DecidableEq α] : List α → List α
  | [] => []
  | [a] => [a]
  | a :: b :: rest => if a = b then dropRepeats (b :: rest) else a :: dropRepeats (b :: rest)

/-- Sorts by an order, keeping equal elements as they stand. -/
def sortBy (order : α → α → Ordering) (elements : List α) : List α :=
  elements.mergeSort fun a b => (order a b).isLE

/-- The distinct texts of a list in ascending order. -/
def distinctAscending (texts : List String) : List String :=
  dropRepeats (sortBy compare texts)

/-- The one export of a module that some exports amount to. -/
def mergeExports (module : String) (exports : List Export) : Export :=
  let those := exports.filter (·.module = module)
  { entries := dropRepeats (sortBy ExportEntry.order (those.flatMap (·.entries)))
    module := module
    assertion := those.findSome? (·.assertion) }

/-- One export for every module. -/
def coalesceExports (exports : List Export) : List Export :=
  (distinctAscending (exports.map (·.module))).map fun module => mergeExports module exports

/-- The fewest imports of a module that bind all that some imports of it bind: the first default name goes
with the named entries, every further one needs an import of its own. -/
def mergeImports (module : String) (imports : List Import) : List Import :=
  let those := imports.filter (·.module = module)
  let assertion := those.findSome? (·.assertion)
  let defaults := (those.filterMap (·.defaultName)).eraseDups
  let named := dropRepeats (sortBy ImportEntry.order (those.flatMap (·.named)))
  ⟨defaults.head?, named, module, assertion⟩
    :: defaults.tail.map fun name => ⟨some name, [], module, assertion⟩

/-- The fewest imports that bind all that some imports bind. -/
def coalesceImports (imports : List Import) : List Import :=
  (distinctAscending (imports.map (·.module))).flatMap fun module => mergeImports module imports

end BarrelSynthesis.Synthesis
