/-
# Modules with their statements in another order

When the statements of a module are put in another order, each of them comes to stand elsewhere. In the
parsed module that is a permutation of the statements and a move of every span in them. Names, flags and
module specifiers stay what they are, so a moved statement introduces the same names, and it writes the same
exports in moved places. Whether a name is a type is decided by all statements together, in whatever order
they stand, and so is which names are exported and which of them as types.
-/
import BarrelSynthesis.Proofs.Source.WrittenExports

namespace BarrelSynthesis

open Source

/-! ## Moving a tree -/

namespace Source

variable (move : Span → Span)

/-- A name in another place. -/
def Name.moved (name : Name) : Name :=
  { name with span := move name.span }

mutual

/-- A pattern with the places of its names moved. -/
def BindingPattern.moved : BindingPattern → BindingPattern
  | .name name => .name (name.moved move)
  | .object properties rest =>
    .object (movedPatterns properties) (match rest with
      | some pattern => some pattern.moved
      | none => none)
  | .array elements rest =>
    .array (movedElements elements) (match rest with
      | some pattern => some pattern.moved
      | none => none)
  | .withDefault target => .withDefault target.moved

/-- The patterns of an object pattern with the places of their names moved. -/
def movedPatterns : List BindingPattern → List BindingPattern
  | [] => []
  | pattern :: rest => pattern.moved :: movedPatterns rest

/-- The elements of an array pattern with the places of their names moved. Holes have no place. -/
def movedElements : List (Option BindingPattern) → List (Option BindingPattern)
  | [] => []
  | some pattern :: rest => some pattern.moved :: movedElements rest
  | none :: rest => none :: movedElements rest

end

/-- A declaration with every place in it moved. -/
def Declaration.moved : Declaration → Declaration
  | .bindings patterns => .bindings (patterns.map (BindingPattern.moved move))
  | .function name span => .function name (move span)
  | .class name span => .class name (move span)
  | .interface name span => .interface name (move span)
  | .typeAlias name span => .typeAlias name (move span)
  | .enumeration name span => .enumeration name (move span)
  | .namespace name span => .namespace name (move span)
  | .importAlias name typeOnly span => .importAlias name typeOnly (move span)

/-- An entry of an export list in another place. -/
def ExportSpecifier.moved (specifier : ExportSpecifier) : ExportSpecifier :=
  { specifier with span := move specifier.span }

/-- A statement with every place in it moved. -/
def Statement.moved : Statement → Statement
  | .importDeclaration imported => .importDeclaration { imported with span := move imported.span }
  | .exportDeclaration exported => .exportDeclaration (exported.moved move)
  | .exportList specifiers source typeOnly =>
    .exportList (specifiers.map (ExportSpecifier.moved move)) source typeOnly
  | .exportDefault value span => .exportDefault value (move span)
  | .exportAll exportedAs source typeOnly span => .exportAll exportedAs source typeOnly (move span)
  | .exportAssignment => .exportAssignment
  | .exportAsNamespace => .exportAsNamespace
  | .declaration declared => .declaration (declared.moved move)
  | .other => .other

/-- The second module has the statements of the first, moved and in any order. -/
def Module.Reordered (first second : Module) : Prop :=
  second.statements.Perm (first.statements.map (Statement.moved move))

end Source

/-- A declared name in another place: whether it is a type does not change. -/
def DeclaredName.moved (move : Span → Span) (declared : DeclaredName) : DeclaredName :=
  { declared with span := move declared.span }

/-- An export written in a moved place. -/
def WrittenExport.moved (move : Span → Span) : WrittenExport → WrittenExport
  | declared declaration name => declared (declaration.moved move) (name.moved move)
  | listed specifier source typeOnly => listed (specifier.moved move) source typeOnly
  | byDefault value span => byDefault value (move span)
  | star exportedAs source typeOnly span => star exportedAs source typeOnly (move span)

/-! ## What a moved statement introduces and exports -/

section Moved

variable (move : Span → Span)

mutual

/-- A moved pattern binds the same names in moved places. -/
theorem Source.BindingPattern.names_moved : ∀ pattern : BindingPattern,
    (pattern.moved move).names = pattern.names.map (Name.moved move)
  | .name name => by rw [BindingPattern.moved, BindingPattern.names, BindingPattern.names]; rfl
  | .object properties none => by
      simp [BindingPattern.moved, BindingPattern.names, namesOfPatterns_moved properties]
  | .object properties (some rest) => by
      simp [BindingPattern.moved, BindingPattern.names, namesOfPatterns_moved properties,
        rest.names_moved]
  | .array elements none => by
      simp [BindingPattern.moved, BindingPattern.names, namesOfElements_moved elements]
  | .array elements (some rest) => by
      simp [BindingPattern.moved, BindingPattern.names, namesOfElements_moved elements,
        rest.names_moved]
  | .withDefault target => by
      rw [BindingPattern.moved, BindingPattern.names, BindingPattern.names, target.names_moved]

/-- Moved properties bind the same names in moved places. -/
theorem namesOfPatterns_moved : ∀ patterns : List BindingPattern,
    namesOfPatterns (movedPatterns move patterns) =
      (namesOfPatterns patterns).map (Name.moved move)
  | [] => by rw [movedPatterns, namesOfPatterns, List.map_nil]
  | pattern :: rest => by
      rw [movedPatterns, namesOfPatterns, namesOfPatterns, pattern.names_moved,
        namesOfPatterns_moved rest, List.map_append]

/-- Moved elements bind the same names in moved places, and holes bind none. -/
theorem namesOfElements_moved : ∀ elements : List (Option BindingPattern),
    namesOfElements (movedElements move elements) =
      (namesOfElements elements).map (Name.moved move)
  | [] => by rw [movedElements, namesOfElements, List.map_nil]
  | some pattern :: rest => by
      rw [movedElements, namesOfElements, namesOfElements, pattern.names_moved,
        namesOfElements_moved rest, List.map_append]
  | none :: rest => by
      rw [movedElements, namesOfElements, namesOfElements, namesOfElements_moved rest]

end

/-- A moved declaration declares the same names, the same of them as types. -/
theorem Source.Declaration.declaredNames_moved (declaration : Declaration) :
    (declaration.moved move).declaredNames =
      declaration.declaredNames.map (DeclaredName.moved move) := by
  cases declaration with
  | bindings patterns =>
      have names : (patterns.map (BindingPattern.moved move)).flatMap BindingPattern.names =
          (patterns.flatMap BindingPattern.names).map (Name.moved move) := by
        rw [List.flatMap_map, List.map_flatMap]
        exact List.flatMap_congr fun pattern _ => pattern.names_moved move
      rw [Declaration.moved, declaredNames, declaredNames, names, List.map_map, List.map_map]
      rfl
  | function name span => cases name <;> rfl
  | «class» name span => cases name <;> rfl
  | «namespace» name span => cases name <;> rfl
  | _ => rfl

/-- What a statement introduces has no place, so moving changes nothing about it. -/
theorem Source.Statement.introduced_moved (statement : Statement) :
    (statement.moved move).introduced = statement.introduced := by
  cases statement with
  | exportDeclaration exported =>
      rw [moved, introduced, introduced, exported.declaredNames_moved, List.map_map]
      rfl
  | declaration declared =>
      rw [moved, introduced, introduced, declared.declaredNames_moved, List.map_map]
      rfl
  | _ => rfl

/-- A moved statement writes the same exports in moved places. -/
theorem Source.Statement.writtenExports_moved (statement : Statement) :
    (statement.moved move).writtenExports =
      statement.writtenExports.map (WrittenExport.moved move) := by
  cases statement with
  | exportDeclaration exported =>
      rw [moved, writtenExports, writtenExports, exported.declaredNames_moved, List.map_map,
        List.map_map]
      rfl
  | exportList specifiers source typeOnly =>
      rw [moved, writtenExports, writtenExports, List.map_map, List.map_map]
      rfl
  | _ => rfl

end Moved

namespace WrittenExport

variable (move : Span → Span) (written : WrittenExport)

/-- An export keeps its public name wherever it stands. -/
@[simp]
theorem publicName?_moved : (written.moved move).publicName? = written.publicName? := by
  cases written <;> rfl

/-- The place of an export moves with it. -/
@[simp]
theorem span_moved : (written.moved move).span = move written.span := by
  cases written <;> rfl

/-- Whether an export is a type goes by names, and names do not change. -/
@[simp]
theorem isType_moved (module : Module) : (written.moved move).isType module = written.isType module := by
  cases written with
  | byDefault value span => cases value <;> rfl
  | _ => rfl

end WrittenExport

/-! ## Reordered modules -/

/-- A name is a type if it is introduced, and always as a type. -/
theorem Source.Module.isTypeName_iff {module : Module} {name : String} :
    module.isTypeName name = true ↔
      (∃ isType, (name, isType) ∈ module.statements.flatMap Statement.introduced) ∧
        ∀ isType, (name, isType) ∈ module.statements.flatMap Statement.introduced → isType = true := by
  rw [isTypeName]
  generalize module.statements.flatMap Statement.introduced = introduced
  simp only [Bool.and_eq_true, Bool.not_eq_true', List.isEmpty_eq_false_iff_exists_mem,
    List.mem_filter, List.all_eq_true, decide_eq_true_eq, Prod.exists, Prod.forall, and_imp]
  constructor
  · rintro ⟨⟨other, isType, member, rfl⟩, always⟩
    exact ⟨⟨isType, member⟩, fun isType member => always other isType member rfl⟩
  · rintro ⟨⟨isType, member⟩, always⟩
    refine ⟨⟨name, isType, member, rfl⟩, ?_⟩
    rintro other kind again rfl
    exact always kind again

namespace Source.Module.Reordered

variable {move : Span → Span} {first second : Module}

/-- A module in another order writes the same exports, each as often, in moved places. -/
theorem writtenExports_perm (reordered : first.Reordered move second) :
    second.writtenExports.Perm (first.writtenExports.map (WrittenExport.moved move)) := by
  have moved : (first.statements.map (Statement.moved move)).flatMap Statement.writtenExports =
      first.writtenExports.map (WrittenExport.moved move) := by
    rw [List.flatMap_map, writtenExports, List.map_flatMap]
    exact List.flatMap_congr fun statement _ => statement.writtenExports_moved move
  rw [← moved]
  exact reordered.flatMap_right _

/-- Whether a name is a type does not depend on where the statements stand. -/
theorem isTypeName_eq (reordered : first.Reordered move second) (name : String) :
    second.isTypeName name = first.isTypeName name := by
  have introduced : (second.statements.flatMap Statement.introduced).Perm
      (first.statements.flatMap Statement.introduced) := by
    have moved : (first.statements.map (Statement.moved move)).flatMap Statement.introduced =
        first.statements.flatMap Statement.introduced := by
      rw [List.flatMap_map]
      exact List.flatMap_congr fun statement _ => statement.introduced_moved move
    rw [← moved]
    exact reordered.flatMap_right _
  rw [Bool.eq_iff_iff, isTypeName_iff, isTypeName_iff]
  simp only [introduced.mem_iff]

/-- An export that was a type stays one in another order, since the names that are types stay the same. -/
theorem isType_eq (reordered : first.Reordered move second) (written : WrittenExport) :
    written.isType second = written.isType first := by
  cases written with
  | listed specifier source typeOnly =>
      rw [WrittenExport.isType, WrittenExport.isType, reordered.isTypeName_eq]
  | byDefault value span =>
      cases value with
      | reference name => exact reordered.isTypeName_eq name
      | _ => rfl
  | _ => rfl

/-- A module in another order exports the same names, the same of them as types. -/
theorem typedNames_perm (reordered : first.Reordered move second) (path : Path)
    (extension source otherSource : String) :
    (ModuleExports.typedNames (.ofModule path extension otherSource second)).Perm
      (ModuleExports.typedNames (.ofModule path extension source first)) := by
  refine (List.perm_ext_iff_of_nodup (ModuleExports.nodup_typedNames ..)
    (ModuleExports.nodup_typedNames ..)).mpr fun pair => ?_
  obtain ⟨name, isType⟩ := pair
  have listed (written : WrittenExport) :
      written ∈ second.writtenExports ↔ ∃ source ∈ first.writtenExports, source.moved move = written := by
    rw [reordered.writtenExports_perm.mem_iff, List.mem_map]
  simp [ModuleExports.mem_typedNames_iff, listed, reordered.isType_eq]

/-- A module in another order has the same exports without a public name, in moved places. -/
theorem nameless_perm (reordered : first.Reordered move second) :
    ((second.writtenExports.filter (·.publicName?.isNone)).map (·.span)).Perm
      ((first.writtenExports.filter (·.publicName?.isNone)).map fun written => move written.span) := by
  refine ((reordered.writtenExports_perm.filter _).map _).trans (.of_eq ?_)
  rw [List.filter_map, List.map_map]
  simp [Function.comp_def]

end Source.Module.Reordered

end BarrelSynthesis
