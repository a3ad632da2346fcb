/-
# Which names are exported as types

A name is exported as a type if every export of it is of a type only. An export can be marked as one, it can
be of an interface or a type alias, or it can name something at the top level of the module that is
declared or imported there, and only as a type. The extraction follows this with two exceptions. It takes
no notice of an interface that is exported by default where the interface is declared. And it takes every
alias of an import for a value, even one that is marked as a type. An export that rests on one of these is
overlooked: it counts as the export of a value, and its name is exported as one.

Apart from this the extraction accounts for all that is written. Every public name makes one entity, which has
the default flag and the place of its first export, and every export without a public name makes one
warning in its place. The order of the statements decides about neither the names nor the types.
-/
import BarrelSynthesis.Proofs.Source.Reordering

namespace BarrelSynthesis

open Source

/-! ## Types at the top level -/

namespace Source

/-- Whether a declaration introduces its names as types only. -/
def Declaration.isTypeOnly : Declaration → Bool
  | .interface _ _ => true
  | .typeAlias _ _ => true
  | .importAlias _ typeOnly _ => typeOnly
  | _ => false

/-- Whether a declaration is an import alias marked as a type. -/
def Declaration.isTypeImport : Declaration → Bool
  | .importAlias _ typeOnly _ => typeOnly
  | _ => false

/-- The names that a top-level statement declares or imports, each with whether it does so as a type only.
Functions and classes that are exported by default are left aside. -/
def Statement.topLevelNames : Statement → List (String × Bool)
  | .exportDeclaration exported =>
    exported.declaredNames.map fun name => (name.name, exported.isTypeOnly)
  | .declaration declared =>
    declared.declaredNames.map fun name => (name.name, declared.isTypeOnly)
  | .importDeclaration imported =>
    (imported.bindings.getD []).map fun binding =>
      (binding.localName.1, imported.typeOnly || binding.localName.2)
  | .exportDefault (.interface name) _ => [(name, true)]
  | _ => []

/-- Whether a statement declares an interface and exports it by default. -/
def Statement.isDefaultInterface : Statement → Bool
  | .exportDefault (.interface _) _ => true
  | _ => false

/-- Whether a statement imports under an alias marked as a type. -/
def Statement.isTypeImport : Statement → Bool
  | .exportDeclaration exported => exported.isTypeImport
  | .declaration declared => declared.isTypeImport
  | _ => false

/-- A statement declares or imports a name, as a type only or not. -/
def Statement.Introduces (statement : Statement) (name : String) (typeOnly : Bool) : Prop :=
  (name, typeOnly) ∈ statement.topLevelNames

/-- A name is declared or imported at the top level, and only as a type. -/
def Module.OnlyType (module : Module) (name : String) : Prop :=
  (∃ statement ∈ module.statements, ∃ typeOnly, statement.Introduces name typeOnly) ∧
    ∀ statement ∈ module.statements, ∀ typeOnly, statement.Introduces name typeOnly → typeOnly = true

/-- A name is introduced by interfaces that are exported by default and in no other way, or an import alias
marked as a type introduces it. -/
def Module.OverlooksType (module : Module) (name : String) : Prop :=
  (∀ statement ∈ module.statements, ∀ typeOnly,
      statement.Introduces name typeOnly → statement.isDefaultInterface = true) ∨
    ∃ statement ∈ module.statements, ∃ typeOnly,
      statement.Introduces name typeOnly ∧ statement.isTypeImport = true

instance (statement : Statement) (name : String) (typeOnly : Bool) :
    Decidable (statement.Introduces name typeOnly) :=
  inferInstanceAs (Decidable (_ ∈ _))

instance (module : Module) (name : String) : Decidable (module.OnlyType name) :=
  inferInstanceAs (Decidable (_ ∧ _))

instance (module : Module) (name : String) : Decidable (module.OverlooksType name) :=
  inferInstanceAs (Decidable (_ ∨ _))

/-- What a declaration introduces counts as a type, unless it is an import alias marked as one. -/
theorem Declaration.isType_of_mem {declaration : Declaration} {name : DeclaredName}
    (member : name ∈ declaration.declaredNames) :
    name.isType = (declaration.isTypeOnly && !declaration.isTypeImport) := by
  cases declaration with
  | bindings patterns =>
      obtain ⟨_, -, rfl⟩ := List.mem_map.mp member
      rfl
  | function own span =>
      obtain ⟨_, -, rfl⟩ := List.mem_map.mp member
      rfl
  | «class» own span =>
      obtain ⟨_, -, rfl⟩ := List.mem_map.mp member
      rfl
  | «namespace» own span =>
      obtain ⟨_, -, rfl⟩ := List.mem_map.mp member
      rfl
  | importAlias own typeOnly span =>
      rw [List.mem_singleton.mp member]
      exact (Bool.and_not_self typeOnly).symm
  | _ =>
      rw [List.mem_singleton.mp member]
      rfl

/-- The extraction counts the names that a statement introduces, unless it is an interface exported by
default, and counts them as types unless the statement is an import alias. -/
theorem Statement.introduced_eq (statement : Statement) :
    statement.introduced =
      if statement.isDefaultInterface then []
      else statement.topLevelNames.map fun (name, typeOnly) =>
        (name, typeOnly && !statement.isTypeImport) := by
  have declared (declaration : Declaration) :
      (declaration.declaredNames.map fun name => (name.name, name.isType)) =
        (declaration.declaredNames.map fun name => (name.name, declaration.isTypeOnly)).map
          fun (name, typeOnly) => (name, typeOnly && !declaration.isTypeImport) := by
    rw [List.map_map]
    exact List.map_congr_left fun name member =>
      congrArg (Prod.mk name.name) (Declaration.isType_of_mem member)
  cases statement with
  | exportDeclaration exported => exact declared exported
  | declaration own => exact declared own
  | importDeclaration imported =>
      simp [introduced, topLevelNames, isDefaultInterface, isTypeImport]
  | exportDefault value span => cases value <;> rfl
  | _ => rfl

/-- What the extraction takes a statement to introduce: the interfaces exported by default are missing,
and an alias that is imported as a type counts as a value. -/
theorem Statement.mem_introduced_iff {statement : Statement} {name : String} {isType : Bool} :
    (name, isType) ∈ statement.introduced ↔
      statement.isDefaultInterface = false ∧ ∃ typeOnly, statement.Introduces name typeOnly ∧
        isType = (typeOnly && !statement.isTypeImport) := by
  rw [introduced_eq]
  cases statement.isDefaultInterface with
  | true => simp
  | false =>
      simp only [Bool.false_eq_true, if_false, true_and, List.mem_map, Prod.mk.injEq, Prod.exists]
      constructor
      · rintro ⟨_, typeOnly, introduces, rfl, rfl⟩
        exact ⟨typeOnly, introduces, rfl⟩
      · rintro ⟨typeOnly, introduces, rfl⟩
        exact ⟨name, typeOnly, introduces, rfl, rfl⟩

/-- An interface exported by default is introduced as a type. -/
theorem Statement.eq_true_of_isDefaultInterface {statement : Statement} {name : String}
    {typeOnly : Bool} (isInterface : statement.isDefaultInterface = true)
    (introduces : statement.Introduces name typeOnly) : typeOnly = true := by
  cases statement with
  | exportDefault value span =>
      cases value with
      | interface own => exact (Prod.mk.inj (List.mem_singleton.mp introduces)).2
      | _ => cases isInterface
  | _ => cases isInterface

/-- An import alias is no default export. -/
theorem Statement.isDefaultInterface_of_isTypeImport {statement : Statement}
    (marked : statement.isTypeImport = true) : statement.isDefaultInterface = false := by
  cases statement with
  | exportDefault value span => cases marked
  | _ => rfl

/-- The extraction takes a name for a type exactly if it is introduced only as one, and in a way that is not
overlooked. -/
theorem Module.isTypeName_eq_true_iff {module : Module} {name : String} :
    module.isTypeName name = true ↔ module.OnlyType name ∧ ¬ module.OverlooksType name := by
  rw [isTypeName_iff]
  simp only [List.mem_flatMap, Statement.mem_introduced_iff]
  constructor
  · rintro ⟨⟨_, here, listed, plain, typeOnly, introduces, -⟩, always⟩
    have counted {statement : Statement} {flag : Bool} (member : statement ∈ module.statements)
        (isPlain : statement.isDefaultInterface = false) (names : statement.Introduces name flag) :
        (flag && !statement.isTypeImport) = true :=
      always _ ⟨statement, member, isPlain, flag, names, rfl⟩
    refine ⟨⟨⟨here, listed, typeOnly, introduces⟩, fun statement member flag names => ?_⟩, ?_⟩
    · cases isInterface : statement.isDefaultInterface with
      | true => exact Statement.eq_true_of_isDefaultInterface isInterface names
      | false => exact (Bool.and_eq_true_iff.mp (counted member isInterface names)).1
    · rintro (onlyInterfaces | ⟨statement, member, flag, names, marked⟩)
      · rw [onlyInterfaces here listed typeOnly introduces] at plain
        cases plain
      · have isPlain := Statement.isDefaultInterface_of_isTypeImport marked
        have value := counted member isPlain names
        rw [marked, Bool.not_true, Bool.and_false] at value
        cases value
  · rintro ⟨⟨-, always⟩, noticed⟩
    rw [OverlooksType, not_or] at noticed
    obtain ⟨some, none⟩ := noticed
    push Not at some none
    obtain ⟨here, listed, typeOnly, introduces, plain⟩ := some
    refine ⟨⟨_, here, listed, Bool.eq_false_iff.mpr plain, typeOnly, introduces, rfl⟩, ?_⟩
    rintro _ ⟨statement, member, -, flag, names, rfl⟩
    rw [always statement member flag names, Bool.true_and, Bool.not_eq_true']
    exact Bool.eq_false_iff.mpr (none statement member flag names)

end Source

/-! ## Types among the exports -/

namespace WrittenExport

/-- An export is of a type only. It is marked as one, or it is of an interface or a type alias, or it names
something in the module that is introduced only as a type. -/
def IsTypeOnly (module : Module) : WrittenExport → Prop
  | declared declaration _ => declaration.isTypeOnly = true
  | listed specifier source typeOnly =>
    typeOnly = true ∨ specifier.typeOnly = true ∨
      (source = none ∧ module.OnlyType specifier.localName)
  | byDefault (.interface _) _ => True
  | byDefault (.reference name) _ => module.OnlyType name
  | byDefault _ _ => False
  | star _ _ typeOnly _ => typeOnly = true

/-- That an export is of a type only can be seen from nothing but a declaration that the extraction overlooks:
an import alias marked as a type, or interfaces that are exported by default. -/
def IsOverlooked (module : Module) : WrittenExport → Prop
  | declared declaration _ => declaration.isTypeImport = true
  | listed specifier source typeOnly =>
    typeOnly = false ∧ specifier.typeOnly = false ∧ source = none ∧
      module.OverlooksType specifier.localName
  | byDefault (.reference name) _ => module.OverlooksType name
  | _ => False

instance (module : Module) (written : WrittenExport) : Decidable (written.IsTypeOnly module) :=
  match written with
  | declared _ _ => inferInstanceAs (Decidable (_ = _))
  | listed _ _ _ => inferInstanceAs (Decidable (_ ∨ _))
  | byDefault (.function _) _ => inferInstanceAs (Decidable False)
  | byDefault (.class _) _ => inferInstanceAs (Decidable False)
  | byDefault (.interface _) _ => inferInstanceAs (Decidable True)
  | byDefault (.reference name) _ => inferInstanceAs (Decidable (module.OnlyType name))
  | byDefault .expression _ => inferInstanceAs (Decidable False)
  | star _ _ _ _ => inferInstanceAs (Decidable (_ = _))

instance (module : Module) (written : WrittenExport) : Decidable (written.IsOverlooked module) :=
  match written with
  | declared _ _ => inferInstanceAs (Decidable (_ = _))
  | listed _ _ _ => inferInstanceAs (Decidable (_ ∧ _))
  | byDefault (.function _) _ => inferInstanceAs (Decidable False)
  | byDefault (.class _) _ => inferInstanceAs (Decidable False)
  | byDefault (.interface _) _ => inferInstanceAs (Decidable False)
  | byDefault (.reference name) _ => inferInstanceAs (Decidable (module.OverlooksType name))
  | byDefault .expression _ => inferInstanceAs (Decidable False)
  | star _ _ _ _ => inferInstanceAs (Decidable False)

/-- An export is extracted as a type exactly if it is of a type only and this is not overlooked. -/
theorem isType_eq_true_iff {module : Module} {written : WrittenExport}
    (member : written ∈ module.writtenExports) :
    written.isType module = true ↔ written.IsTypeOnly module ∧ ¬ written.IsOverlooked module := by
  cases written with
  | declared declaration name =>
      have own : name ∈ declaration.declaredNames := by
        obtain ⟨statement, -, inside⟩ := List.mem_flatMap.mp member
        cases statement with
        | exportDeclaration exported =>
            obtain ⟨_, names, same⟩ := List.mem_map.mp inside
            obtain ⟨rfl, rfl⟩ := WrittenExport.declared.inj same
            exact names
        | exportList specifiers source typeOnly =>
            obtain ⟨_, -, same⟩ := List.mem_map.mp inside
            cases same
        | exportDefault value span => cases List.mem_singleton.mp inside
        | exportAll exportedAs source typeOnly span => cases List.mem_singleton.mp inside
        | _ => cases inside
      rw [isType, IsTypeOnly, IsOverlooked, Declaration.isType_of_mem own]
      simp
  | listed specifier source typeOnly =>
      simp only [isType, IsTypeOnly, IsOverlooked, Bool.or_eq_true, Bool.and_eq_true,
        Module.isTypeName_eq_true_iff]
      cases typeOnly <;> cases specifier.typeOnly <;> cases source <;> simp
  | byDefault value span =>
      cases value with
      | reference name => exact Module.isTypeName_eq_true_iff
      | _ => simp [isType, IsTypeOnly, IsOverlooked]
  | star exportedAs source typeOnly span => simp [isType, IsTypeOnly, IsOverlooked]

end WrittenExport

/-! ## Types among the entities -/

namespace ModuleExports

variable {path : Path} {extension source : String} {module : Module} {entity : Entity}

/-- An entity is a type if every export under its name is extracted as one. -/
theorem isTypeExport_iff_of_mem
    (member : entity ∈ (ofModule path extension source module).entities) :
    entity.isTypeExport = true ↔ ∀ written ∈ module.writtenExports,
      written.publicName? = some entity.identifier → written.isType module = true := by
  have typed : (entity.identifier, entity.isTypeExport) ∈
      (ofModule path extension source module).typedNames := List.mem_map.mpr ⟨entity, member, rfl⟩
  exact (mem_typedNames_iff.mp typed).2

/-- All names are told to be types or not as they are written, exactly if no name owes its being a type to
an export that is overlooked. -/
theorem types_as_written_iff :
    (∀ entity ∈ (ofModule path extension source module).entities,
        entity.isTypeExport = true ↔ ∀ written ∈ module.writtenExports,
          written.publicName? = some entity.identifier → written.IsTypeOnly module) ↔
      ∀ overlooked ∈ module.writtenExports, ∀ name, overlooked.publicName? = some name →
        overlooked.IsTypeOnly module → overlooked.IsOverlooked module →
        ∃ written ∈ module.writtenExports,
          written.publicName? = some name ∧ ¬ written.IsTypeOnly module := by
  constructor
  · intro told overlooked listed name named _ missed
    by_contra all
    push Not at all
    obtain ⟨entity, member, rfl⟩ := exists_mem_of_publicName path extension source listed named
    have typed := (isTypeExport_iff_of_mem member).mp ((told entity member).mpr all)
    exact ((WrittenExport.isType_eq_true_iff listed).mp (typed overlooked listed named)).2 missed
  · intro noticed entity member
    rw [isTypeExport_iff_of_mem member]
    constructor
    · intro typed written listed named
      exact ((WrittenExport.isType_eq_true_iff listed).mp (typed written listed named)).1
    · intro all written listed named
      refine (WrittenExport.isType_eq_true_iff listed).mpr ⟨all written listed named, fun missed => ?_⟩
      obtain ⟨value, other, same, differs⟩ :=
        noticed written listed _ named (all written listed named) missed
      exact differs (all value other same)

/-- What is extracted from a file that parses. The names are those that its exports are written under, in the
order in which they come first, each with the default flag and the place of its first export. Exports
without a name are warned about, one by one. With the statements in another order the same names come out,
the same of them as types, and the same exports are warned about in their new places. And every name is
told to be a type exactly if each of its exports is of a type only, provided that no name owes its being a
type to an export that is overlooked. -/
theorem extracted_as_written_iff {path : Path} {extension source : String} {module : Module}
    (known : Extension.ofPath? path = some extension)
    (code : Extension.isCode extension = true)
    (parses : Module.parse? (Language.ofPath path) source = some module) :
    ∃ exports, ofSource? path source = some exports ∧
      exports.entities.map (·.identifier) =
        (module.writtenExports.filterMap (·.publicName?)).eraseDups ∧
      (∀ entity ∈ exports.entities, ∃ first,
        module.writtenExports.find? (·.publicName? = some entity.identifier) = some first ∧
        entity.isDefaultExport = first.isDefault ∧ entity.span = some first.span) ∧
      exports.diagnostics = (module.writtenExports.filter (·.publicName?.isNone)).map (fun written =>
        .missingIdentifier path source written.span) ∧
      (∀ otherSource other move, Module.parse? (Language.ofPath path) otherSource = some other →
        module.Reordered move other →
        ∃ otherExports, ofSource? path otherSource = some otherExports ∧
          otherExports.typedNames.Perm exports.typedNames ∧
          otherExports.diagnostics.Perm
            ((module.writtenExports.filter (·.publicName?.isNone)).map fun written =>
              .missingIdentifier path otherSource (move written.span))) ∧
      ((∀ entity ∈ exports.entities, entity.isTypeExport = true ↔
          ∀ written ∈ module.writtenExports,
            written.publicName? = some entity.identifier → written.IsTypeOnly module) ↔
        ∀ overlooked ∈ module.writtenExports, ∀ name, overlooked.publicName? = some name →
          overlooked.IsTypeOnly module → overlooked.IsOverlooked module →
          ∃ written ∈ module.writtenExports,
            written.publicName? = some name ∧ ¬ written.IsTypeOnly module) := by
  refine ⟨_, ofSource?_of_parses known code parses, map_identifier_ofModule module,
    fun entity member => exists_first_of_mem member, diagnostics_ofModule module, ?_,
    types_as_written_iff⟩
  intro otherSource other move otherParses reordered
  refine ⟨_, ofSource?_of_parses known code otherParses, reordered.typedNames_perm .., ?_⟩
  have warned := reordered.nameless_perm.map (Diagnostic.missingIdentifier path otherSource)
  rw [List.map_map, List.map_map] at warned
  rw [diagnostics_ofModule]
  exact warned

/-- An interface that is exported under another name is told to be a type, whether it is declared before or
after the export. -/
theorem extracted_interface_under_alias :
    ∃ exports otherExports,
      ofSource? ⟨"m.ts"⟩
        "export const [c] = o;\nexport \x7b I as J \x7d;interface I \x7b\x7d\nexport default 1;" =
        some exports ∧
      exports.entities.map (·.identifier) = ["c", "J"] ∧
      (∀ entity ∈ exports.entities, entity.isTypeExport = true ↔ entity.identifier = "J") ∧
      exports.diagnostics.map (fun warning => (warning.code, warning.start)) = [(9999, 55)] ∧
      ofSource? ⟨"m.ts"⟩
        "interface I \x7b\x7d\nexport default 1;export const [c] = o;\nexport \x7b I as J \x7d;" =
        some otherExports ∧
      otherExports.typedNames.Perm exports.typedNames ∧
      (otherExports.diagnostics.map fun warning => (warning.code, warning.start)).Perm [(9999, 15)] := by
  have parses : Module.parse? (Language.ofPath ⟨"m.ts"⟩)
      "export const [c] = o;\nexport \x7b I as J \x7d;interface I \x7b\x7d\nexport default 1;" =
      some ⟨[.exportDeclaration (.bindings [.array [some (.name ⟨"c", ⟨14, 15⟩⟩)] none]),
        .exportList [⟨"I", "J", false, ⟨31, 37⟩⟩] none false,
        .declaration (.interface "I" ⟨40, 54⟩), .exportDefault .expression ⟨55, 72⟩], []⟩ := by
    decide +kernel
  have otherParses : Module.parse? (Language.ofPath ⟨"m.ts"⟩)
      "interface I \x7b\x7d\nexport default 1;export const [c] = o;\nexport \x7b I as J \x7d;" =
      some ⟨[.declaration (.interface "I" ⟨0, 14⟩), .exportDefault .expression ⟨15, 32⟩,
        .exportDeclaration (.bindings [.array [some (.name ⟨"c", ⟨46, 47⟩⟩)] none]),
        .exportList [⟨"I", "J", false, ⟨63, 69⟩⟩] none false], []⟩ := by
    decide +kernel
  have known : Extension.ofPath? ⟨"m.ts"⟩ = some ".ts" := by decide
  obtain ⟨exports, extracted, names, -, warned, kept, typed⟩ :=
    extracted_as_written_iff known (by decide) parses
  -- The text is cut behind the export list, and the two pieces change places.
  let move : Span → Span := fun span =>
    if span.start < 40 then ⟨span.start + 32, span.stop + 32⟩ else ⟨span.start - 40, span.stop - 40⟩
  obtain ⟨otherExports, otherExtracted, same, otherWarned⟩ :=
    kept _ _ move otherParses (@List.perm_append_comm _ [_, _] [_, _])
  have told := typed.mpr (by decide)
  have both : exports.entities.map (·.identifier) = ["c", "J"] := names
  refine ⟨exports, otherExports, extracted, both, fun entity member => ?_, ?_, otherExtracted, same,
    otherWarned.map _⟩
  · rw [told entity member]
    have named : entity.identifier ∈ ["c", "J"] := both ▸ List.mem_map_of_mem member
    simp only [List.mem_cons, List.not_mem_nil, or_false] at named
    obtain value | type := named
    · rw [value]
      decide
    · rw [type]
      decide
  · rw [warned]
    rfl

/-- The interface in `export default interface I {}` is no type to the extraction, so another name that it
is exported under is told to be a value. -/
theorem default_interface_under_alias_is_value :
    ∃ module exports,
      Module.parse? (Language.ofPath ⟨"m.ts"⟩)
        "export default interface I \x7b\x7d\nexport \x7b I as J \x7d;" = some module ∧
      ofSource? ⟨"m.ts"⟩ "export default interface I \x7b\x7d\nexport \x7b I as J \x7d;" =
        some exports ∧
      ∃ entity ∈ exports.entities, entity.isTypeExport = false ∧
        ∀ written ∈ module.writtenExports,
          written.publicName? = some entity.identifier → written.IsTypeOnly module := by
  have parses : Module.parse? (Language.ofPath ⟨"m.ts"⟩)
      "export default interface I \x7b\x7d\nexport \x7b I as J \x7d;" =
      some ⟨[.exportDefault (.interface "I") ⟨0, 29⟩,
        .exportList [⟨"I", "J", false, ⟨39, 45⟩⟩] none false], []⟩ := by
    decide +kernel
  have known : Extension.ofPath? ⟨"m.ts"⟩ = some ".ts" := by decide
  refine ⟨_, _, parses, ofSource?_of_parses known (by decide) parses, ?_⟩
  decide

end ModuleExports

end BarrelSynthesis
