/-
# Exports that get lost

What other modules import from a module, they import by export names: `default` for the default export, and
for any other export the name it is exported under. The extraction goes by public names, which differ from
these for the default export alone, since it keeps its local name. So the default export can share its public
name with an export of something else. Only the one that is written first makes an entity then, and about the
other one nothing is said.

Exactly those exports make an entity under their own export name that are shown: no export before them has
their public name, and they are no star under the name `default`, which would be taken for a named
export. A binding of the module is accounted for if it is exported under the name of an export that is shown,
once or several times, or if it is warned about. Any other binding is lost.
-/
import BarrelSynthesis.Proofs.Source.WrittenExports

namespace BarrelSynthesis

open Source

/-! ## What is exported, and under which name -/

/-- What a module can export. -/
inductive Binding
  /-- What the module itself has under a name. -/
  | own (name : String)
  /-- What another module exports under a name. -/
  | foreign (specifier name : String)
  /-- Another module as a whole. -/
  | whole (specifier : String)
  /-- What is written in a place without a name. -/
  | unnamed (span : Span)
  deriving DecidableEq

/-- What an import from a module binds a name to. -/
def Source.ImportBinding.target (specifier : String) : ImportBinding → Binding
  | .default _ => .foreign specifier "default"
  | .whole _ => .whole specifier
  | .named imported _ _ => .foreign specifier imported

/-- The names that a statement imports, each with what it is bound to. -/
def Source.Statement.imported : Statement → List (String × Binding)
  | .importDeclaration clause =>
    (clause.bindings.getD []).map fun binding =>
      (binding.localName.1, binding.target clause.specifier)
  | _ => []

/-- What a name stands for in a module: what is imported under it, or else what the module itself has. -/
def Source.Module.bindingOf (module : Module) (name : String) : Binding :=
  ((module.statements.flatMap Statement.imported).lookup name).getD (.own name)

namespace WrittenExport

/-- The name by which other modules import an export. A star without a name has none. -/
def exportName? : WrittenExport → Option String
  | declared _ name => some name.name
  | listed specifier _ _ => some specifier.exported
  | byDefault _ _ => some "default"
  | star exportedAs _ _ _ => exportedAs

/-- What a module exports with an export. -/
def binding (module : Module) : WrittenExport → Binding
  | declared _ name => .own name.name
  | listed specifier none _ => module.bindingOf specifier.localName
  | listed specifier (some source) _ => .foreign source specifier.localName
  | byDefault (.reference name) _ => module.bindingOf name
  | byDefault (.function (some name)) _ => .own name
  | byDefault (.class (some name)) _ => .own name
  | byDefault (.interface name) _ => .own name
  | byDefault _ span => .unnamed span
  | star _ source _ _ => .whole source

/-- No export before this one has its public name, and it is not taken for a named export by mistake. -/
structure IsShown (module : Module) (written : WrittenExport) : Prop where
  named : written.publicName?.isSome
  first : module.writtenExports.find? (·.publicName? = written.publicName?) = some written
  asDefault : written.exportName? = some "default" → written.isDefault = true

instance (module : Module) (written : WrittenExport) : Decidable (written.IsShown module) :=
  decidable_of_iff
    (written.publicName?.isSome ∧
      module.writtenExports.find? (·.publicName? = written.publicName?) = some written ∧
      (written.exportName? = some "default" → written.isDefault = true))
    ⟨fun ⟨named, first, asDefault⟩ => ⟨named, first, asDefault⟩,
      fun shown => ⟨shown.named, shown.first, shown.asDefault⟩⟩

/-- The two names of an export differ for the default export only. -/
theorem exportName?_of_publicName? {written : WrittenExport} {name : String}
    (named : written.publicName? = some name) :
    written.exportName? = some (if written.isDefault then "default" else name) := by
  cases written with
  | declared declaration declaredName =>
      obtain rfl := Option.some.inj named
      rfl
  | listed specifier source typeOnly =>
      by_cases toDefault : specifier.exported = "default"
      · simp [exportName?, isDefault, toDefault]
      · rw [publicName?, if_neg toDefault] at named
        obtain rfl := Option.some.inj named
        simp [exportName?, isDefault, toDefault]
  | byDefault value span => rfl
  | star exportedAs source typeOnly span => exact named

end WrittenExport

/-- An entity denotes what is exported under a name: the default export under `default`, and a named export
under any other name. -/
def Entity.Denotes (entity : Entity) (exportName : String) : Prop :=
  if exportName = "default" then entity.isDefaultExport = true
  else entity.isDefaultExport = false ∧ entity.identifier = exportName

instance (entity : Entity) (exportName : String) : Decidable (entity.Denotes exportName) :=
  inferInstanceAs (Decidable (ite _ _ _))

/-- A finding is about a stretch of text. -/
def Diagnostic.IsAt (finding : Diagnostic) (span : Span) : Prop :=
  finding.start = span.start ∧ finding.length = span.stop - span.start

instance (finding : Diagnostic) (span : Span) : Decidable (finding.IsAt span) :=
  inferInstanceAs (Decidable (_ ∧ _))

/-- Something is told of an export: an entity denotes what is exported under its name, or what is exported
under another name of the same binding, or the place of the export is warned about. -/
def WrittenExport.IsToldOf (module : Module) (exports : ModuleExports) (written : WrittenExport)
    (name : String) : Prop :=
  (∃ entity ∈ exports.entities, entity.Denotes name) ∨
  (∃ other ∈ module.writtenExports, other.binding module = written.binding module ∧
    ∃ otherName ∈ other.exportName?, ∃ entity ∈ exports.entities, entity.Denotes otherName) ∨
  ∃ warning ∈ exports.diagnostics, warning.IsAt written.span

instance (module : Module) (exports : ModuleExports) (written : WrittenExport) (name : String) :
    Decidable (written.IsToldOf module exports name) :=
  inferInstanceAs (Decidable (_ ∨ _))

/-! ## What is told of an export -/

namespace ModuleExports

variable {path : Path} {extension source : String} {module : Module}

/-- An entity denotes what the first export of its name is exported as, unless that is a star under the name
`default`. -/
theorem denotes_iff_of_first {entity : Entity} {first : WrittenExport} {exportName : String}
    (named : first.publicName? = some entity.identifier)
    (flag : entity.isDefaultExport = first.isDefault) :
    entity.Denotes exportName ↔
      first.exportName? = some exportName ∧
        (first.exportName? = some "default" → first.isDefault = true) := by
  rw [WrittenExport.exportName?_of_publicName? named, Entity.Denotes, flag]
  cases first.isDefault with
  | true => simp [eq_comm]
  | false =>
      simp only [Bool.false_eq_true, if_false, Option.some.injEq, true_and, imp_false]
      constructor
      · intro denoted
        split at denoted
        case isTrue => cases denoted
        case isFalse other => exact ⟨denoted, denoted ▸ other⟩
      · rintro ⟨rfl, other⟩
        rw [if_neg other]

/-- Some entity denotes what is exported under a name exactly if an export of the name is shown. -/
theorem exists_denotes_iff {exportName : String} :
    (∃ entity ∈ (ofModule path extension source module).entities, entity.Denotes exportName) ↔
      ∃ shown ∈ module.writtenExports, shown.IsShown module ∧
        shown.exportName? = some exportName := by
  constructor
  · rintro ⟨entity, member, denoted⟩
    obtain ⟨first, found, flag, -⟩ := exists_first_of_mem member
    have named : first.publicName? = some entity.identifier := by simpa using List.find?_some found
    rw [denotes_iff_of_first named flag] at denoted
    refine ⟨first, List.mem_of_find?_eq_some found, ⟨?_, ?_, denoted.2⟩, denoted.1⟩
    · rw [named]
      rfl
    · rw [named]
      exact found
  · rintro ⟨shown, listed, ⟨named, leads, asDefault⟩, exported⟩
    obtain ⟨name, named⟩ := Option.isSome_iff_exists.mp named
    obtain ⟨entity, member, rfl⟩ := exists_mem_of_publicName path extension source listed named
    obtain ⟨first, found, flag, -⟩ := exists_first_of_mem member
    rw [named, found] at leads
    obtain rfl := Option.some.inj leads
    exact ⟨entity, member, (denotes_iff_of_first named flag).mpr ⟨exported, asDefault⟩⟩

/-- A place is warned about exactly if an export without a public name stands there. -/
theorem exists_warning_iff {span : Span} :
    (∃ warning ∈ (ofModule path extension source module).diagnostics, warning.IsAt span) ↔
      ∃ nameless ∈ module.writtenExports, nameless.publicName? = none ∧
        nameless.span.start = span.start ∧
        nameless.span.stop - nameless.span.start = span.stop - span.start := by
  simp only [diagnostics_ofModule, List.mem_map, List.mem_filter, Option.isNone_iff_eq_none]
  constructor
  · rintro ⟨_, ⟨nameless, ⟨listed, unnamed⟩, rfl⟩, place⟩
    exact ⟨nameless, listed, unnamed, place⟩
  · rintro ⟨nameless, listed, unnamed, place⟩
    exact ⟨_, ⟨nameless, ⟨listed, unnamed⟩, rfl⟩, place⟩

/-- No exported binding is lost silently, exactly under a condition on what is written. Something is told of
every export that has an export name, if and only if for each of them an export without a public name
stands in its place, or its binding is exported under a name that an export is shown under. -/
theorem no_export_lost_iff {path : Path} {extension source : String} {module : Module}
    (known : Extension.ofPath? path = some extension)
    (code : Extension.isCode extension = true)
    (parses : Module.parse? (Language.ofPath path) source = some module) :
    ∃ exports, ofSource? path source = some exports ∧
      ((∀ written ∈ module.writtenExports, ∀ name, written.exportName? = some name →
          written.IsToldOf module exports name) ↔
        ∀ written ∈ module.writtenExports, written.exportName?.isSome →
          (∃ nameless ∈ module.writtenExports, nameless.publicName? = none ∧
            nameless.span.start = written.span.start ∧
            nameless.span.stop - nameless.span.start = written.span.stop - written.span.start) ∨
          ∃ same ∈ module.writtenExports, same.binding module = written.binding module ∧
            ∃ shown ∈ module.writtenExports, shown.IsShown module ∧
              shown.exportName? = same.exportName?) := by
  refine ⟨_, ofSource?_of_parses known code parses, ?_⟩
  simp only [WrittenExport.IsToldOf, exists_denotes_iff, exists_warning_iff]
  constructor
  · intro told written listed exported
    obtain ⟨name, exported⟩ := Option.isSome_iff_exists.mp exported
    rcases told written listed name exported with ⟨shown, member, isShown, again⟩ |
      ⟨other, member, same, otherName, otherExported, shown, among, isShown, again⟩ | warned
    · exact .inr ⟨written, listed, rfl, shown, member, isShown, again.trans exported.symm⟩
    · exact .inr ⟨other, member, same, shown, among, isShown, again.trans otherExported.symm⟩
    · exact .inl warned
  · intro kept written listed name exported
    rcases kept written listed (by rw [exported]; rfl) with warned |
      ⟨same, member, sameBinding, shown, among, isShown, again⟩
    · exact .inr (.inr warned)
    · obtain ⟨publicName, named⟩ := Option.isSome_iff_exists.mp isShown.named
      have shownName := WrittenExport.exportName?_of_publicName? named
      exact .inr (.inl ⟨same, member, sameBinding, _, again.symm.trans shownName, shown, among, isShown,
        shownName⟩)

/-- The default export shares its public name with an export of the same binding here, and that binding is
exported under a third name too. -/
theorem no_export_lost_of_one_binding :
    ∃ module exports,
      Module.parse? (Language.ofPath ⟨"m.ts"⟩)
        "const a = 1;\nexport \x7b a as b, a \x7d;\nexport default a;" = some module ∧
      ofSource? ⟨"m.ts"⟩ "const a = 1;\nexport \x7b a as b, a \x7d;\nexport default a;" = some exports ∧
      ∀ written ∈ module.writtenExports, ∀ name, written.exportName? = some name →
        written.IsToldOf module exports name := by
  have parses : Module.parse? (Language.ofPath ⟨"m.ts"⟩)
      "const a = 1;\nexport \x7b a as b, a \x7d;\nexport default a;" =
      some ⟨[.declaration (.bindings [.name ⟨"a", ⟨6, 7⟩⟩]),
        .exportList [⟨"a", "b", false, ⟨22, 28⟩⟩, ⟨"a", "a", false, ⟨30, 31⟩⟩] none false,
        .exportDefault (.reference "a") ⟨35, 52⟩], []⟩ := by
    decide +kernel
  have known : Extension.ofPath? ⟨"m.ts"⟩ = some ".ts" := by decide
  obtain ⟨exports, extracted, told⟩ := no_export_lost_iff known (by decide) parses
  exact ⟨_, exports, parses, extracted, told.mpr (by decide)⟩

/-- Here the default export shares its public name with an export of another binding, which is lost. -/
theorem named_export_lost_behind_default :
    ∃ module exports,
      Module.parse? (Language.ofPath ⟨"m.ts"⟩)
        "const a = 1, b = 2;\nexport default a;\nexport \x7b b as a \x7d;" = some module ∧
      ofSource? ⟨"m.ts"⟩ "const a = 1, b = 2;\nexport default a;\nexport \x7b b as a \x7d;" =
        some exports ∧
      ∃ written ∈ module.writtenExports, written.exportName? = some "a" ∧
        ¬ written.IsToldOf module exports "a" := by
  have parses : Module.parse? (Language.ofPath ⟨"m.ts"⟩)
      "const a = 1, b = 2;\nexport default a;\nexport \x7b b as a \x7d;" =
      some ⟨[.declaration (.bindings [.name ⟨"a", ⟨6, 7⟩⟩, .name ⟨"b", ⟨13, 14⟩⟩]),
        .exportDefault (.reference "a") ⟨20, 37⟩,
        .exportList [⟨"b", "a", false, ⟨47, 53⟩⟩] none false], []⟩ := by
    decide +kernel
  have known : Extension.ofPath? ⟨"m.ts"⟩ = some ".ts" := by decide
  refine ⟨_, _, parses, ofSource?_of_parses known (by decide) parses, ?_⟩
  decide

end ModuleExports

end BarrelSynthesis
