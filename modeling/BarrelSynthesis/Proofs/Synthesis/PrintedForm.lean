/-
# What the printed text tells

Every printed piece shows where it ends. A quoted text ends at the first quote that no backslash stands
before, a list of names at a brace, and an entry of the list at a comma; names hold none of these. So a
module that is printed from names that are identifiers can be read in one way only, and its text determines its
statements. Nothing but the repetition of a name gets lost: an import entry that takes a name under itself is
printed as one that takes it without a word.
-/
import BarrelSynthesis.Proofs.Barrel.Statements
import BarrelSynthesis.Proofs.Synthesis.PrintedLists

namespace BarrelSynthesis.Synthesis

open Text

/-! ## Names and marks -/

/-- The names, bindings, keys and locals of a statement. -/
def Statement.names : Statement → List String
  | importFrom declaration =>
    declaration.defaultName.toList ++ declaration.named.flatMap ImportEntry.names
  | exportFrom declaration => declaration.entries.flatMap ExportEntry.names
  | namespaceObject object => object.name :: object.properties.flatMap fun (key, value) => [key, value]

/-- The kind that a statement asserts of its module. -/
def Statement.assertion? : Statement → Option String
  | importFrom declaration => declaration.assertion
  | exportFrom declaration => declaration.assertion
  | namespaceObject _ => none

/-- A statement that can be written down as it is: what is not quoted is a name, and the kind it asserts
stands between double quotes. -/
structure Statement.IsPrintable (statement : Statement) : Prop where
  named : ∀ name ∈ statement.names, IsIdentifierName name
  asserted : ∀ kind ∈ statement.assertion?, '"' ∉ kind.toList

instance (statement : Statement) : Decidable statement.IsPrintable :=
  decidable_of_iff ((∀ name ∈ statement.names, IsIdentifierName name) ∧
      ∀ kind ∈ statement.assertion?, '"' ∉ kind.toList)
    ⟨fun ⟨named, asserted⟩ => ⟨named, asserted⟩, fun ⟨named, asserted⟩ => ⟨named, asserted⟩⟩

/-- A statement with plain import entries. -/
def Statement.plain : Statement → Statement
  | importFrom declaration =>
    importFrom { declaration with named := declaration.named.map ImportEntry.plain }
  | exportFrom declaration => exportFrom declaration
  | namespaceObject object => namespaceObject object

/-! ## Declarations -/

/-- No character between quotes is printed as a quote at once. -/
theorem escape_cons_append_ne {quote : Char} (notBackslash : quote ≠ '\\') (c : Char)
    (more behind others : List Char) : escape quote (c :: more) ++ behind ≠ quote :: others := by
  intro same
  rw [escape] at same
  split at same
  · exact notBackslash (List.cons.inj same).1.symm
  · next plain => exact plain (.inl (List.cons.inj same).1)

/-- A text between quotes ends at the first quote without a backslash before it. -/
theorem eq_of_escape_append_quote {quote : Char} (notBackslash : quote ≠ '\\')
    {first second rest others : List Char}
    (same : escape quote first ++ quote :: rest = escape quote second ++ quote :: others) :
    first = second ∧ rest = others := by
  induction first generalizing second with
  | nil =>
      cases second with
      | nil => exact ⟨rfl, (List.cons.inj same).2⟩
      | cons d second => exact absurd same.symm (escape_cons_append_ne notBackslash d second _ rest)
  | cons c first ih =>
      cases second with
      | nil => exact absurd same (escape_cons_append_ne notBackslash c first _ others)
      | cons d second =>
          rw [escape, escape] at same
          split at same
          · split at same
            · obtain ⟨rfl, later⟩ := List.cons.inj (List.cons.inj same).2
              obtain ⟨rfl, rest⟩ := ih later
              exact ⟨rfl, rest⟩
            · next plain => exact absurd (.inr (List.cons.inj same).1.symm) plain
          · next plain =>
              split at same
              · exact absurd (.inr (List.cons.inj same).1) plain
              · obtain ⟨rfl, later⟩ := List.cons.inj same
                obtain ⟨rfl, rest⟩ := ih later
                exact ⟨rfl, rest⟩

theorem toList_quoted (quote : Char) (value : String) :
    (quoted quote value).toList = quote :: (escape quote value.toList ++ [quote]) := by
  rw [quoted, String.toList_ofList, List.cons_append]

/-- How a clause begins that asserts a kind. -/
def assertBegin : List Char :=
  [' ', 'a', 's', 's', 'e', 'r', 't', ' ', '\x7b', ' ', 't', 'y', 'p', 'e', ':', ' ', '"']

/-- What stands behind the module of a declaration. -/
def clauseEnd (assertion : Option String) : List Char :=
  match assertion with
  | some kind => assertBegin ++ (kind.toList ++ ['"', ' ', '\x7d', ';'])
  | none => [';']

/-- A module specifier is printed between quotes, and the clause of its kind and a semicolon stand behind
it. -/
theorem toList_printModuleEnd (quote : Char) (module : String) (assertion : Option String) :
    (printModuleEnd quote module assertion).toList =
      quote :: (escape quote module.toList ++ quote :: clauseEnd assertion) := by
  have clause : (((assertion.map printAssertion).getD "") ++ ";").toList = clauseEnd assertion := by
    cases assertion with
    | none => simp [clauseEnd]
    | some kind =>
        have spelled : printAssertion kind = " assert \x7b type: \"" ++ kind ++ "\" \x7d" := rfl
        simp [spelled, clauseEnd, assertBegin]
  rw [printModuleEnd, String.append_assoc, String.toList_append, clause, toList_quoted,
    List.cons_append, List.append_assoc, List.singleton_append]

/-- A clause shows its kind and where it ends, as no kind holds a quote. -/
theorem eq_of_clauseEnd_append {first second : Option String} {rest others : List Char}
    (clean : ∀ kind ∈ first, '"' ∉ kind.toList) (alsoClean : ∀ kind ∈ second, '"' ∉ kind.toList)
    (same : clauseEnd first ++ rest = clauseEnd second ++ others) :
    first = second ∧ rest = others := by
  cases first with
  | none =>
      cases second with
      | none => exact ⟨rfl, List.append_cancel_left same⟩
      | some kind => simp [clauseEnd, assertBegin] at same
  | some kind =>
      cases second with
      | none => simp [clauseEnd, assertBegin] at same
      | some other =>
          simp only [clauseEnd, List.append_assoc, List.cons_append, List.append_cancel_left_eq] at same
          obtain ⟨kinds, behind⟩ := eq_of_append_mark (clean kind rfl) (alsoClean other rfl) same
          exact ⟨congrArg some (String.toList_inj.mp kinds), by simpa using behind⟩

variable {quote : Char} {rest others : List Char}

/-- A declaration shows its module, its assertion, and where it ends. -/
theorem eq_of_printModuleEnd_append {module other : String} {first second : Option String}
    (notBackslash : quote ≠ '\\') (clean : ∀ kind ∈ first, '"' ∉ kind.toList)
    (alsoClean : ∀ kind ∈ second, '"' ∉ kind.toList)
    (same : (printModuleEnd quote module first).toList ++ rest =
      (printModuleEnd quote other second).toList ++ others) :
    module = other ∧ first = second ∧ rest = others := by
  rw [toList_printModuleEnd, toList_printModuleEnd] at same
  simp only [List.cons_append, List.append_assoc] at same
  obtain ⟨modules, behind⟩ := eq_of_escape_append_quote notBackslash (List.cons.inj same).2
  exact ⟨String.toList_inj.mp modules, eq_of_clauseEnd_append clean alsoClean behind⟩

/-- What stands between the bindings of a declaration and its module. -/
def fromWord : List Char := [' ', 'f', 'r', 'o', 'm', ' ']

/-! ## Exports -/

/-- An export is printed as its list between braces, the word `from`, its module and its end. -/
theorem Export.toList_print (quote : Char) (declaration : Export) :
    (declaration.print quote).toList =
      ['e', 'x', 'p', 'o', 'r', 't', ' '] ++ (braced (declaration.entries.map ExportEntry.words) ++
        (fromWord ++ (printModuleEnd quote declaration.module declaration.assertion).toList)) := by
  have entries : declaration.entries.map (fun entry => entry.print.toList) =
      (declaration.entries.map ExportEntry.words).map spaced := by
    rw [List.map_map]
    exact List.map_congr_left fun entry _ => entry.toList_print
  simp [print, String.toList_intercalate, List.map_map, Function.comp_def, entries, braced, listed,
    fromWord]

/-- A printed export shows itself and where it ends. -/
theorem Export.eq_of_print_append {first second : Export} (notBackslash : quote ≠ '\\')
    (printable : (Statement.exportFrom first).IsPrintable)
    (alsoPrintable : (Statement.exportFrom second).IsPrintable)
    (same : (first.print quote).toList ++ rest = (second.print quote).toList ++ others) :
    first = second ∧ rest = others := by
  simp only [toList_print, List.append_assoc, List.append_cancel_left_eq] at same
  obtain ⟨entries, behind⟩ := eq_of_braced_append (areNamed_export printable.named)
    (areNamed_export alsoPrintable.named) same
  obtain ⟨modules, assertions, behind⟩ := eq_of_printModuleEnd_append notBackslash printable.asserted
    alsoPrintable.asserted (List.append_cancel_left behind)
  refine ⟨?_, behind⟩
  obtain ⟨_, module, assertion⟩ := first
  obtain ⟨_, other, otherAssertion⟩ := second
  obtain rfl : module = other := modules
  obtain rfl : assertion = otherAssertion := assertions
  rw [Export.mk.injEq]
  exact ⟨List.map_injective_iff.mpr (fun _ _ => ExportEntry.eq_of_words_eq) entries, rfl, rfl⟩

/-! ## Imports -/

/-- The characters that module specifiers stand between. -/
def IsQuote (quote : Char) : Prop :=
  quote = '"' ∨ quote = '\''

theorem IsQuote.ne_backslash (isQuote : IsQuote quote) : quote ≠ '\\' := by
  rcases isQuote with rfl | rfl <;> decide

/-- The text of the named bindings of an import, with the comma behind a default binding. -/
def Import.namedText (declaration : Import) : List Char :=
  if declaration.named = [] then []
  else (if declaration.defaultName = none then [] else [',', ' ']) ++
    braced (declaration.named.map ImportEntry.words)

/-- The text of what an import binds. -/
def Import.bindings (declaration : Import) : List Char :=
  (declaration.defaultName.getD "").toList ++ declaration.namedText

/-- What stands between an import's first word and its module. -/
def Import.clauseText (declaration : Import) : List Char :=
  if declaration.isSideEffect then [] else declaration.bindings ++ fromWord

/-- The clause of an import is its default name and the list of its named entries. -/
theorem Import.toList_clause {declaration : Import}
    (plain : ∀ entry ∈ declaration.named, entry.IsPlain) :
    (", ".intercalate declaration.clause).toList = declaration.bindings := by
  obtain ⟨defaultName, named, module, assertion⟩ := declaration
  have entries : (", ".intercalate (named.map ImportEntry.print)).toList =
      listed (named.map ImportEntry.words) := by
    rw [String.toList_intercalate, List.map_map, listed, List.map_map]
    congr 1
    exact List.map_congr_left fun entry inside => (plain entry inside).toList_print
  cases named with
  | nil => cases defaultName <;> simp [clause, bindings, namedText]
  | cons entry rest =>
      cases defaultName <;>
        simpa [clause, bindings, namedText, braced, String.intercalate_cons_cons] using entries

/-- An import is printed as what it binds, the word `from` where it binds anything, its module and its end.
-/
theorem Import.toList_print {declaration : Import}
    (plain : ∀ entry ∈ declaration.named, entry.IsPlain) :
    (declaration.print quote).toList =
      ['i', 'm', 'p', 'o', 'r', 't', ' '] ++ (declaration.clauseText ++
        (printModuleEnd quote declaration.module declaration.assertion).toList) := by
  rw [print, clauseText]
  split
  · simp
  · simp [toList_clause plain, fromWord]

section

variable {first second : Import}

/-- The named entries of a printable import consist of names. -/
theorem Statement.IsPrintable.areNamed (printable : (Statement.importFrom first).IsPrintable) :
    AreNamed (first.named.map ImportEntry.words) :=
  areNamed_import fun name listed => printable.named name (List.mem_append_right _ listed)

/-- The default name of a printable import is a name. -/
theorem Statement.IsPrintable.named_defaultName {name : String}
    (printable : (Statement.importFrom first).IsPrintable) (bound : first.defaultName = some name) :
    IsIdentifierName name :=
  printable.named name (List.mem_append_left _ (by simp [bound]))

/-- What stands behind the default name of an import does not go on with it. -/
theorem Import.head?_namedText (declaration : Import) :
    ∀ c ∈ declaration.namedText.head?, isIdentifierPart c = false := by
  intro c front
  rw [namedText, braced] at front
  split at front
  · cases front
  · split at front <;> obtain rfl := Option.some.inj front <;> decide

/-- A default name, or its absence, is drawn from the characters of names. -/
theorem Import.drawn_defaultName (printable : (Statement.importFrom first).IsPrintable) :
    Drawn [] (first.defaultName.getD "").toList := by
  cases bound : first.defaultName with
  | none => simp [Drawn]
  | some name => exact Drawn.of_name (printable.named_defaultName bound)

/-- Default names are told apart by what is printed of them, since a name is never empty. -/
theorem Import.defaultName_eq (printable : (Statement.importFrom first).IsPrintable)
    (alsoPrintable : (Statement.importFrom second).IsPrintable)
    (same : (first.defaultName.getD "").toList = (second.defaultName.getD "").toList) :
    first.defaultName = second.defaultName := by
  cases bound : first.defaultName with
  | none =>
      cases alsoBound : second.defaultName with
      | none => rfl
      | some name =>
          rw [bound, alsoBound] at same
          exact absurd same.symm (alsoPrintable.named_defaultName alsoBound).toList_ne_nil
  | some name =>
      cases alsoBound : second.defaultName with
      | none =>
          rw [bound, alsoBound] at same
          exact absurd same (printable.named_defaultName bound).toList_ne_nil
      | some other =>
          rw [bound, alsoBound] at same
          exact congrArg some (String.toList_inj.mp same)

/-- What an import binds is told by its text. -/
theorem Import.eq_of_bindings_eq (printable : (Statement.importFrom first).IsPrintable)
    (alsoPrintable : (Statement.importFrom second).IsPrintable)
    (same : first.bindings = second.bindings) :
    first.defaultName = second.defaultName ∧ first.named = second.named := by
  obtain ⟨names, texts⟩ := eq_of_drawn_append (drawn_defaultName printable)
    (drawn_defaultName alsoPrintable) (head?_namedText first) (head?_namedText second) same
  have defaults := defaultName_eq printable alsoPrintable names
  refine ⟨defaults, ?_⟩
  rw [namedText, namedText, defaults] at texts
  by_cases none : first.named = []
  · by_cases alsoNone : second.named = []
    · rw [none, alsoNone]
    · rw [if_pos none, if_neg alsoNone] at texts
      simp [braced] at texts
  · by_cases alsoNone : second.named = []
    · rw [if_neg none, if_pos alsoNone] at texts
      simp [braced] at texts
    · rw [if_neg none, if_neg alsoNone] at texts
      have lists := List.append_cancel_left texts
      rw [← List.append_nil (braced _), ← List.append_nil (braced (second.named.map _))] at lists
      obtain ⟨words, -⟩ := eq_of_braced_append printable.areNamed alsoPrintable.areNamed lists
      exact List.map_injective_iff.mpr (fun _ _ => ImportEntry.eq_of_words_eq) words

/-- An import binds nothing exactly when it has no default name and no named entries. -/
theorem Import.isSideEffect_iff : first.isSideEffect = true ↔
    first.defaultName = none ∧ first.named = [] := by
  simp [isSideEffect]

/-- A clause is drawn from names and the marks of a list. -/
theorem Import.drawn_clauseText (printable : (Statement.importFrom first).IsPrintable) :
    Drawn listMarks first.clauseText := by
  rw [clauseText]
  split
  · exact Drawn.nil
  · have default := (drawn_defaultName printable).mono (List.nil_subset listMarks)
    have named : Drawn listMarks first.namedText := by
      rw [namedText]
      split
      · exact Drawn.nil
      · refine Drawn.append ?_ (drawn_braced printable.areNamed)
        split <;> decide
    exact (default.append named).append (by decide)

/-- What an import binds is told by the text before its module. -/
theorem Import.eq_of_clauseText_eq (printable : (Statement.importFrom first).IsPrintable)
    (alsoPrintable : (Statement.importFrom second).IsPrintable)
    (same : first.clauseText = second.clauseText) :
    first.defaultName = second.defaultName ∧ first.named = second.named := by
  have filled (declaration : Import) : declaration.bindings ++ fromWord ≠ [] := by simp [fromWord]
  rw [clauseText, clauseText] at same
  by_cases bare : first.isSideEffect = true
  · by_cases alsoBare : second.isSideEffect = true
    · obtain ⟨noDefault, noNames⟩ := isSideEffect_iff.mp bare
      obtain ⟨alsoNoDefault, alsoNoNames⟩ := isSideEffect_iff.mp alsoBare
      exact ⟨noDefault.trans alsoNoDefault.symm, noNames.trans alsoNoNames.symm⟩
    · rw [if_pos bare, if_neg alsoBare] at same
      exact absurd same.symm (filled second)
  · by_cases alsoBare : second.isSideEffect = true
    · rw [if_neg bare, if_pos alsoBare] at same
      exact absurd same (filled first)
    · rw [if_neg bare, if_neg alsoBare] at same
      exact eq_of_bindings_eq printable alsoPrintable (List.append_cancel_right same)

/-- An import shows what it binds, its module, its assertion, and where it ends. -/
theorem Import.eq_of_print_append (isQuote : IsQuote quote)
    (plain : ∀ entry ∈ first.named, entry.IsPlain) (alsoPlain : ∀ entry ∈ second.named, entry.IsPlain)
    (printable : (Statement.importFrom first).IsPrintable)
    (alsoPrintable : (Statement.importFrom second).IsPrintable)
    (same : (first.print quote).toList ++ rest = (second.print quote).toList ++ others) :
    first = second ∧ rest = others := by
  have free {text : List Char} (drawn : Drawn listMarks text) : quote ∉ text := by
    rcases isQuote with rfl | rfl <;> exact drawn.notMem (by decide) (by decide)
  rw [toList_print plain, toList_print alsoPlain, List.append_assoc, List.append_assoc,
    List.append_assoc, List.append_assoc] at same
  have behind := List.append_cancel_left same
  rw [toList_printModuleEnd, toList_printModuleEnd] at behind
  obtain ⟨clauses, modules⟩ := eq_of_append_mark (free (drawn_clauseText printable))
    (free (drawn_clauseText alsoPrintable)) behind
  obtain ⟨defaults, names⟩ := eq_of_clauseText_eq printable alsoPrintable clauses
  have ends : (printModuleEnd quote first.module first.assertion).toList ++ rest =
      (printModuleEnd quote second.module second.assertion).toList ++ others := by
    rw [toList_printModuleEnd, toList_printModuleEnd]
    exact congrArg (quote :: ·) modules
  obtain ⟨modules, assertions, behind⟩ := eq_of_printModuleEnd_append isQuote.ne_backslash
    printable.asserted alsoPrintable.asserted ends
  refine ⟨?_, behind⟩
  obtain ⟨defaultName, named, module, assertion⟩ := first
  obtain ⟨otherName, otherNamed, other, otherAssertion⟩ := second
  rw [Import.mk.injEq]
  exact ⟨defaults, names, modules, assertions⟩

end

/-! ## Objects of local bindings -/

/-- The line of a property. -/
def propertyLine (property : String × String) : List Char :=
  [' ', ' ', ' ', ' '] ++ (property.1.toList ++ ':' :: ' ' :: property.2.toList)

/-- What stands between the braces of an object. -/
def NamespaceObject.body (object : NamespaceObject) : List Char :=
  if object.properties = [] then []
  else '\n' :: ([',', '\n'].intercalate (object.properties.map propertyLine) ++ ['\n'])

/-- A namespace object is printed as a constant with its properties between braces. -/
theorem NamespaceObject.toList_print (object : NamespaceObject) :
    object.print.toList =
      ['c', 'o', 'n', 's', 't', ' '] ++ (object.name.toList ++ ' ' :: '=' :: ' ' :: '\x7b' ::
        (object.body ++ ['\x7d', ';'])) := by
  have lines : (object.properties.map fun (key, value) => "    " ++ key ++ ": " ++ value).map
      String.toList = object.properties.map propertyLine := by
    rw [List.map_map]
    exact List.map_congr_left fun ⟨key, value⟩ _ => by simp [propertyLine]
  rw [print, body]
  by_cases bare : object.properties = []
  · simp [bare]
  · rw [if_neg (by simpa using bare), if_neg bare]
    simp only [String.toList_append, String.toList_intercalate, lines]
    generalize object.properties.map propertyLine = parts
    have separator : ",\n".toList = [',', '\n'] := by simp
    rw [separator]
    generalize [',', '\n'].intercalate parts = text
    simp

/-- A line of a property shows the property and the name of its value. -/
theorem eq_of_propertyLine_eq {first second : String × String}
    (isName : IsIdentifierName first.1) (alsoIsName : IsIdentifierName second.1)
    (same : propertyLine first = propertyLine second) : first = second := by
  have free {name : String} (isName : IsIdentifierName name) : ':' ∉ name.toList :=
    (Drawn.of_name isName).notMem (by decide) List.not_mem_nil
  obtain ⟨keys, values⟩ :=
    eq_of_append_mark (free isName) (free alsoIsName) (List.append_cancel_left same)
  exact Prod.ext (String.toList_inj.mp keys) (String.toList_inj.mp (List.cons.inj values).2)

section

variable {first second : NamespaceObject}

/-- The properties of a printable object and their values are names. -/
theorem Statement.IsPrintable.named_property {property : String × String}
    (printable : (Statement.namespaceObject first).IsPrintable)
    (member : property ∈ first.properties) :
    IsIdentifierName property.1 ∧ IsIdentifierName property.2 := by
  have inside : ∀ name ∈ [property.1, property.2], IsIdentifierName name := fun name listed =>
    printable.named name (List.mem_cons_of_mem _ (List.mem_flatMap.mpr ⟨property, member, listed⟩))
  exact ⟨inside _ List.mem_cons_self, inside _ (List.mem_cons_of_mem _ List.mem_cons_self)⟩

/-- The characters of a property besides those of its names. -/
def lineMarks : List Char := [' ', ':']

/-- The line of a property is drawn from names, blanks and a colon. -/
theorem Statement.IsPrintable.drawn_propertyLine {property : String × String}
    (printable : (Statement.namespaceObject first).IsPrintable)
    (member : property ∈ first.properties) : Drawn lineMarks (propertyLine property) := by
  obtain ⟨key, value⟩ := printable.named_property member
  have nameOf {name : String} (isName : IsIdentifierName name) : Drawn lineMarks name.toList :=
    (Drawn.of_name isName).mono (List.nil_subset _)
  have indent : Drawn lineMarks [' ', ' ', ' ', ' '] := by decide
  have between : Drawn lineMarks [':', ' '] := by decide
  exact indent.append ((nameOf key).append (between.append (nameOf value)))

/-- The inside of an object is drawn from names and the marks between them, and holds no brace. -/
theorem NamespaceObject.drawn_body (printable : (Statement.namespaceObject first).IsPrintable) :
    Drawn [',', '\n', ' ', ':'] first.body := by
  rw [body]
  split
  · exact Drawn.nil
  · have lines : Drawn [',', '\n', ' ', ':']
        ([',', '\n'].intercalate (first.properties.map propertyLine)) := by
      refine Drawn.intercalate (by decide) fun part listed => ?_
      obtain ⟨property, member, rfl⟩ := List.mem_map.mp listed
      exact (printable.drawn_propertyLine member).mono (by decide)
    have opening : Drawn [',', '\n', ' ', ':'] ['\n'] := by decide
    exact opening.append (lines.append opening)

/-- The inside of an object shows its properties. -/
theorem NamespaceObject.properties_eq (printable : (Statement.namespaceObject first).IsPrintable)
    (alsoPrintable : (Statement.namespaceObject second).IsPrintable)
    (same : first.body = second.body) : first.properties = second.properties := by
  have free {object : NamespaceObject} (printable : (Statement.namespaceObject object).IsPrintable) :
      ∀ part ∈ object.properties.map propertyLine, part ≠ [] ∧ ',' ∉ part := by
    intro part listed
    obtain ⟨property, member, rfl⟩ := List.mem_map.mp listed
    exact ⟨by simp [propertyLine],
      (printable.drawn_propertyLine member).notMem (by decide) (by decide)⟩
  rw [body, body] at same
  by_cases bare : first.properties = []
  · by_cases alsoBare : second.properties = []
    · rw [bare, alsoBare]
    · rw [if_pos bare, if_neg alsoBare] at same
      cases same
  · by_cases alsoBare : second.properties = []
    · rw [if_neg bare, if_pos alsoBare] at same
      cases same
    · rw [if_neg bare, if_neg alsoBare] at same
      have lines := intercalate_injective (free printable) (free alsoPrintable)
        (List.append_cancel_right (List.cons.inj same).2)
      refine eq_of_map_eq (fun property member other also => ?_) lines
      exact eq_of_propertyLine_eq (printable.named_property member).1
        (alsoPrintable.named_property also).1

/-- An object shows its name, its properties, and where it ends. -/
theorem NamespaceObject.eq_of_print_append
    (printable : (Statement.namespaceObject first).IsPrintable)
    (alsoPrintable : (Statement.namespaceObject second).IsPrintable)
    (same : first.print.toList ++ rest = second.print.toList ++ others) :
    first = second ∧ rest = others := by
  have nameFree {object : NamespaceObject}
      (printable : (Statement.namespaceObject object).IsPrintable) : ' ' ∉ object.name.toList :=
    (Drawn.of_name (printable.named object.name List.mem_cons_self)).notMem (by decide)
      List.not_mem_nil
  have bodyFree {object : NamespaceObject}
      (printable : (Statement.namespaceObject object).IsPrintable) : '\x7d' ∉ object.body :=
    (drawn_body printable).notMem (by decide) (by decide)
  simp only [toList_print, List.append_assoc, List.cons_append, List.nil_append, List.cons.injEq,
    true_and] at same
  obtain ⟨names, behind⟩ := eq_of_append_mark (nameFree printable) (nameFree alsoPrintable) same
  simp only [List.cons.injEq, true_and] at behind
  obtain ⟨bodies, behind⟩ := eq_of_append_mark (bodyFree printable) (bodyFree alsoPrintable) behind
  have properties := properties_eq printable alsoPrintable bodies
  refine ⟨?_, (List.cons.inj behind).2⟩
  obtain ⟨name, _⟩ := first
  obtain ⟨other, _⟩ := second
  rw [NamespaceObject.mk.injEq]
  exact ⟨String.toList_inj.mp names, properties⟩

end

/-! ## Statements and modules -/

namespace Statement

variable {first second : Statement}

/-- A statement in whose import no entry repeats its name. -/
def IsPlain : Statement → Prop
  | importFrom declaration => ∀ entry ∈ declaration.named, entry.IsPlain
  | exportFrom _ => True
  | namespaceObject _ => True

/-- A statement without repeated names is one that repeats none. -/
theorem isPlain_plain (statement : Statement) : statement.plain.IsPlain := by
  cases statement with
  | importFrom declaration =>
      intro entry listed
      obtain ⟨source, -, rfl⟩ := List.mem_map.mp listed
      exact source.isPlain_plain
  | exportFrom declaration => trivial
  | namespaceObject object => trivial

/-- Names that are repeated do not show in what is printed. -/
theorem print_plain (quote : Char) (statement : Statement) :
    statement.plain.print quote = statement.print quote := by
  cases statement with
  | importFrom declaration =>
      have entries : (declaration.named.map ImportEntry.plain).map ImportEntry.print =
          declaration.named.map ImportEntry.print := by
        rw [List.map_map]
        exact List.map_congr_left fun entry _ => entry.print_plain
      simp only [plain, print, Import.print, Import.clause, Import.isSideEffect, List.isEmpty_map,
        entries]
      rfl
  | exportFrom declaration => rfl
  | namespaceObject object => rfl

/-- A statement that is printable stays so without its repeated names. -/
theorem IsPrintable.plain (printable : first.IsPrintable) : first.plain.IsPrintable := by
  cases first with
  | importFrom declaration =>
      refine ⟨fun name listed => printable.named name ?_, printable.asserted⟩
      rcases List.mem_append.mp listed with default | listed
      · exact List.mem_append_left _ default
      · obtain ⟨_, member, inside⟩ := List.mem_flatMap.mp listed
        obtain ⟨entry, source, rfl⟩ := List.mem_map.mp member
        exact List.mem_append_right _ (List.mem_flatMap.mpr
          ⟨entry, source, ImportEntry.mem_names_of_mem_names_plain inside⟩)
  | exportFrom declaration => exact printable
  | namespaceObject object => exact printable

/-- The first character of a statement, which tells its kind. -/
def initial : Statement → Char
  | importFrom _ => 'i'
  | exportFrom _ => 'e'
  | namespaceObject _ => 'c'

theorem exists_toList_print (quote : Char) (statement : Statement) :
    ∃ behind, (statement.print quote).toList = statement.initial :: behind := by
  cases statement with
  | importFrom declaration =>
      rw [← print_plain]
      exact ⟨_, Import.toList_print (isPlain_plain (importFrom declaration))⟩
  | exportFrom declaration => exact ⟨_, declaration.toList_print quote⟩
  | namespaceObject object => exact ⟨_, object.toList_print⟩

/-- Plain statements show where they end. -/
theorem eq_of_print_append (isQuote : IsQuote quote) (plain : first.IsPlain)
    (alsoPlain : second.IsPlain) (printable : first.IsPrintable) (alsoPrintable : second.IsPrintable)
    (same : (first.print quote).toList ++ rest = (second.print quote).toList ++ others) :
    first = second ∧ rest = others := by
  obtain ⟨_, begins⟩ := exists_toList_print quote first
  obtain ⟨_, alsoBegins⟩ := exists_toList_print quote second
  have kinds := same
  rw [begins, alsoBegins, List.cons_append, List.cons_append] at kinds
  replace kinds : first.initial = second.initial := (List.cons.inj kinds).1
  cases first with
  | importFrom declaration =>
      cases second with
      | importFrom other =>
          obtain ⟨rfl, behind⟩ := Import.eq_of_print_append isQuote plain alsoPlain printable
            alsoPrintable same
          exact ⟨rfl, behind⟩
      | exportFrom other => simp [initial] at kinds
      | namespaceObject other => simp [initial] at kinds
  | exportFrom declaration =>
      cases second with
      | importFrom other => simp [initial] at kinds
      | exportFrom other =>
          obtain ⟨rfl, behind⟩ := Export.eq_of_print_append isQuote.ne_backslash printable
            alsoPrintable same
          exact ⟨rfl, behind⟩
      | namespaceObject other => simp [initial] at kinds
  | namespaceObject object =>
      cases second with
      | importFrom other => simp [initial] at kinds
      | exportFrom other => simp [initial] at kinds
      | namespaceObject other =>
          obtain ⟨rfl, behind⟩ := NamespaceObject.eq_of_print_append printable alsoPrintable same
          exact ⟨rfl, behind⟩

/-- Two printable statements are printed alike exactly when they are the same up to repeated names. -/
theorem plain_eq_iff (isQuote : IsQuote quote) (printable : first.IsPrintable)
    (alsoPrintable : second.IsPrintable) :
    first.print quote = second.print quote ↔ first.plain = second.plain := by
  rw [← print_plain quote first, ← print_plain quote second]
  refine ⟨fun same => ?_, fun same => by rw [same]⟩
  have ends : (first.plain.print quote).toList ++ [] = (second.plain.print quote).toList ++ [] := by
    rw [same]
  exact (eq_of_print_append isQuote first.isPlain_plain second.isPlain_plain printable.plain
    alsoPrintable.plain ends).1

end Statement

/-- The text of statements, one on each line. -/
def linesText (statements : List Statement) : List Char :=
  statements.flatMap fun statement => (statement.print '"').toList ++ ['\n']

/-- A module that holds statements is printed as their lines. -/
theorem toList_printModule {statements : List Statement} (filled : statements ≠ []) :
    (printModule statements).toList = linesText statements := by
  rw [printModule, if_neg (by simpa using filled), String.toList_join, List.flatMap_map, linesText]
  exact List.flatMap_congr fun statement _ => by simp

/-- Repeated names do not show in the lines of a module. -/
theorem linesText_plain (statements : List Statement) :
    linesText (statements.map Statement.plain) = linesText statements := by
  rw [linesText, List.flatMap_map, linesText]
  simp only [Statement.print_plain]

theorem printModule_plain (statements : List Statement) :
    printModule (statements.map Statement.plain) = printModule statements := by
  by_cases none : statements = []
  · subst none
    rfl
  · rw [← String.toList_inj, toList_printModule none, toList_printModule (by simpa using none),
      linesText_plain]

/-- The lines of a module show its statements, one after the other. -/
theorem eq_of_linesText_eq {first second : List Statement}
    (plain : ∀ statement ∈ first, statement.IsPlain) (alsoPlain : ∀ statement ∈ second, statement.IsPlain)
    (printable : ∀ statement ∈ first, statement.IsPrintable)
    (alsoPrintable : ∀ statement ∈ second, statement.IsPrintable)
    (same : linesText first = linesText second) : first = second := by
  induction first generalizing second with
  | nil =>
      cases second with
      | nil => rfl
      | cons statement rest => simp [linesText] at same
  | cons statement rest ih =>
      cases second with
      | nil => simp [linesText] at same
      | cons other others =>
          obtain ⟨plainHere, plainLater⟩ := List.forall_mem_cons.mp plain
          obtain ⟨alsoPlainHere, alsoPlainLater⟩ := List.forall_mem_cons.mp alsoPlain
          obtain ⟨here, later⟩ := List.forall_mem_cons.mp printable
          obtain ⟨alsoHere, alsoLater⟩ := List.forall_mem_cons.mp alsoPrintable
          simp only [linesText, List.flatMap_cons, List.append_assoc] at same
          obtain ⟨rfl, behind⟩ := Statement.eq_of_print_append (.inl rfl) plainHere alsoPlainHere here
            alsoHere same
          rw [ih plainLater alsoPlainLater later alsoLater (List.append_cancel_left behind)]

/-- A printed module tells its statements: two lists of statements whose names are identifier names are printed
alike exactly when they are equal up to import entries that repeat their name. The same holds for a statement
on its own, in either quotes. -/
theorem printModule_tells_statements (first second : List Statement)
    (printable : ∀ statement ∈ first, statement.IsPrintable)
    (alsoPrintable : ∀ statement ∈ second, statement.IsPrintable) :
    (printModule first = printModule second ↔
        first.map Statement.plain = second.map Statement.plain) ∧
      ∀ quote, IsQuote quote → ∀ one ∈ first, ∀ other ∈ second,
        (one.print quote = other.print quote ↔ one.plain = other.plain) := by
  refine ⟨⟨fun same => ?_, fun same => ?_⟩, fun quote isQuote one listed other also =>
    Statement.plain_eq_iff isQuote (printable one listed) (alsoPrintable other also)⟩
  · by_cases none : first = []
    · subst none
      rw [printModule_eq_emptyModule_iff.mp same.symm]
    · by_cases alsoNone : second = []
      · subst alsoNone
        exact absurd (printModule_eq_emptyModule_iff.mp same) none
      · have lines := congrArg String.toList same
        rw [toList_printModule none, toList_printModule alsoNone, ← linesText_plain first,
          ← linesText_plain second] at lines
        exact eq_of_linesText_eq (List.forall_mem_map.mpr fun statement _ => statement.isPlain_plain)
          (List.forall_mem_map.mpr fun statement _ => statement.isPlain_plain)
          (List.forall_mem_map.mpr fun statement listed => (printable statement listed).plain)
          (List.forall_mem_map.mpr fun statement listed => (alsoPrintable statement listed).plain)
          lines
  · rw [← printModule_plain first, ← printModule_plain second, same]

/-- An import whose entries are called like keywords, of a module whose specifier holds quotes, a backslash
and a line break. Marking the entry `as` as a type and taking `type` under the name `as` are told apart;
repeating a name is not. -/
theorem printModule_tells_entries_named_like_keywords :
    let importOf (entry : ImportEntry) : List Statement :=
      [.importFrom ⟨some "type", [entry], "./a\"b\\'\n", some "json"⟩, .namespaceObject ⟨"n", []⟩]
    let marked := importOf ⟨true, none, "as"⟩
    let repeated := importOf ⟨true, some "as", "as"⟩
    let renamed := importOf ⟨false, some "type", "as"⟩
    (∀ statement ∈ marked ++ repeated ++ renamed, statement.IsPrintable) ∧ marked ≠ repeated ∧
      printModule marked = printModule repeated ∧ printModule marked ≠ printModule renamed := by
  intro importOf marked repeated renamed
  have printable : ∀ statement ∈ marked ++ repeated ++ renamed, statement.IsPrintable := by decide
  obtain ⟨first, others⟩ := List.forall_mem_append.mp printable
  obtain ⟨first, second⟩ := List.forall_mem_append.mp first
  refine ⟨printable, by decide, ?_, ?_⟩
  · exact (printModule_tells_statements marked repeated first second).1.mpr (by decide)
  · exact mt (printModule_tells_statements marked renamed first others).1.mp (by decide)

end BarrelSynthesis.Synthesis
