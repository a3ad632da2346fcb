/-
# Parsed modules

What is kept of a module's text: its top-level statements as far as they import, export or declare
something, and every reference to another module, wherever it stands. Offsets count the bytes of the
UTF-8 text.
-/

namespace BarrelSynthesis.Source

/-- A stretch of text, from the offset of its first byte to the offset behind its last. -/
structure Span where
  start : Nat
  stop : Nat
  deriving Repr, DecidableEq, Inhabited

/-- A name together with the place where it stands. -/
structure Name where
  text : String
  span : Span
  deriving Repr, DecidableEq, Inhabited

/-- What stands on the left of a declaration's `=`: one name, or a pattern of them. -/
inductive BindingPattern
  | name (name : Name)
  | object (properties : List BindingPattern) (rest : Option BindingPattern)
  | array (elements : List (Option BindingPattern)) (rest : Option BindingPattern)
  | withDefault (target : BindingPattern)
  deriving Repr, Inhabited

-- Equality cannot be derived for a type that is nested in lists of itself, so it is decided by hand, with
-- a companion for each kind of list.
mutual

/-- Whether two patterns are equal. -/
def BindingPattern.decEq : (first second : BindingPattern) → Decidable (first = second)
  | .name one, second =>
    match second with
    | .name other => decidable_of_iff (one = other) (by rw [BindingPattern.name.injEq])
    | .object _ _ | .array _ _ | .withDefault _ => isFalse nofun
  | .object properties rest, second =>
    match second with
    | .object others otherRest =>
      have := decEqPatterns properties others
      have := decEqRest rest otherRest
      decidable_of_iff (properties = others ∧ rest = otherRest) (by rw [BindingPattern.object.injEq])
    | .name _ | .array _ _ | .withDefault _ => isFalse nofun
  | .array elements rest, second =>
    match second with
    | .array others otherRest =>
      have := decEqElements elements others
      have := decEqRest rest otherRest
      decidable_of_iff (elements = others ∧ rest = otherRest) (by rw [BindingPattern.array.injEq])
    | .name _ | .object _ _ | .withDefault _ => isFalse nofun
  | .withDefault target, second =>
    match second with
    | .withDefault other =>
      have := target.decEq other
      decidable_of_iff (target = other) (by rw [BindingPattern.withDefault.injEq])
    | .name _ | .object _ _ | .array _ _ => isFalse nofun

/-- Decides whether two lists of properties are alike, pattern by pattern. -/
def decEqPatterns : (first second : List BindingPattern) → Decidable (first = second)
  | [], [] => isTrue rfl
  | [], _ :: _ => isFalse nofun
  | _ :: _, [] => isFalse nofun
  | pattern :: rest, other :: others =>
    have := pattern.decEq other
    have := decEqPatterns rest others
    decidable_of_iff (pattern = other ∧ rest = others) (by rw [List.cons.injEq])

/-- Decides whether two lists of elements are alike, holes included. -/
def decEqElements : (first second : List (Option BindingPattern)) → Decidable (first = second)
  | [], [] => isTrue rfl
  | [], _ :: _ => isFalse nofun
  | _ :: _, [] => isFalse nofun
  | element :: rest, other :: others =>
    have := decEqRest element other
    have := decEqElements rest others
    decidable_of_iff (element = other ∧ rest = others) (by rw [List.cons.injEq])

/-- Decides whether two elements or rest patterns are alike, where there may be none. -/
def decEqRest : (first second : Option BindingPattern) → Decidable (first = second)
  | none, none => isTrue rfl
  | none, some _ => isFalse nofun
  | some _, none => isFalse nofun
  | some pattern, some other =>
    have := pattern.decEq other
    decidable_of_iff (pattern = other) (by rw [Option.some.injEq])

end

instance : DecidableEq BindingPattern := BindingPattern.decEq

/-- A declaration that can introduce names into a module. -/
inductive Declaration
  | bindings (patterns : List BindingPattern)
  | function (name : Option String) (span : Span)
  | class (name : Option String) (span : Span)
  | interface (name : String) (span : Span)
  | typeAlias (name : String) (span : Span)
  | enumeration (name : String) (span : Span)
  | namespace (name : Option String) (span : Span)
  | importAlias (name : String) (typeOnly : Bool) (span : Span)
  deriving Repr, DecidableEq, Inhabited

/-- One binding of an import declaration. -/
inductive ImportBinding
  | default (localName : String)
  | whole (localName : String)
  | named (imported : String) (localName : String) (typeOnly : Bool)
  deriving Repr, DecidableEq

/-- An import declaration. Without a clause (`import "m"`) there are no bindings at all, which
differs from an empty clause. -/
structure ImportDeclaration where
  bindings : Option (List ImportBinding)
  specifier : String
  /-- The character that opens the module specifier. -/
  quote : Char
  typeOnly : Bool
  span : Span
  deriving Repr, DecidableEq

/-- One entry of an export list. -/
structure ExportSpecifier where
  localName : String
  exported : String
  typeOnly : Bool
  span : Span
  deriving Repr, DecidableEq

/-- What a module exports by default. -/
inductive DefaultExport
  | function (name : Option String)
  | class (name : Option String)
  | interface (name : String)
  | reference (name : String)
  | expression
  deriving Repr, DecidableEq

/-- A top-level statement, as far as it imports, exports or declares something. -/
inductive Statement
  | importDeclaration (declaration : ImportDeclaration)
  | exportDeclaration (declaration : Declaration)
  /-- An export list, with the specifier of the module it names from, if it does. -/
  | exportList (specifiers : List ExportSpecifier) (source : Option String) (typeOnly : Bool)
  | exportDefault (value : DefaultExport) (span : Span)
  | exportAll (exportedAs : Option String) (source : String) (typeOnly : Bool) (span : Span)
  | exportAssignment
  | exportAsNamespace
  | declaration (declaration : Declaration)
  | other
  deriving Repr, DecidableEq, Inhabited

/-- A call `require("m")` with a string literal as its only argument. -/
structure RequireCall where
  specifier : String
  /-- The character that opens the module specifier. -/
  quote : Char
  span : Span
  deriving Repr, DecidableEq

/-- A reference to another module. -/
inductive Reference
  | importDeclaration (declaration : ImportDeclaration)
  | requireCall (call : RequireCall)
  /-- An export of what another module exports, `export … from "m"`. -/
  | exportFrom (specifier : String) (span : Span)
  /-- A dynamic import of a constant specifier. -/
  | dynamicImport (specifier : String) (span : Span)
  /-- A call of `require` with a constant specifier in another form than `require("m")`. -/
  | looseRequire (specifier : String) (span : Span)
  deriving Repr, DecidableEq

namespace Reference

/-- The stretch of text that a reference takes. -/
def span : Reference → Span
  | importDeclaration declaration => declaration.span
  | requireCall call => call.span
  | exportFrom _ span => span
  | dynamicImport _ span => span
  | looseRequire _ span => span

/-- The specifier by which a reference names its module. -/
def specifier : Reference → String
  | importDeclaration declaration => declaration.specifier
  | requireCall call => call.specifier
  | exportFrom specifier _ => specifier
  | dynamicImport specifier _ => specifier
  | looseRequire specifier _ => specifier

end Reference

/-- A parsed module. -/
structure Module where
  statements : List Statement
  /-- The references to other modules at any depth, in the order in which they stand. -/
  references : List Reference
  deriving Repr, DecidableEq, Inhabited

end BarrelSynthesis.Source
