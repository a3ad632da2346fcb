/-
# Symbols counted with the one before them

Symbols listed without barrels are those that are defined outside the barrels, in order. Each is listed with
its own references and those to the symbols behind it that are defined in a barrel, up to the next symbol that
is not. A symbol that is defined in a barrel and stands before all others has nothing to be counted with: the
references to it are listed nowhere, and they are the only ones lost.
-/
import BarrelSynthesis.Session.Editing

namespace BarrelSynthesis.Session

variable {session : Session} {symbol : ReferencedSymbol}

/-- Whether a symbol is defined in a virtual barrel. -/
def definedInBarrel (session : Session) (symbol : ReferencedSymbol) : Bool :=
  session.isVirtual symbol.definition.fileName

/-- The references to a symbol that lie in no virtual barrel. -/
def visibleReferences (session : Session) (symbol : ReferencedSymbol) : List DocumentSpan :=
  symbol.references.filter fun reference => !session.isVirtual reference.fileName

/-! ## Adding one symbol -/

theorem addSymbol_nil_of_inside (inside : session.definedInBarrel symbol = true) :
    session.addSymbol [] symbol = [] := if_pos inside

theorem addSymbol_cons_of_inside (inside : session.definedInBarrel symbol = true)
    (previous : ReferencedSymbol) (earlier : List ReferencedSymbol) :
    session.addSymbol (previous :: earlier) symbol =
      ⟨previous.definition, previous.references ++ session.visibleReferences symbol⟩ :: earlier :=
  if_pos inside

theorem addSymbol_of_outside (outside : session.definedInBarrel symbol = false)
    (listed : List ReferencedSymbol) :
    session.addSymbol listed symbol =
      ⟨symbol.definition, session.visibleReferences symbol⟩ :: listed :=
  if_neg (Bool.eq_false_iff.mp outside)

/-! ## Adding them all -/

/-- A symbol defined in a barrel is left out where nothing is listed before it. -/
theorem withoutBarrels_cons_of_inside (inside : session.definedInBarrel symbol = true)
    (behind : List ReferencedSymbol) :
    session.withoutBarrels (symbol :: behind) = session.withoutBarrels behind := by
  rw [withoutBarrels, List.foldl_cons, addSymbol_nil_of_inside inside, withoutBarrels]

/-- Only the symbol listed last is ever changed. -/
theorem foldl_addSymbol_cons (last : ReferencedSymbol) (earlier symbols : List ReferencedSymbol) :
    symbols.foldl session.addSymbol (last :: earlier) =
      symbols.foldl session.addSymbol [last] ++ earlier := by
  induction symbols generalizing last earlier with
  | nil => rfl
  | cons symbol behind ih =>
      rw [List.foldl_cons, List.foldl_cons]
      cases place : session.definedInBarrel symbol with
      | true => rw [addSymbol_cons_of_inside place, addSymbol_cons_of_inside place, ih]
      | false =>
          rw [addSymbol_of_outside place, addSymbol_of_outside place, ih _ (last :: earlier),
            ih _ [last], List.append_assoc, List.singleton_append]

/-- What follows a listed symbol inside the barrels goes to that symbol; the rest is listed as if nothing stood
before it. -/
theorem reverse_foldl_addSymbol (last : ReferencedSymbol) (symbols : List ReferencedSymbol) :
    (symbols.foldl session.addSymbol [last]).reverse =
      ⟨last.definition, last.references ++
        (symbols.takeWhile session.definedInBarrel).flatMap session.visibleReferences⟩ ::
      session.withoutBarrels symbols := by
  induction symbols generalizing last with
  | nil =>
      rw [List.takeWhile_nil, List.flatMap_nil, List.append_nil]
      rfl
  | cons symbol behind ih =>
      rw [List.foldl_cons]
      cases place : session.definedInBarrel symbol with
      | true =>
          rw [addSymbol_cons_of_inside place, ih, withoutBarrels_cons_of_inside place,
            List.takeWhile_cons_of_pos place, List.flatMap_cons, List.append_assoc]
      | false =>
          -- From here on the symbol is the last one, and the one before it is done.
          have onItsOwn : session.withoutBarrels (symbol :: behind) =
              (behind.foldl session.addSymbol
                [⟨symbol.definition, session.visibleReferences symbol⟩]).reverse := by
            rw [withoutBarrels, List.foldl_cons, addSymbol_of_outside place]
          rw [addSymbol_of_outside place, foldl_addSymbol_cons, List.reverse_append, ← onItsOwn,
            List.takeWhile_cons_of_neg (Bool.eq_false_iff.mp place), List.flatMap_nil,
            List.append_nil]
          rfl

/-- A symbol outside the barrels is listed with what follows it inside them. -/
theorem withoutBarrels_cons_of_outside (outside : session.definedInBarrel symbol = false)
    (behind : List ReferencedSymbol) :
    session.withoutBarrels (symbol :: behind) =
      ⟨symbol.definition, session.visibleReferences symbol ++
        (behind.takeWhile session.definedInBarrel).flatMap session.visibleReferences⟩ ::
      session.withoutBarrels behind := by
  rw [withoutBarrels, List.foldl_cons, addSymbol_of_outside outside, reverse_foldl_addSymbol]

/-- The symbols that are listed are those outside the barrels. -/
theorem map_definition_withoutBarrels (symbols : List ReferencedSymbol) :
    (session.withoutBarrels symbols).map (·.definition) =
      (symbols.filter (!session.definedInBarrel ·)).map (·.definition) := by
  induction symbols with
  | nil => rfl
  | cons symbol behind ih =>
      cases place : session.definedInBarrel symbol with
      | true =>
          rw [withoutBarrels_cons_of_inside place, ih, List.filter_cons_of_neg (by simp [place])]
      | false =>
          rw [withoutBarrels_cons_of_outside place, List.filter_cons_of_pos (by simp [place]),
            List.map_cons, List.map_cons, ih]

/-- A symbol is listed behind as many others as stand outside the barrels before it. -/
theorem getElem?_withoutBarrels (before behind : List ReferencedSymbol)
    (outside : session.definedInBarrel symbol = false) :
    (session.withoutBarrels (before ++ symbol :: behind))[
        before.countP (!session.definedInBarrel ·)]? =
      some ⟨symbol.definition, session.visibleReferences symbol ++
        (behind.takeWhile session.definedInBarrel).flatMap session.visibleReferences⟩ := by
  induction before with
  | nil =>
      rw [List.nil_append, withoutBarrels_cons_of_outside outside]
      rfl
  | cons other rest ih =>
      rw [List.cons_append]
      cases place : session.definedInBarrel other with
      | true =>
          rw [withoutBarrels_cons_of_inside place, List.countP_cons_of_neg (by simp [place]), ih]
      | false =>
          rw [withoutBarrels_cons_of_outside place, List.countP_cons_of_pos (by simp [place]),
            List.getElem?_cons_succ, ih]

/-- Whatever the language service answers: the symbols found are those of the answer that are defined
outside the virtual barrels, in order. A symbol is found with the references to it that lie outside the
barrels, and behind them those to the symbols that stand between it and the next symbol outside the
barrels. -/
theorem found_symbols_gather_references (service : LanguageService) (session : Session) (file : Path)
    (position : Nat) :
    let answer := (service.references file position).getD []
    let found := session.findReferences service file position
    found.map (·.definition) =
        (answer.filter (!session.definedInBarrel ·)).map (·.definition) ∧
      ∀ before symbol between behind, answer = before ++ symbol :: (between ++ behind) →
        session.definedInBarrel symbol = false →
        (∀ merged ∈ between, session.definedInBarrel merged = true) →
        (∀ next, behind.head? = some next → session.definedInBarrel next = false) →
          found[before.countP (!session.definedInBarrel ·)]? =
            some ⟨symbol.definition,
              session.visibleReferences symbol ++ between.flatMap session.visibleReferences⟩ := by
  intro answer found
  refine ⟨map_definition_withoutBarrels answer, fun before symbol between behind shape outside
    inside ends => ?_⟩
  have merged : (between ++ behind).takeWhile session.definedInBarrel = between := by
    rw [List.takeWhile_append_of_pos inside]
    cases behind with
    | nil => exact List.append_nil between
    | cons next rest =>
        have stop := Bool.eq_false_iff.mp (ends next rfl)
        rw [List.takeWhile_cons_of_neg stop, List.append_nil]
  have listed := getElem?_withoutBarrels before (between ++ behind) outside
  rw [merged, ← shape] at listed
  exact listed

/-- Two symbols of one barrel are counted with the symbol before them, and the symbol behind them is found
on its own. -/
theorem found_symbol_gathers_two_exports :
    let project : Project := ⟨[⟨"/p/c/a.ts"⟩], [], {}, fun _ => none, fun _ => true, fun _ _ => []⟩
    let session := create project [⟨"/p"⟩]
    let own : DocumentSpan := ⟨⟨"/p/c/a.ts"⟩, 13, 1⟩
    let exported : DocumentSpan := ⟨⟨"/p/c/index.ts"⟩, 9, 1⟩
    let used : DocumentSpan := ⟨⟨"/p/main.ts"⟩, 9, 1⟩
    let other : DocumentSpan := ⟨⟨"/p/other.ts"⟩, 6, 1⟩
    let behind : List ReferencedSymbol := [⟨other, [other]⟩]
    let between : List ReferencedSymbol := [⟨exported, [exported, used]⟩, ⟨exported, [used]⟩]
    let answer := ⟨own, [own, exported]⟩ :: (between ++ behind)
    let service : LanguageService := ⟨fun _ => [], fun _ _ => some answer, fun _ _ => none⟩
    (session.findReferences service ⟨"/p/c/a.ts"⟩ 13).map (·.definition) = [own, other] ∧
      (session.findReferences service ⟨"/p/c/a.ts"⟩ 13)[0]? = some ⟨own, [own, used, used]⟩ := by
  intro project session own exported used other behind between answer service
  have gathers := found_symbols_gather_references service session ⟨"/p/c/a.ts"⟩ 13
  have outside : session.definedInBarrel ⟨own, [own, exported]⟩ = false := by decide
  have inside : ∀ merged ∈ between, session.definedInBarrel merged = true := by decide
  have ends : ∀ next, behind.head? = some next → session.definedInBarrel next = false := by
    intro next first
    obtain rfl := Option.some.inj first
    decide
  refine ⟨gathers.1.trans (by decide), ?_⟩
  exact (gathers.2 [] _ between behind rfl outside inside ends).trans (by decide)

/-! ## What gets lost -/

/-- The references listed are those that lie outside the barrels, from the first symbol outside them on. -/
theorem flatMap_references_withoutBarrels (symbols : List ReferencedSymbol) :
    (session.withoutBarrels symbols).flatMap (·.references) =
      (symbols.dropWhile session.definedInBarrel).flatMap session.visibleReferences := by
  induction symbols with
  | nil => rfl
  | cons symbol behind ih =>
      cases place : session.definedInBarrel symbol with
      | true => rw [withoutBarrels_cons_of_inside place, ih, List.dropWhile_cons_of_pos place]
      | false =>
          rw [withoutBarrels_cons_of_outside place, List.flatMap_cons, ih,
            List.dropWhile_cons_of_neg (Bool.eq_false_iff.mp place), List.flatMap_cons,
            List.append_assoc, ← List.flatMap_append, List.takeWhile_append_dropWhile]

/-- A reference outside the barrels is listed as often as it was answered, but for the symbols that have
nothing to be counted with. -/
theorem count_references_withoutBarrels {reference : DocumentSpan}
    (outside : session.isVirtual reference.fileName = false) (symbols : List ReferencedSymbol) :
    ((symbols.takeWhile session.definedInBarrel).flatMap (·.references)).count reference +
        ((session.withoutBarrels symbols).flatMap (·.references)).count reference =
      (symbols.flatMap (·.references)).count reference := by
  have visible (symbols : List ReferencedSymbol) :
      (symbols.flatMap session.visibleReferences).count reference =
        (symbols.flatMap (·.references)).count reference := by
    have kept := List.count_filter (p := fun reference => !session.isVirtual reference.fileName)
      (l := symbols.flatMap (·.references)) (a := reference) (by simp [outside])
    rw [← kept, List.filter_flatMap]
    rfl
  rw [flatMap_references_withoutBarrels, visible, ← List.count_append, ← List.flatMap_append,
    List.takeWhile_append_dropWhile]

/-- Whatever the language service answers: a reference that lies outside the virtual barrels is found as
often as it is in the answer if and only if it is none to a symbol that is defined in a barrel and stands
before all symbols that are not. -/
theorem reference_is_kept_iff (service : LanguageService) (session : Session) (file : Path)
    (position : Nat) {reference : DocumentSpan}
    (outside : session.isVirtual reference.fileName = false) :
    let answer := (service.references file position).getD []
    let found := session.findReferences service file position
    (found.flatMap (·.references)).count reference =
        (answer.flatMap (·.references)).count reference ↔
      ∀ symbol ∈ answer.takeWhile session.definedInBarrel, reference ∉ symbol.references := by
  intro answer found
  have total : ((answer.takeWhile session.definedInBarrel).flatMap (·.references)).count reference +
      (found.flatMap (·.references)).count reference =
        (answer.flatMap (·.references)).count reference :=
    count_references_withoutBarrels outside answer
  calc (found.flatMap (·.references)).count reference =
        (answer.flatMap (·.references)).count reference
    _ ↔ ((answer.takeWhile session.definedInBarrel).flatMap (·.references)).count reference = 0 := by
      omega
    _ ↔ reference ∉ (answer.takeWhile session.definedInBarrel).flatMap (·.references) :=
      List.count_eq_zero
    _ ↔ ∀ symbol ∈ answer.takeWhile session.definedInBarrel, reference ∉ symbol.references := by
      simp only [List.mem_flatMap, not_exists, not_and]

/-- A reference to an export behind its own symbol is kept, also behind an export without references outside
the barrels. -/
theorem reference_behind_own_symbol_is_kept :
    let project : Project := ⟨[⟨"/p/c/a.ts"⟩], [], {}, fun _ => none, fun _ => true, fun _ _ => []⟩
    let session := create project [⟨"/p"⟩]
    let own : DocumentSpan := ⟨⟨"/p/c/a.ts"⟩, 13, 1⟩
    let exported : DocumentSpan := ⟨⟨"/p/c/index.ts"⟩, 9, 1⟩
    let used : DocumentSpan := ⟨⟨"/p/main.ts"⟩, 9, 1⟩
    let answer : List ReferencedSymbol :=
      [⟨exported, [exported]⟩, ⟨own, [own]⟩, ⟨exported, [exported, used]⟩]
    let service : LanguageService := ⟨fun _ => [], fun _ _ => some answer, fun _ _ => none⟩
    session.isVirtual used.fileName = false ∧
      ((session.findReferences service ⟨"/p/main.ts"⟩ 9).flatMap (·.references)).count used = 1 := by
  intro project session own exported used answer service
  have outside : session.isVirtual used.fileName = false := by decide
  have kept := (reference_is_kept_iff service session ⟨"/p/main.ts"⟩ 9 outside).mpr
    (by decide)
  exact ⟨outside, kept.trans (by decide)⟩

/-- Where the export stands before its own symbol, what refers to it is lost. -/
theorem reference_to_leading_export_is_lost :
    let project : Project :=
      ⟨[⟨"/p/c/a.ts"⟩, ⟨"/p/main.ts"⟩], [], {}, fun _ => none, fun _ => true, fun _ _ => []⟩
    let session := create project [⟨"/p"⟩]
    let own : DocumentSpan := ⟨⟨"/p/c/a.ts"⟩, 13, 1⟩
    let exported : DocumentSpan := ⟨⟨"/p/c/index.ts"⟩, 9, 1⟩
    let used : DocumentSpan := ⟨⟨"/p/main.ts"⟩, 9, 1⟩
    let answer : List ReferencedSymbol := [⟨exported, [used]⟩, ⟨own, [own]⟩]
    let service : LanguageService := ⟨fun _ => [], fun _ _ => some answer, fun _ _ => none⟩
    let found := session.findReferences service ⟨"/p/main.ts"⟩ 9
    session.isVirtual used.fileName = false ∧ (answer.flatMap (·.references)).count used = 1 ∧
      found = [⟨own, [own]⟩] ∧ (found.flatMap (·.references)).count used = 0 := by
  decide +kernel

end BarrelSynthesis.Session
