/-
# References and renames beside barrels

What refers to a symbol is listed without anything that lies in a virtual barrel: references there are left
out, and a symbol that is defined there is counted with the one before it. The places that a rename changes
are taken from that list when the barrel of the asking file's folder is virtual. Otherwise they are what the
language service answers, and may lie in the barrel of another folder.
-/
import BarrelSynthesis.Proofs.Session.Grouping

namespace BarrelSynthesis

/-- Neither the definition of a symbol nor a reference to it lies in a virtual barrel. -/
structure ReferencedSymbol.AvoidsBarrels (session : Session) (symbol : ReferencedSymbol) : Prop where
  definition : session.isVirtual symbol.definition.fileName = false
  references : ∀ reference ∈ symbol.references, session.isVirtual reference.fileName = false

namespace Session

variable {session : Session}

/-- The references that are visible lie in no virtual barrel. -/
theorem isVirtual_of_mem_visibleReferences {symbol : ReferencedSymbol} {reference : DocumentSpan}
    (member : reference ∈ session.visibleReferences symbol) :
    session.isVirtual reference.fileName = false := by
  simpa using (List.mem_filter.mp member).2

/-- What is left of an answer has nothing to do with virtual barrels. -/
theorem avoidsBarrels_of_mem_withoutBarrels {symbols : List ReferencedSymbol}
    {symbol : ReferencedSymbol} (member : symbol ∈ session.withoutBarrels symbols) :
    symbol.AvoidsBarrels session := by
  induction symbols with
  | nil => cases member
  | cons first behind ih =>
      cases place : session.definedInBarrel first with
      | true =>
          rw [withoutBarrels_cons_of_inside place] at member
          exact ih member
      | false =>
          rw [withoutBarrels_cons_of_outside place] at member
          rcases List.mem_cons.mp member with rfl | later
          · refine ⟨place, fun reference listed => ?_⟩
            rcases List.mem_append.mp listed with own | merged
            · exact isVirtual_of_mem_visibleReferences own
            · obtain ⟨other, -, counted⟩ := List.mem_flatMap.mp merged
              exact isVirtual_of_mem_visibleReferences counted
          · exact ih later

/-- Whatever the language service answers: nothing that is listed as a symbol or a reference to one lies in
a virtual barrel. No place that a rename changes does either, if the barrel of the folder that it is
started from is virtual; otherwise these places are the answer of the language service. -/
theorem rename_avoids_barrels_beside_file (service : LanguageService) (session : Session) (file : Path)
    (position : Nat) :
    (∀ symbol ∈ session.findReferences service file position, symbol.AvoidsBarrels session) ∧
      (session.feedsVirtualBarrel file = true →
        ∀ locations, session.findRenameLocations service file position = some locations →
          ∀ location ∈ locations, session.isVirtual location.fileName = false) ∧
      (session.feedsVirtualBarrel file = false →
        session.findRenameLocations service file position =
          service.renameLocations file position) := by
  have avoid : ∀ symbol ∈ session.findReferences service file position,
      symbol.AvoidsBarrels session := fun _ member => avoidsBarrels_of_mem_withoutBarrels member
  refine ⟨avoid, fun feeds locations answered location member => ?_, fun apart => ?_⟩
  · rw [findRenameLocations, Option.map_eq_some_iff] at answered
    obtain ⟨found, -, rfl⟩ := answered
    rw [if_pos feeds] at member
    obtain ⟨symbol, listed, reference⟩ := List.mem_flatMap.mp member
    exact (avoid symbol listed).references location reference
  · rw [findRenameLocations]
    simp only [apart, Bool.false_eq_true, if_false]
    exact congrFun Option.map_id _

/-- A rename in a file that feeds a virtual barrel leaves the barrel alone. -/
theorem rename_of_feeding_file_avoids_barrel :
    let project : Project := ⟨[⟨"/p/c/a.ts"⟩], [], {}, fun _ => none, fun _ => true, fun _ _ => []⟩
    let session := create project [⟨"/p"⟩]
    let own : DocumentSpan := ⟨⟨"/p/c/a.ts"⟩, 13, 1⟩
    let exported : DocumentSpan := ⟨⟨"/p/c/index.ts"⟩, 9, 1⟩
    let used : DocumentSpan := ⟨⟨"/p/main.ts"⟩, 9, 1⟩
    let service : LanguageService :=
      ⟨fun _ => [], fun _ _ => some [⟨own, [own, exported]⟩, ⟨exported, [exported, used]⟩],
        fun _ _ => some [own, exported, used]⟩
    session.isVirtual ⟨"/p/c/index.ts"⟩ = true ∧ session.feedsVirtualBarrel ⟨"/p/c/a.ts"⟩ = true ∧
      session.findRenameLocations service ⟨"/p/c/a.ts"⟩ 13 = some [own, used] ∧
      ∀ location ∈ [own, used], session.isVirtual location.fileName = false := by
  intro project session own exported used service
  have feeds : session.feedsVirtualBarrel ⟨"/p/c/a.ts"⟩ = true := by decide +kernel
  have answered : session.findRenameLocations service ⟨"/p/c/a.ts"⟩ 13 = some [own, used] := by
    decide +kernel
  have avoids := (rename_avoids_barrels_beside_file service session ⟨"/p/c/a.ts"⟩ 13).2.1
  exact ⟨by decide +kernel, feeds, answered, avoids feeds _ answered⟩

/-- A rename in a folder with an aggregator of its own changes the barrel of another folder, if the language
service says so. -/
theorem rename_beside_aggregator_changes_barrel :
    let project : Project :=
      ⟨[⟨"/p/index.ts"⟩, ⟨"/p/c/a.ts"⟩], [], {}, fun _ => none, fun _ => true, fun _ _ => []⟩
    let session := create project [⟨"/p"⟩]
    let own : DocumentSpan := ⟨⟨"/p/c/a.ts"⟩, 13, 1⟩
    let exported : DocumentSpan := ⟨⟨"/p/c/index.ts"⟩, 9, 1⟩
    let service : LanguageService :=
      ⟨fun _ => [], fun _ _ => none, fun _ _ => some [own, exported]⟩
    session.findRenameLocations service ⟨"/p/index.ts"⟩ 9 = some [own, exported] ∧
      session.isVirtual exported.fileName = true := by
  decide +kernel

end Session

end BarrelSynthesis
