/-
# Replacing the imports of a module at once

The replacements of a module are made one after the other, from the back of its code to the front, and
each is made at offsets of the code as it was. What they lead to can be told without an order: every
replaced stretch holds its own text, and what stands between and around the stretches is kept. This module
says what that is and shows that making the replacements gives it, and never has to cut where the code
cannot be cut.

The stretches are apart from each other and none is empty, so one that begins later ends later too. The
objects take no stretch away. They go to a place where one stretch may end and another begin, and only the
order among replacements that begin at one offset keeps them between the two: the objects are listed last,
sorting leaves them behind the stretch that begins where they go, and so they are put in after it.
-/
import BarrelSynthesis.Imports.Redirection
import BarrelSynthesis.Proofs.Imports.Survival
import BarrelSynthesis.Proofs.Text.Offset

namespace BarrelSynthesis

open Source Synthesis
open String (utf8Len utf8Len_nil utf8Len_append utf8Len_eq_zero)

namespace Redirection

/-! ## Replacing at once -/

/-- What becomes of a text whose first character stands at an offset, when each of some stretches gives
way to its text. The stretches are listed as they stand. In front of each stands a gap, which is kept, and
what stands behind the last is kept too. -/
inductive Substituted : Nat → List Replacement → List Char → List Char → Prop
  | rest (offset : Nat) (code : List Char) : Substituted offset [] code code
  | replace {offset : Nat} {span : Span} {text : String} {later : List Replacement}
      {gap old behind result : List Char}
      (starts : span.start = offset + utf8Len gap)
      (stops : span.stop = span.start + utf8Len old)
      (substituted : Substituted span.stop later behind result) :
      Substituted offset (⟨span, text⟩ :: later) (gap ++ old ++ behind)
        (gap ++ text.toList ++ result)

/-- A stretch that can be cut out of a text. -/
structure Fits (code : List Char) (span : Span) : Prop where
  le : span.start ≤ span.stop
  start : Text.isBoundary span.start code = true
  stop : Text.isBoundary span.stop code = true

/-- Stretches that stand one behind the other can be replaced at once. -/
theorem exists_substituted {replacements : List Replacement} (front code : List Char)
    (fits : ∀ replacement ∈ replacements, Fits (front ++ code) replacement.span)
    (behind : ∀ replacement ∈ replacements, utf8Len front ≤ replacement.span.start)
    (ascending : replacements.Pairwise fun a b => a.span.stop ≤ b.span.start) :
    ∃ result, Substituted (utf8Len front) replacements code result := by
  induction replacements generalizing front code with
  | nil => exact ⟨code, .rest _ code⟩
  | cons first later ih =>
      obtain ⟨following, ascending⟩ := List.pairwise_cons.mp ascending
      have fitsFirst := fits first List.mem_cons_self
      obtain ⟨upTo, fromStart, shape, atStart⟩ := Text.isBoundary_iff.mp fitsFirst.start
      obtain ⟨through, fromStop, again, atStop⟩ := Text.isBoundary_iff.mp fitsFirst.stop
      obtain ⟨gap, rfl, rfl⟩ := Text.exists_between_of_le shape
        (atStart ▸ behind first List.mem_cons_self)
      obtain ⟨old, rfl, rfl⟩ := Text.exists_between_of_le (shape.symm.trans again)
        (atStart ▸ atStop ▸ fitsFirst.le)
      obtain ⟨result, substituted⟩ := ih (front ++ gap ++ old) fromStop
        (fun replacement listed => by
          rw [← again]
          exact fits replacement (List.mem_cons_of_mem _ listed))
        (fun replacement listed => atStop ▸ following replacement listed) ascending
      refine ⟨gap ++ first.text.toList ++ result, ?_⟩
      rw [← List.append_assoc]
      refine .replace ?_ ?_ (atStop ▸ substituted)
      · rw [← atStart, utf8Len_append]
      · rw [← atStop, ← atStart, utf8Len_append]

/-- A text that is put in where no stretch is taken away stands between what becomes of the code in front
of it and what becomes of the code behind. -/
theorem Substituted.exists_sides {offset position : Nat} {text : String}
    {before behind : List Replacement} {code result : List Char}
    (substituted : Substituted offset (before ++ ⟨⟨position, position⟩, text⟩ :: behind) code result) :
    ∃ front rest front' rest', code = front ++ rest ∧ offset + utf8Len front = position ∧
      Substituted offset before front front' ∧ Substituted position behind rest rest' ∧
      result = front' ++ text.toList ++ rest' := by
  induction before generalizing offset code result with
  | nil =>
      cases substituted with
      | @replace _ _ _ _ gap old rest rest' starts stops further =>
          have none : old = [] := utf8Len_eq_zero.mp (Nat.add_eq_left.mp stops.symm)
          subst none
          exact ⟨gap, rest, gap, rest', by rw [List.append_nil], starts.symm, .rest _ gap, further,
            rfl⟩
  | cons first before ih =>
      cases substituted with
      | @replace _ _ own _ gap old later later' starts stops further =>
          obtain ⟨front, rest, front', rest', rfl, measured, inFront, afterwards, rfl⟩ := ih further
          refine ⟨gap ++ old ++ front, rest, gap ++ own.toList ++ front', rest', ?_, ?_,
            .replace starts stops inFront, afterwards, ?_⟩
          · rw [← List.append_assoc]
          · rw [utf8Len_append, utf8Len_append, ← measured, stops, starts]
            omega
          · simp only [List.append_assoc]

/-! ## Replacing one after the other -/

/-- Puts a text in the place of a stretch. Gives nothing when the stretch does not lie in the code, or
begins or ends inside a character. -/
def splice? (code : List Char) (replacement : Replacement) : Option (List Char) :=
  if replacement.span.start ≤ replacement.span.stop then
    (Text.takeBytes? replacement.span.start code).bind fun front =>
      (Text.dropBytes? replacement.span.stop code).map fun behind =>
        front ++ replacement.text.toList ++ behind
  else none

/-- A splice that can be made is the one the code makes, whose cuts then find their places. -/
theorem splice_of_splice? {code next : List Char} {replacement : Replacement}
    (cut : splice? code replacement = some next) : splice code replacement = next := by
  rw [splice?] at cut
  split at cut
  · obtain ⟨front, taken, rest⟩ := Option.bind_eq_some_iff.mp cut
    obtain ⟨behind, dropped, rfl⟩ := Option.map_eq_some_iff.mp rest
    rw [splice, taken, dropped, Option.getD_some, Option.getD_some]
  · cases cut

/-- The same for splices in a row. -/
theorem foldl_splice_of_foldlM_splice? {replacements : List Replacement} {code result : List Char}
    (made : replacements.foldlM splice? code = some result) :
    replacements.foldl splice code = result := by
  induction replacements generalizing code with
  | nil => exact Option.some.inj made
  | cons first later ih =>
      rw [List.foldlM_cons] at made
      obtain ⟨next, cut, rest⟩ := Option.bind_eq_some_iff.mp made
      rw [List.foldl_cons, splice_of_splice? cut]
      exact ih rest

/-- A stretch between two pieces of a text can be spliced, and its text comes to stand between them. -/
theorem splice?_append {span : Span} {front old : List Char} (text : String) (behind : List Char)
    (starts : span.start = utf8Len front)
    (stops : span.stop = utf8Len (front ++ old)) :
    splice? (front ++ old ++ behind) ⟨span, text⟩ = some (front ++ text.toList ++ behind) := by
  have taken : Text.takeBytes? span.start (front ++ old ++ behind) = some front := by
    rw [starts, List.append_assoc, Text.takeBytes?_append]
  have dropped : Text.dropBytes? span.stop (front ++ old ++ behind) = some behind := by
    rw [stops, Text.dropBytes?_append]
  have ordered : span.start ≤ span.stop := by
    rw [starts, stops, utf8Len_append]
    exact Nat.le_add_right _ _
  rw [splice?, if_pos ordered, taken, Option.bind_some, dropped, Option.map_some]

/-- Replacing one after the other from the back leads to what replacing at once does. -/
theorem Substituted.foldrM_splice? {replacements : List Replacement} (front : List Char)
    {code result : List Char}
    (substituted : Substituted (utf8Len front) replacements code result) :
    replacements.foldrM (fun replacement code => splice? code replacement) (front ++ code) =
      some (front ++ result) := by
  generalize measured : utf8Len front = offset at substituted
  induction substituted generalizing front with
  | rest offset code => rfl
  | @replace offset span text later gap old behind result starts stops _ ih =>
      have atStart : span.start = utf8Len (front ++ gap) := by
        rw [starts, ← measured, utf8Len_append]
      have atStop : span.stop = utf8Len (front ++ gap ++ old) := by
        rw [stops, atStart, utf8Len_append (front ++ gap)]
      have made := ih (front ++ gap ++ old) atStop.symm
      have cut := splice?_append text result atStart atStop
      simp only [List.append_assoc] at made cut ⊢
      rw [List.foldrM_cons, made]
      exact cut

/-- Replacements in the order in which they are made. -/
def backwards (replacements : List Replacement) : List Replacement :=
  replacements.mergeSort fun a b => b.span.start ≤ a.span.start

/-- Replacements are made from the back: none begins behind one made earlier. -/
theorem pairwise_backwards (replacements : List Replacement) :
    (backwards replacements).Pairwise fun a b => b.span.start ≤ a.span.start := by
  have sorted : (backwards replacements).Pairwise fun a b =>
      decide (b.span.start ≤ a.span.start) = true :=
    List.pairwise_mergeSort
      (by simp only [decide_eq_true_eq]; omega)
      (by simp only [Bool.or_eq_true, decide_eq_true_eq]; omega) replacements
  exact sorted.imp of_decide_eq_true

/-- A replacement that does not begin before one listed after it is made before that one. -/
theorem pair_sublist_backwards {replacements : List Replacement} {a b : Replacement}
    (ordered : b.span.start ≤ a.span.start) (listed : [a, b].Sublist replacements) :
    [a, b].Sublist (backwards replacements) :=
  List.pair_sublist_mergeSort
    (by simp only [decide_eq_true_eq]; omega)
    (by simp only [Bool.or_eq_true, decide_eq_true_eq]; omega) (decide_eq_true ordered) listed

/-- Ordering the replacements loses none and adds none. -/
theorem backwards_perm (replacements : List Replacement) :
    (backwards replacements).Perm replacements :=
  List.mergeSort_perm ..

/-! ## Both sides of the objects -/

/-- Two stretches that have nothing in common. -/
def Apart (a b : Span) : Prop :=
  a.stop ≤ b.start ∨ b.stop ≤ a.start

theorem Apart.symm {a b : Span} (apart : Apart a b) : Apart b a :=
  Or.symm apart

/-- Stretches as a parser places them: none is empty, no two have anything in common, and a position lies
inside none of them. -/
structure Spread (spans : List Span) (position : Nat) : Prop where
  filled : ∀ span ∈ spans, span.start < span.stop
  apart : spans.Pairwise Apart
  outside : ∀ span ∈ spans, span.stop ≤ position ∨ position ≤ span.start

/-- The replacements in front of a position and those behind it, as they stand. -/
structure Divides (position : Nat) (found before behind : List Replacement) : Prop where
  perm : (before ++ behind).Perm found
  ends : ∀ replacement ∈ before, replacement.span.stop ≤ position
  begins : ∀ replacement ∈ behind, position ≤ replacement.span.start
  ascending : (before ++ behind).Pairwise fun a b => a.span.stop ≤ b.span.start

/-- What stands in front of the one occurrence of an element is in the part before it. -/
theorem mem_of_pair_sublist {α : Type} {a b : α} {front back : List α} (fresh : b ∉ back)
    (pair : [a, b].Sublist (front ++ b :: back)) : a ∈ front := by
  obtain ⟨first, second, split, listed, last⟩ := List.cons_sublist_iff.mp pair
  rcases List.append_eq_append_iff.mp split with ⟨more, rfl, rest⟩ | ⟨more, rfl, -⟩
  · cases more with
    | nil => simpa using listed
    | cons head more =>
        obtain ⟨-, rfl⟩ := List.cons.inj rest
        exact absurd (List.mem_append_right _ (List.singleton_sublist.mp last)) fresh
  · exact List.mem_append_left _ listed

section Order

variable {found : List Replacement} {position : Nat}

/-- Replacements of spread stretches are apart in whatever order they are taken. -/
theorem Spread.apart_of_perm {replacements : List Replacement}
    (spread : Spread (found.map (·.span)) position) (perm : replacements.Perm found) :
    replacements.Pairwise fun a b => Apart a.span b.span :=
  (perm.pairwise_iff Apart.symm).mpr (List.pairwise_map.mp spread.apart)

/-- What is made around insertions is a found replacement or one of them. -/
theorem Divides.mem_or_mem {before behind insertions : List Replacement}
    (divides : Divides position found before behind) {replacement : Replacement}
    (listed : replacement ∈ before ++ insertions ++ behind) :
    replacement ∈ found ∨ replacement ∈ insertions := by
  rw [← divides.perm.mem_iff, List.mem_append]
  rcases List.mem_append.mp listed with listed | listed
  · exact (List.mem_append.mp listed).imp .inl id
  · exact .inl (.inr listed)

/-- An insertion at the dividing position keeps the stretches one behind the other. -/
theorem Divides.pairwise_insertion {before behind : List Replacement}
    (divides : Divides position found before behind) {insertion : Replacement}
    (stands : insertion.span = ⟨position, position⟩) :
    (before ++ [insertion] ++ behind).Pairwise fun a b => a.span.stop ≤ b.span.start := by
  obtain ⟨inFront, afterwards, crossing⟩ := List.pairwise_append.mp divides.ascending
  rw [List.append_assoc, List.singleton_append]
  refine List.pairwise_append.mpr ⟨inFront, List.pairwise_cons.mpr ⟨?_, afterwards⟩, ?_⟩
  · intro replacement listed
    rw [stands]
    exact divides.begins replacement listed
  · intro replacement listed
    refine List.forall_mem_cons.mpr ⟨?_, crossing replacement listed⟩
    rw [stands]
    exact divides.ends replacement listed

/-- The replacements in front of the position are those that begin there: a stretch that is not empty and
ends by the position begins before it. -/
theorem Divides.filter_eq {before behind : List Replacement}
    (divides : Divides position found before behind)
    (filled : ∀ replacement ∈ found, replacement.span.start < replacement.span.stop) :
    (before ++ behind).filter (fun replacement => replacement.span.start < position) = before := by
  have kept : ∀ replacement ∈ before, decide (replacement.span.start < position) = true := by
    intro replacement listed
    have ends := divides.ends replacement listed
    have nonempty := filled _ (divides.perm.mem_iff.mp (List.mem_append_left _ listed))
    exact decide_eq_true (by omega)
  have dropped : ∀ replacement ∈ behind, ¬ decide (replacement.span.start < position) = true := by
    intro replacement listed
    have begins := divides.begins replacement listed
    simpa using begins
  rw [List.filter_append, List.filter_eq_self.mpr kept, List.filter_eq_nil_iff.mpr dropped,
    List.append_nil]

/-- There is one way to divide replacements of stretches that are not empty. -/
theorem Divides.unique {before behind before' behind' : List Replacement}
    (divides : Divides position found before behind)
    (other : Divides position found before' behind')
    (filled : ∀ replacement ∈ found, replacement.span.start < replacement.span.stop) :
    before = before' ∧ behind = behind' := by
  have same : before ++ behind = before' ++ behind' := by
    refine List.Perm.eq_of_pairwise ?_ divides.ascending other.ascending
      (divides.perm.trans other.perm.symm)
    intro a b first second inFront afterwards
    have filledFirst := filled a (divides.perm.mem_iff.mp first)
    have filledSecond := filled b (other.perm.mem_iff.mp second)
    omega
  have front : before = before' := by
    rw [← divides.filter_eq filled, ← other.filter_eq filled, same]
  subst front
  exact ⟨rfl, List.append_cancel_left same⟩

/-- Among stretches apart from each other, one that does not begin before another begins behind it. So
replacements that are made from the back, those behind a position first, are divided there. -/
theorem Spread.divides_reverse {before behind : List Replacement}
    (spread : Spread (found.map (·.span)) position) (perm : (behind ++ before).Perm found)
    (descending : (behind ++ before).Pairwise fun a b => b.span.start ≤ a.span.start)
    (ends : ∀ replacement ∈ before, replacement.span.stop ≤ position)
    (begins : ∀ replacement ∈ behind, position ≤ replacement.span.start) :
    Divides position found before.reverse behind.reverse := by
  have turned : before.reverse ++ behind.reverse = (behind ++ before).reverse :=
    List.reverse_append.symm
  refine ⟨?_, ?_, ?_, ?_⟩
  · rw [turned]
    exact (List.reverse_perm _).trans perm
  · exact fun replacement listed => ends replacement (List.mem_reverse.mp listed)
  · exact fun replacement listed => begins replacement (List.mem_reverse.mp listed)
  · rw [turned, List.pairwise_reverse]
    refine (descending.and (spread.apart_of_perm perm)).imp_of_mem ?_
    rintro a b first - ⟨later, behind | before⟩
    · have filled := spread.filled a.span (List.mem_map_of_mem (perm.mem_iff.mp first))
      omega
    · exact before

/-- Once a stretch begins in front of a position outside all stretches, those that begin no later end in
front of it. -/
theorem exists_split_of_descending {replacements : List Replacement}
    (descending : replacements.Pairwise fun a b => b.span.start ≤ a.span.start)
    (outside : ∀ replacement ∈ replacements,
      replacement.span.stop ≤ position ∨ position ≤ replacement.span.start) :
    ∃ behind before, replacements = behind ++ before ∧
      (∀ replacement ∈ before, replacement.span.stop ≤ position) ∧
      ∀ replacement ∈ behind, position ≤ replacement.span.start := by
  induction replacements with
  | nil => exact ⟨[], [], rfl, by simp, by simp⟩
  | cons first rest ih =>
      obtain ⟨following, descending⟩ := List.pairwise_cons.mp descending
      by_cases later : position ≤ first.span.start
      · obtain ⟨behind, before, rfl, ends, begins⟩ := ih descending fun replacement listed =>
          outside replacement (List.mem_cons_of_mem _ listed)
        exact ⟨first :: behind, before, rfl, ends, List.forall_mem_cons.mpr ⟨later, begins⟩⟩
      · refine ⟨[], first :: rest, rfl, ?_, by simp⟩
        intro replacement listed
        have earlier : replacement.span.start ≤ first.span.start := by
          rcases List.mem_cons.mp listed with rfl | listed
          · exact Nat.le_refl _
          · exact following replacement listed
        exact (outside replacement listed).resolve_right (by omega)

/-- Without objects, the replacements are made from the last to the first. -/
theorem Spread.exists_divides (spread : Spread (found.map (·.span)) position) :
    ∃ before behind, Divides position found before behind ∧
      backwards found = (before ++ behind).reverse := by
  have perm := backwards_perm found
  have descending := pairwise_backwards found
  obtain ⟨behind, before, split, ends, begins⟩ :=
    exists_split_of_descending descending fun _ listed =>
      spread.outside _ (List.mem_map_of_mem (perm.mem_iff.mp listed))
  rw [split] at perm descending
  refine ⟨_, _, spread.divides_reverse perm descending ends begins, ?_⟩
  rw [split, ← List.reverse_append, List.reverse_reverse]

/-- What is listed last, at a position, is put in after the replacements that stand behind the position
and before those in front of it. -/
theorem Spread.exists_divides_insertion (spread : Spread (found.map (·.span)) position)
    (insertion : Replacement) (stands : insertion.span = ⟨position, position⟩) :
    ∃ before behind, Divides position found before behind ∧
      backwards (found ++ [insertion]) = (before ++ [insertion] ++ behind).reverse := by
  have start : insertion.span.start = position := by rw [stands]
  have fresh : insertion ∉ found := by
    intro listed
    have filled := spread.filled _ (List.mem_map_of_mem listed)
    rw [stands] at filled
    exact Nat.lt_irrefl _ filled
  have listing := backwards_perm (found ++ [insertion])
  have descending := pairwise_backwards (found ++ [insertion])
  obtain ⟨behind, before, split⟩ :=
    List.append_of_mem (listing.mem_iff.mpr (List.mem_append_right _ (List.mem_singleton_self _)))
  rw [split] at listing descending
  have perm : (behind ++ before).Perm found :=
    (List.perm_cons insertion).mp
      (List.perm_middle.symm.trans (listing.trans (List.perm_append_singleton insertion found)))
  have begins : ∀ replacement ∈ behind, position ≤ replacement.span.start := fun replacement listed =>
    start ▸ (List.pairwise_append.mp descending).2.2 replacement listed insertion List.mem_cons_self
  have ends : ∀ replacement ∈ before, replacement.span.stop ≤ position := by
    intro replacement listed
    have known : replacement ∈ found := perm.mem_iff.mp (List.mem_append_right _ listed)
    have freshBefore : insertion ∉ before := fun listed =>
      fresh (perm.mem_iff.mp (List.mem_append_right _ listed))
    refine (spread.outside _ (List.mem_map_of_mem known)).resolve_right fun late => ?_
    -- It would begin at the position, and be made before the insertion as well as after it.
    have pair : [replacement, insertion].Sublist (backwards (found ++ [insertion])) :=
      pair_sublist_backwards (by rw [start]; exact late)
        ((List.singleton_sublist.mpr known).append (List.Sublist.refl [insertion]))
    have twice : replacement ∈ behind := mem_of_pair_sublist freshBefore (split ▸ pair)
    have itself : Apart replacement.span replacement.span :=
      (List.pairwise_append.mp (spread.apart_of_perm perm)).2.2 _ twice _ listed
    have filled := spread.filled _ (List.mem_map_of_mem known)
    rcases itself with apart | apart <;> omega
  have others : (behind ++ before).Pairwise fun a b => b.span.start ≤ a.span.start :=
    descending.sublist
      ((List.Sublist.refl behind).append (List.sublist_cons_self insertion before))
  refine ⟨_, _, spread.divides_reverse perm others ends begins, ?_⟩
  rw [split, List.reverse_append, List.reverse_append, List.reverse_reverse, List.reverse_reverse]
  rfl

end Order

/-! ## The replacements of a module -/

/-- The stretch that a reference gives up, when it names a barrel. -/
def replacedSpan? (barrelOf : String → Option Manifest) : Reference → Option Span
  | .importDeclaration declaration =>
    if (barrelOf declaration.specifier).isSome then some declaration.span else none
  | .requireCall call => if (barrelOf call.specifier).isSome then some call.span else none
  | _ => none

/-- The stretches of a module that are replaced. -/
def replacedSpans (barrelOf : String → Option Manifest) (module : Module) : List Span :=
  module.references.filterMap (replacedSpan? barrelOf)

/-- The objects of a module, put in where its imports end. -/
def insertions (barrelOf : String → Option Manifest) (module : Module) : List Replacement :=
  let objects := namespaceObjects barrelOf module
  if objects.isEmpty then []
  else [⟨⟨lastImportEnd module, lastImportEnd module⟩, objectsText objects⟩]

/-- Without objects nothing is inserted. -/
theorem insertions_of_nil (none : namespaceObjects barrelOf module = []) :
    insertions barrelOf module = [] := by
  rw [insertions, none]
  rfl

/-- With objects there is one insertion, of all of them, behind the last import. -/
theorem insertions_of_ne_nil (some : namespaceObjects barrelOf module ≠ []) :
    insertions barrelOf module =
      [⟨⟨lastImportEnd module, lastImportEnd module⟩,
        objectsText (namespaceObjects barrelOf module)⟩] := by
  rw [insertions]
  exact if_neg fun none => some (List.isEmpty_iff.mp none)

/-- The insertion cuts the code where the last import ends. -/
theorem fits_of_mem_insertions {code : List Char} {insertion : Replacement}
    (cuts : namespaceObjects barrelOf module ≠ [] →
      Text.isBoundary (lastImportEnd module) code = true)
    (listed : insertion ∈ insertions barrelOf module) : Fits code insertion.span := by
  by_cases objects : namespaceObjects barrelOf module = []
  · rw [insertions_of_nil objects] at listed
    cases listed
  · rw [insertions_of_ne_nil objects, List.mem_singleton] at listed
    rw [listed]
    exact ⟨Nat.le_refl _, cuts objects, cuts objects⟩

/-- The replacements of a module are those of its references, with the insertion behind them. -/
theorem replacements_eq_append (settings : Settings) (barrelOf : String → Option Manifest)
    (module : Module) :
    replacements settings barrelOf module =
      module.references.filterMap (replacementOf? settings barrelOf) ++
        insertions barrelOf module := by
  rw [replacements, insertions]
  split
  · exact (List.append_nil _).symm
  · rfl

/-- Which stretch a reference gives up depends on the barrels alone, and not on the text that takes its
place. -/
theorem map_span_replacementOf? (settings : Settings) (barrelOf : String → Option Manifest)
    (reference : Reference) :
    (replacementOf? settings barrelOf reference).map (·.span) = replacedSpan? barrelOf reference := by
  cases reference with
  | importDeclaration declaration =>
      rw [replacementOf?, replacedSpan?]
      cases barrelOf declaration.specifier <;> rfl
  | requireCall call =>
      rw [replacementOf?, replacedSpan?]
      cases barrelOf call.specifier <;> rfl
  | _ => rfl

/-- Every replaced stretch has a replacement of its own. -/
theorem map_span_filterMap_replacementOf? (settings : Settings)
    (barrelOf : String → Option Manifest) (module : Module) :
    (module.references.filterMap (replacementOf? settings barrelOf)).map (·.span) =
      replacedSpans barrelOf module := by
  rw [List.map_filterMap, replacedSpans]
  simp only [map_span_replacementOf?]

/-- A module none of whose references is replaced needs no objects. -/
theorem namespaceObjects_eq_nil (untouched : replacedSpans barrelOf module = []) :
    namespaceObjects barrelOf module = [] := by
  have none : module.references.filterMap (objectOf? barrelOf) = [] := by
    refine List.filterMap_eq_nil_iff.mpr fun reference listed => ?_
    refine Option.eq_none_iff_forall_ne_some.mpr fun object needs => ?_
    obtain ⟨declaration, rfl, binds⟩ := objectOf?_named_iff.mp ⟨object, needs, rfl⟩
    have kept := List.filterMap_eq_nil_iff.mp untouched _ listed
    rw [replacedSpan?, if_pos binds.isBarrel] at kept
    cases kept
  rw [namespaceObjects, none, List.foldl_nil]

/-- A module has replacements exactly when one of its references has. -/
theorem replacements_eq_nil_iff (settings : Settings) :
    replacements settings barrelOf module = [] ↔ replacedSpans barrelOf module = [] := by
  rw [replacements_eq_append, List.append_eq_nil_iff,
    ← map_span_filterMap_replacementOf? settings, List.map_eq_nil_iff]
  refine and_iff_left_of_imp fun none => insertions_of_nil (namespaceObjects_eq_nil ?_)
  rw [← map_span_filterMap_replacementOf? settings, none, List.map_nil]

/-- The rewritten code as a list of characters: splices from the back. -/
theorem toList_redirect (settings : Settings) (barrelOf : String → Option Manifest)
    (module : Module) (code : String) :
    (module.redirect settings barrelOf code).code.toList =
      (backwards (replacements settings barrelOf module)).foldl splice code.toList := by
  rw [Source.Module.redirect]
  split
  · next none =>
      rw [List.isEmpty_iff.mp none, backwards, List.mergeSort_nil, List.foldl_nil]
  · exact String.toList_ofList

/-- A module is left as it is exactly when none of its references is replaced. -/
theorem isRedirected_eq_false_iff (settings : Settings) (code : String) :
    (module.redirect settings barrelOf code).isRedirected = false ↔
      replacedSpans barrelOf module = [] := by
  rw [← replacements_eq_nil_iff settings, Source.Module.redirect, ← List.isEmpty_iff]
  split
  · next none => simp [none]
  · next some => simp [some]

/-- The code is left as it is when no stretch is replaced, and only then. -/
theorem redirect_eq_self_iff (settings : Settings) (code : String) :
    module.redirect settings barrelOf code = ⟨code, false⟩ ↔ replacedSpans barrelOf module = [] := by
  constructor
  · intro same
    rw [← isRedirected_eq_false_iff settings code, same]
  · intro untouched
    rw [Source.Module.redirect, (replacements_eq_nil_iff settings).mpr untouched]
    rfl

/-! ## Redirecting a module -/

/-- The objects of a module go in between the replacements on both sides of the end of its imports. -/
theorem exists_divides_replacements (settings : Settings)
    (spread : Spread (replacedSpans barrelOf module) (lastImportEnd module)) :
    ∃ before behind,
      Divides (lastImportEnd module)
          (module.references.filterMap (replacementOf? settings barrelOf)) before behind ∧
        backwards (replacements settings barrelOf module) =
          (before ++ insertions barrelOf module ++ behind).reverse ∧
        (before ++ insertions barrelOf module ++ behind).Pairwise fun a b =>
          a.span.stop ≤ b.span.start := by
  rw [← map_span_filterMap_replacementOf? settings] at spread
  rw [replacements_eq_append]
  by_cases objects : namespaceObjects barrelOf module = []
  · obtain ⟨before, behind, divides, order⟩ := spread.exists_divides
    rw [insertions_of_nil objects, List.append_nil]
    refine ⟨before, behind, divides, ?_, ?_⟩
    · rw [List.append_nil]
      exact order
    · rw [List.append_nil]
      exact divides.ascending
  · obtain ⟨before, behind, divides, order⟩ := spread.exists_divides_insertion
      ⟨⟨lastImportEnd module, lastImportEnd module⟩, objectsText (namespaceObjects barrelOf module)⟩ rfl
    rw [insertions_of_ne_nil objects]
    exact ⟨before, behind, divides, order, divides.pairwise_insertion rfl⟩

/-- Redirecting a module replaces, at once, every import and `require` of a barrel by its own text, and
puts the objects in behind the last import: behind what becomes of the code up to its end, and in front of
what becomes of the rest. The objects stand in the order in which their names first appear. Made one after
the other, the replacements never cut where the code cannot be cut. Code without any is left as it is and
counts as not redirected, and all other code counts as redirected.

The parser is relied on for stretches that can be cut out, are not empty and have nothing in common, for
an end of the last import inside none of them, and, should there be objects, for that end to be one where
the code can be cut. -/
theorem redirect_replaces_at_once (settings : Settings) (barrelOf : String → Option Manifest)
    (module : Module) (code : String)
    (spread : Spread (replacedSpans barrelOf module) (lastImportEnd module))
    (fits : ∀ span ∈ replacedSpans barrelOf module, Fits code.toList span)
    (cuts : namespaceObjects barrelOf module ≠ [] →
      Text.isBoundary (lastImportEnd module) code.toList = true) :
    let found := module.references.filterMap (replacementOf? settings barrelOf)
    let objects := namespaceObjects barrelOf module
    let result := module.redirect settings barrelOf code
    found.map (·.span) = replacedSpans barrelOf module ∧
      objects.map (·.name) =
        ((module.references.filterMap (objectOf? barrelOf)).map (·.name)).eraseDups ∧
      (∃ before behind, Divides (lastImportEnd module) found before behind ∧
        (∀ text, Substituted 0 (before ++ insertions barrelOf module ++ behind) code.toList text ↔
          text = result.code.toList) ∧
        (objects ≠ [] → ∃ front rest front' rest',
          code.toList = front ++ rest ∧ utf8Len front = lastImportEnd module ∧
          Substituted 0 before front front' ∧ Substituted (lastImportEnd module) behind rest rest' ∧
          result.code.toList = front' ++ (objectsText objects).toList ++ rest')) ∧
      (backwards (replacements settings barrelOf module)).foldlM splice? code.toList =
        some result.code.toList ∧
      (result = ⟨code, false⟩ ↔ replacedSpans barrelOf module = []) ∧
      (result.isRedirected = false ↔ replacedSpans barrelOf module = []) := by
  intro found objects result
  have spans := map_span_filterMap_replacementOf? settings barrelOf module
  obtain ⟨before, behind, divides, order, ascending⟩ :=
    exists_divides_replacements settings spread
  have fitting : ∀ replacement ∈ before ++ insertions barrelOf module ++ behind,
      Fits code.toList replacement.span := by
    intro replacement listed
    rcases divides.mem_or_mem listed with listed | listed
    · exact fits _ (spans ▸ List.mem_map_of_mem listed)
    · exact fits_of_mem_insertions cuts listed
  obtain ⟨text, substituted⟩ := exists_substituted [] code.toList fitting
    (fun _ _ => Nat.zero_le _) ascending
  have made : ∀ text, Substituted 0 (before ++ insertions barrelOf module ++ behind) code.toList text →
      (backwards (replacements settings barrelOf module)).foldlM splice? code.toList = some text := by
    intro text substituted
    rw [order, List.foldlM_reverse]
    exact substituted.foldrM_splice? []
  have reached : result.code.toList = text := by
    rw [toList_redirect, foldl_splice_of_foldlM_splice? (made text substituted)]
  refine ⟨spans, map_name_namespaceObjects barrelOf module, ⟨before, behind, divides, ?_, ?_⟩, ?_,
    redirect_eq_self_iff settings code, isRedirected_eq_false_iff settings code⟩
  · intro other
    constructor
    · intro also
      have same := (made other also).symm.trans (made text substituted)
      rw [reached, Option.some.inj same]
    · rintro rfl
      rw [reached]
      exact substituted
  · intro some
    rw [insertions_of_ne_nil some, List.append_assoc, List.singleton_append] at substituted
    obtain ⟨front, rest, front', rest', split, measured, inFront, afterwards, whole⟩ :=
      substituted.exists_sides
    rw [utf8Len_nil, Nat.zero_add] at measured
    exact ⟨front, rest, front', rest', split, measured, inFront, afterwards, reached.trans whole⟩
  · rw [reached]
    exact made text substituted

/-- A namespace import and a `require` that begins where it ends: the object stands between what they
become. -/
theorem touching_references_are_replaced_at_once :
    let manifest : Manifest := .ofList [("v", ⟨"v", "a", ".ts", false, false, none⟩)]
    let barrelOf := fun _ : String => some manifest
    let code := "import*as n from'./c';require('./c')"
    ∃ module, Module.parse? (Language.ofPath ⟨"m.ts"⟩) code = some module ∧
      replacedSpans barrelOf module = [⟨0, 22⟩, ⟨22, 36⟩] ∧ lastImportEnd module = 22 ∧
      (module.redirect ⟨{}, false⟩ barrelOf code).code =
        "import \x7b v as nv \x7d from './c/a';" ++ "\nconst n = \x7b\n    v: nv\n\x7d;" ++
          "\x7b __esModule: true, get v() \x7b return require('./c/a').v; \x7d \x7d" := by
  intro manifest barrelOf code
  let declaration : ImportDeclaration := ⟨some [.whole "n"], "./c", '\'', false, ⟨0, 22⟩⟩
  let call : RequireCall := ⟨"./c", '\'', ⟨22, 36⟩⟩
  have reading : (Module.parse? (Language.ofPath ⟨"m.ts"⟩) code).map
        (fun module => (module.references, lastImportEnd module)) =
      some ([.importDeclaration declaration, .requireCall call], 22) := by
    decide +kernel
  obtain ⟨module, parses, read⟩ := Option.map_eq_some_iff.mp reading
  obtain ⟨references, position⟩ := Prod.mk.inj read
  have spans : replacedSpans barrelOf module = [⟨0, 22⟩, ⟨22, 36⟩] := by
    rw [replacedSpans, references]
    rfl
  have first : Fits code.toList ⟨0, 22⟩ :=
    ⟨by decide, by decide +kernel, by decide +kernel⟩
  have second : Fits code.toList ⟨22, 36⟩ :=
    ⟨by decide, by decide +kernel, by decide +kernel⟩
  have spread : Spread (replacedSpans barrelOf module) (lastImportEnd module) := by
    rw [spans, position]
    exact ⟨by decide, by simp [Apart], by decide⟩
  have fits : ∀ span ∈ replacedSpans barrelOf module, Fits code.toList span := by
    rw [spans]
    intro span listed
    rcases List.mem_pair.mp listed with rfl | rfl
    · exact first
    · exact second
  have cuts : namespaceObjects barrelOf module ≠ [] →
      Text.isBoundary (lastImportEnd module) code.toList = true := by
    rw [position]
    exact fun _ => first.stop
  obtain ⟨-, -, ⟨before, behind, divides, whole, -⟩, -⟩ :=
    redirect_replaces_at_once ⟨{}, false⟩ barrelOf module _ spread fits cuts
  let imports : Replacement := ⟨⟨0, 22⟩, "import \x7b v as nv \x7d from './c/a';"⟩
  let required : Replacement :=
    ⟨⟨22, 36⟩, "\x7b __esModule: true, get v() \x7b return require('./c/a').v; \x7d \x7d"⟩
  have found : module.references.filterMap (replacementOf? ⟨{}, false⟩ barrelOf) =
      [imports, required] := by
    have direct : importText ⟨{}, false⟩ manifest declaration = imports.text := by
      decide +kernel
    have getters : (requireObject ⟨{}, false⟩ manifest "./c").print '\'' = required.text := by
      decide +kernel
    rw [references]
    show [(⟨⟨0, 22⟩, importText ⟨{}, false⟩ manifest declaration⟩ : Replacement),
      ⟨⟨22, 36⟩, (requireObject ⟨{}, false⟩ manifest "./c").print '\''⟩] = [imports, required]
    rw [direct, getters]
  have object : namespaceObjects barrelOf module = [namespaceObject manifest "n"] := by
    rw [namespaceObjects, references]
    rfl
  have sides : Divides 22 [imports, required] [imports] [required] :=
    ⟨.refl _, by simp [imports], by simp [required], by simp [imports, required]⟩
  rw [found, position] at divides
  obtain ⟨rfl, rfl⟩ := divides.unique sides (by simp [imports, required])
  have inserted : insertions barrelOf module =
      [⟨⟨22, 22⟩, "\nconst n = \x7b\n    v: nv\n\x7d;"⟩] := by
    have text : objectsText [namespaceObject manifest "n"] =
        "\nconst n = \x7b\n    v: nv\n\x7d;" := by
      decide +kernel
    rw [insertions, object, position, ← text]
    rfl
  have replaced : Substituted 0
      ([imports] ++ [⟨⟨22, 22⟩, "\nconst n = \x7b\n    v: nv\n\x7d;"⟩] ++ [required])
      ([] ++ "import*as n from'./c';".toList ++ ([] ++ [] ++ ([] ++ "require('./c')".toList ++ [])))
      ([] ++ imports.text.toList ++ ([] ++ "\nconst n = \x7b\n    v: nv\n\x7d;".toList ++
        ([] ++ required.text.toList ++ []))) :=
    .replace rfl (by decide +kernel) (.replace rfl rfl (.replace rfl (by decide +kernel) (.rest _ _)))
  have cut : code.toList =
      [] ++ "import*as n from'./c';".toList ++ ([] ++ [] ++ ([] ++ "require('./c')".toList ++ [])) := by
    decide +kernel
  rw [inserted, cut] at whole
  have reached := (whole _).mp replaced
  refine ⟨module, parses, spans, position, String.toList_inj.mp (reached.symm.trans ?_)⟩
  simp only [String.toList_append, List.nil_append, List.append_nil, List.append_assoc]
  rfl

end Redirection

end BarrelSynthesis
