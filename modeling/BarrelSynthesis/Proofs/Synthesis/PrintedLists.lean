/-
# Printed lists of names

An entry of an export or import list is printed as words with blanks between them, and a list as entries with
commas between them, inside braces. Names hold none of these marks, so a list of names shows where each of its
words and entries ends, and where the list itself does.
-/
import BarrelSynthesis.Proofs.Synthesis.Ordering
import BarrelSynthesis.Proofs.Text.IdentifierName
import BarrelSynthesis.Synthesis.Printer

namespace BarrelSynthesis.Synthesis

open Text

/-! ## Texts that show where they end -/

/-- A text without a mark, and the mark behind it, show where the text ends. -/
theorem eq_of_append_mark {mark : Char} {first second rest others : List Char} (free : mark ∉ first)
    (alsoFree : mark ∉ second) (same : first ++ mark :: rest = second ++ mark :: others) :
    first = second ∧ rest = others := by
  induction first generalizing second with
  | nil =>
      cases second with
      | nil => exact ⟨rfl, (List.cons.inj same).2⟩
      | cons c second =>
          obtain ⟨rfl, -⟩ := List.cons.inj same
          exact absurd List.mem_cons_self alsoFree
  | cons c first ih =>
      cases second with
      | nil =>
          obtain ⟨rfl, -⟩ := List.cons.inj same
          exact absurd List.mem_cons_self free
      | cons d second =>
          obtain ⟨rfl, later⟩ := List.cons.inj same
          obtain ⟨rfl, rest⟩ := ih (List.not_mem_of_not_mem_cons free)
            (List.not_mem_of_not_mem_cons alsoFree) later
          exact ⟨rfl, rest⟩

/-- Characters of identifiers show where they end if none stands behind them. -/
theorem eq_of_drawn_append {first second rest others : List Char} (drawn : Drawn [] first)
    (alsoDrawn : Drawn [] second) (ends : ∀ c ∈ rest.head?, isIdentifierPart c = false)
    (alsoEnds : ∀ c ∈ others.head?, isIdentifierPart c = false)
    (same : first ++ rest = second ++ others) : first = second ∧ rest = others := by
  have taken {text behind : List Char} (drawn : Drawn [] text)
      (ends : ∀ c ∈ behind.head?, isIdentifierPart c = false) :
      (text ++ behind).takeWhile isIdentifierPart = text := by
    rw [List.takeWhile_append_of_pos fun c member => (drawn c member).resolve_right List.not_mem_nil]
    cases behind with
    | nil => simp
    | cons c behind => simp [ends c rfl]
  have fronts : first = second := by rw [← taken drawn ends, same, taken alsoDrawn alsoEnds]
  subst fronts
  exact ⟨rfl, List.append_cancel_left same⟩

section Intercalate

variable {mark : Char} {gap part text : List Char} {rest : List (List Char)}

/-- Between the first two parts stands a separator, and the first character of it shows where the first part
ends. -/
theorem intercalate_cons_cons_eq (mark : Char) (gap part next : List Char) (more : List (List Char)) :
    (mark :: gap).intercalate (part :: next :: more) =
      part ++ mark :: (gap ++ (mark :: gap).intercalate (next :: more)) := by
  rw [List.intercalate_cons_cons, List.append_assoc, List.cons_append]

theorem intercalate_ne_nil (filled : part ≠ []) : (mark :: gap).intercalate (part :: rest) ≠ [] := by
  cases rest with
  | nil =>
      rw [List.intercalate_singleton]
      exact filled
  | cons next more =>
      rw [intercalate_cons_cons_eq]
      exact List.append_ne_nil_of_right_ne_nil _ (List.cons_ne_nil _ _)

/-- A text without the mark is one part. -/
theorem eq_of_intercalate_eq (clean : mark ∉ text)
    (same : (mark :: gap).intercalate (part :: rest) = text) : part = text ∧ rest = [] := by
  cases rest with
  | nil => exact ⟨List.intercalate_singleton.symm.trans same, rfl⟩
  | cons next more =>
      rw [intercalate_cons_cons_eq] at same
      exact absurd (same ▸ List.mem_append_right _ List.mem_cons_self) clean

/-- Parts without a mark can be told apart when the mark stands between them. -/
theorem intercalate_injective {first second : List (List Char)}
    (free : ∀ part ∈ first, part ≠ [] ∧ mark ∉ part)
    (alsoFree : ∀ part ∈ second, part ≠ [] ∧ mark ∉ part)
    (same : (mark :: gap).intercalate first = (mark :: gap).intercalate second) :
    first = second := by
  induction first generalizing second with
  | nil =>
      cases second with
      | nil => rfl
      | cons part rest =>
          exact absurd same.symm (intercalate_ne_nil (alsoFree part List.mem_cons_self).1)
  | cons part rest ih =>
      obtain ⟨⟨filled, clean⟩, later⟩ := List.forall_mem_cons.mp free
      cases second with
      | nil => exact absurd same (intercalate_ne_nil filled)
      | cons other others =>
          obtain ⟨⟨-, alsoClean⟩, alsoLater⟩ := List.forall_mem_cons.mp alsoFree
          cases rest with
          | nil =>
              rw [List.intercalate_singleton] at same
              obtain ⟨rfl, rfl⟩ := eq_of_intercalate_eq clean same.symm
              rfl
          | cons next more =>
              cases others with
              | nil =>
                  rw [List.intercalate_singleton] at same
                  exact absurd (eq_of_intercalate_eq alsoClean same).2 (List.cons_ne_nil next more)
              | cons next' more' =>
                  rw [intercalate_cons_cons_eq, intercalate_cons_cons_eq] at same
                  obtain ⟨rfl, behind⟩ := eq_of_append_mark clean alsoClean same
                  rw [ih later alsoLater (List.append_cancel_left behind)]

end Intercalate

/-- Lists are told apart by a function that tells their elements apart. -/
theorem eq_of_map_eq {α β : Type} {f : α → β} {first second : List α}
    (distinct : ∀ a ∈ first, ∀ b ∈ second, f a = f b → a = b)
    (same : first.map f = second.map f) : first = second := by
  induction first generalizing second with
  | nil => exact (List.map_eq_nil_iff.mp same.symm).symm
  | cons a rest ih =>
      obtain ⟨b, others, rfl, here, later⟩ := List.map_eq_cons_iff.mp same.symm
      rw [distinct a List.mem_cons_self b List.mem_cons_self here.symm,
        ih (fun c inside d also => distinct c (List.mem_cons_of_mem _ inside) d
          (List.mem_cons_of_mem _ also)) later.symm]

/-! ## Entries -/

/-- The names of an export entry. -/
def ExportEntry.names (entry : ExportEntry) : List String :=
  entry.property.toList ++ [entry.name]

/-- The names of an import entry. -/
def ImportEntry.names (entry : ImportEntry) : List String :=
  entry.property.toList ++ [entry.name]

/-- An import entry without the repetition of its name. -/
def ImportEntry.plain (entry : ImportEntry) : ImportEntry :=
  if entry.property = some entry.name then { entry with property := none } else entry

/-- The words by which a name is taken under another one, or under itself. -/
def aliasWords (property : Option String) (name : String) : List String :=
  match property with
  | some property => [property, "as", name]
  | none => [name]

/-- An entry has a word at least, its name. -/
theorem aliasWords_ne_nil (property : Option String) (name : String) :
    aliasWords property name ≠ [] := by
  cases property <;> exact List.cons_ne_nil _ _

/-- The words of an export entry. -/
def ExportEntry.words (entry : ExportEntry) : List String :=
  aliasWords entry.property entry.name

/-- The words of an import entry. -/
def ImportEntry.words (entry : ImportEntry) : List String :=
  (if entry.typeOnly then ["type"] else []) ++ aliasWords entry.property entry.name

/-- The text of words with blanks between them. -/
def spaced (words : List String) : List Char :=
  [' '].intercalate (words.map String.toList)

theorem spaced_cons_cons (first second : String) (rest : List String) :
    spaced (first :: second :: rest) = first.toList ++ ' ' :: spaced (second :: rest) := by
  simp [spaced, List.intercalate_cons_cons]

@[simp]
theorem spaced_singleton (word : String) : spaced [word] = word.toList := by
  simp [spaced]

/-- An entry of an export list is printed as its words with blanks between them. -/
theorem ExportEntry.toList_print (entry : ExportEntry) : entry.print.toList = spaced entry.words := by
  obtain ⟨property, name⟩ := entry
  cases property <;> simp [print, words, aliasWords, spaced_cons_cons]

/-- An entry of an import list is printed as its words, if it repeats no name. -/
theorem ImportEntry.IsPlain.toList_print {entry : ImportEntry} (plain : entry.IsPlain) :
    entry.print.toList = spaced entry.words := by
  obtain ⟨typeOnly, property, name⟩ := entry
  cases property with
  | none => cases typeOnly <;> simp [print, words, aliasWords, spaced_cons_cons]
  | some property =>
      have differs : property ≠ name := fun same => plain (congrArg some same)
      cases typeOnly <;> simp [print, words, aliasWords, spaced_cons_cons, differs]

/-- An entry without a repeated name is plain. -/
theorem ImportEntry.isPlain_plain (entry : ImportEntry) : entry.plain.IsPlain := by
  rw [plain]
  split
  · exact nofun
  · next differs => exact differs

/-- Leaving out a repeated name brings no new one. -/
theorem ImportEntry.mem_names_of_mem_names_plain {entry : ImportEntry} {name : String}
    (listed : name ∈ entry.plain.names) : name ∈ entry.names := by
  rw [plain] at listed
  split at listed
  · exact List.mem_append_right _ listed
  · exact listed

/-- A repeated name does not show in what is printed. -/
theorem ImportEntry.print_plain (entry : ImportEntry) : entry.plain.print = entry.print := by
  rw [plain]
  split
  · next repeats => simp [print, repeats]
  · rfl

/-- The number of words tells an alias from a name on its own. -/
theorem ExportEntry.eq_of_words_eq {first second : ExportEntry} (same : first.words = second.words) :
    first = second := by
  obtain ⟨property, name⟩ := first
  obtain ⟨otherProperty, other⟩ := second
  cases property <;> cases otherProperty <;> simp_all [words, aliasWords]

/-- The number of words tells whether there is an alias and whether there is a mark. -/
theorem ImportEntry.eq_of_words_eq {first second : ImportEntry} (same : first.words = second.words) :
    first = second := by
  obtain ⟨typeOnly, property, name⟩ := first
  obtain ⟨otherTypeOnly, otherProperty, other⟩ := second
  cases typeOnly <;> cases otherTypeOnly <;> cases property <;> cases otherProperty <;>
    simp_all [words, aliasWords]

/-- The words of an alias are names where both of its names are, since `as` is one too. -/
theorem isIdentifierName_of_mem_aliasWords {property : Option String} {name : String}
    (named : ∀ word ∈ property.toList ++ [name], IsIdentifierName word) :
    ∀ word ∈ aliasWords property name, IsIdentifierName word := by
  have keyword : IsIdentifierName "as" := by decide
  cases property <;> simp_all [aliasWords]

/-- The words of an import entry are names where its names are, since `type` is one too. -/
theorem ImportEntry.isIdentifierName_of_mem_words {entry : ImportEntry}
    (named : ∀ name ∈ entry.names, IsIdentifierName name) :
    ∀ word ∈ entry.words, IsIdentifierName word := by
  intro word member
  rcases List.mem_append.mp member with mark | listed
  · split at mark
    · rw [List.mem_singleton.mp mark]
      decide
    · cases mark
  · exact isIdentifierName_of_mem_aliasWords named word listed

/-! ## Lists of entries -/

/-- Names with blanks between them can be told apart. -/
theorem eq_of_spaced_eq {first second : List String} (named : ∀ word ∈ first, IsIdentifierName word)
    (alsoNamed : ∀ word ∈ second, IsIdentifierName word) (same : spaced first = spaced second) :
    first = second := by
  have free {words : List String} (named : ∀ word ∈ words, IsIdentifierName word) :
      ∀ part ∈ words.map String.toList, part ≠ [] ∧ ' ' ∉ part := by
    intro part member
    obtain ⟨word, listed, rfl⟩ := List.mem_map.mp member
    have isName := named word listed
    exact ⟨isName.toList_ne_nil, (Drawn.of_name isName).notMem (by decide) List.not_mem_nil⟩
  have parts : first.map String.toList = second.map String.toList :=
    intercalate_injective (free named) (free alsoNamed) same
  exact List.map_injective_iff.mpr (fun _ _ => String.toList_inj.mp) parts

/-- Names with blanks between them are drawn from names and blanks. -/
theorem drawn_spaced {words : List String} (named : ∀ word ∈ words, IsIdentifierName word) :
    Drawn [' '] (spaced words) := by
  refine Drawn.intercalate (fun c blank => .inr blank) fun part member => ?_
  obtain ⟨word, listed, rfl⟩ := List.mem_map.mp member
  exact (Drawn.of_name (named word listed)).mono (List.nil_subset _)

/-- Words are printed as some text, which tells them from no words. -/
theorem spaced_ne_nil {words : List String} (filled : words ≠ [])
    (named : ∀ word ∈ words, IsIdentifierName word) : spaced words ≠ [] := by
  cases words with
  | nil => exact absurd rfl filled
  | cons first rest =>
      have here := (named first List.mem_cons_self).toList_ne_nil
      cases rest with
      | nil => rwa [spaced_singleton]
      | cons second others => simp [spaced_cons_cons]

/-- The text of lists of words with commas between them. -/
def listed (entries : List (List String)) : List Char :=
  [',', ' '].intercalate (entries.map spaced)

/-- Entries of words that are identifier names, none of them without words. -/
def AreNamed (entries : List (List String)) : Prop :=
  ∀ words ∈ entries, words ≠ [] ∧ ∀ word ∈ words, IsIdentifierName word

/-- The entries of an export list consist of names when the names in them are ones. -/
theorem areNamed_export {entries : List ExportEntry}
    (named : ∀ name ∈ entries.flatMap ExportEntry.names, IsIdentifierName name) :
    AreNamed (entries.map ExportEntry.words) := by
  refine List.forall_mem_map.mpr fun entry inside => ⟨aliasWords_ne_nil _ _, ?_⟩
  exact isIdentifierName_of_mem_aliasWords fun name listed =>
    named name (List.mem_flatMap.mpr ⟨entry, inside, listed⟩)

/-- The entries of an import list consist of names when the names in them are ones. -/
theorem areNamed_import {entries : List ImportEntry}
    (named : ∀ name ∈ entries.flatMap ImportEntry.names, IsIdentifierName name) :
    AreNamed (entries.map ImportEntry.words) := by
  refine List.forall_mem_map.mpr fun entry inside => ⟨fun none => ?_, ?_⟩
  · exact aliasWords_ne_nil _ _ (List.append_eq_nil_iff.mp none).2
  · exact ImportEntry.isIdentifierName_of_mem_words fun name listed =>
      named name (List.mem_flatMap.mpr ⟨entry, inside, listed⟩)

/-- Lists of names with commas between them can be told apart. -/
theorem eq_of_listed_eq {first second : List (List String)} (named : AreNamed first)
    (alsoNamed : AreNamed second) (same : listed first = listed second) : first = second := by
  have free {entries : List (List String)} (named : AreNamed entries) :
      ∀ part ∈ entries.map spaced, part ≠ [] ∧ ',' ∉ part := by
    intro part member
    obtain ⟨words, inside, rfl⟩ := List.mem_map.mp member
    obtain ⟨filled, isName⟩ := named words inside
    exact ⟨spaced_ne_nil filled isName, (drawn_spaced isName).notMem (by decide) (by decide)⟩
  refine eq_of_map_eq (fun words inside other also => ?_)
    (intercalate_injective (free named) (free alsoNamed) same)
  exact eq_of_spaced_eq (named words inside).2 (alsoNamed other also).2

/-- A list is drawn from names, blanks and commas, so it holds no brace. -/
theorem drawn_listed {entries : List (List String)} (named : AreNamed entries) :
    Drawn [',', ' '] (listed entries) := by
  refine Drawn.intercalate (fun c mark => .inr mark) fun part member => ?_
  obtain ⟨words, inside, rfl⟩ := List.mem_map.mp member
  exact (drawn_spaced (named words inside).2).mono (by decide)

/-- A list between braces. -/
def braced (entries : List (List String)) : List Char :=
  '\x7b' :: ' ' :: (listed entries ++ [' ', '\x7d'])

/-- A list of names between braces shows where it ends. -/
theorem eq_of_braced_append {first second : List (List String)} {rest others : List Char}
    (named : AreNamed first) (alsoNamed : AreNamed second)
    (same : braced first ++ rest = braced second ++ others) : first = second ∧ rest = others := by
  have free {entries : List (List String)} (named : AreNamed entries) :
      '\x7d' ∉ listed entries ++ [' '] := by
    have blank : Drawn [',', ' '] [' '] := by decide
    exact ((drawn_listed named).append blank).notMem (by decide) (by decide)
  have spelled (entries : List (List String)) (behind : List Char) :
      braced entries ++ behind =
        ['\x7b', ' '] ++ ((listed entries ++ [' ']) ++ '\x7d' :: behind) := by
    simp [braced]
  rw [spelled, spelled] at same
  obtain ⟨lists, behind⟩ :=
    eq_of_append_mark (free named) (free alsoNamed) (List.append_cancel_left same)
  exact ⟨eq_of_listed_eq named alsoNamed (List.append_cancel_right lists), behind⟩

/-- The marks of a list between braces, and the blank. -/
def listMarks : List Char := [',', ' ', '\x7b', '\x7d']

/-- A list between braces is drawn from names and the marks of lists, so it ends where the braces do. -/
theorem drawn_braced {entries : List (List String)} (named : AreNamed entries) :
    Drawn listMarks (braced entries) := by
  have opening : Drawn listMarks ['\x7b', ' '] := by decide
  have closing : Drawn listMarks [' ', '\x7d'] := by decide
  exact opening.append (((drawn_listed named).mono (by decide)).append closing)

end BarrelSynthesis.Synthesis
