/-
# Identifier names

The words that may name an export without quotes: a character that begins identifiers, and behind it
characters that continue them. Nothing that separates words, entries or statements in a printed module is such
a character, so a text that is drawn from names and a few other characters shows where it ends.
-/
import BarrelSynthesis.Text.Letter

namespace BarrelSynthesis.Text

/-- Whether a text is an identifier name as it stands, without escapes. -/
def isIdentifierName : List Char → Bool
  | [] => false
  | c :: rest => isIdentifierStart c && rest.all isIdentifierPart

/-- A name that needs no quotes. -/
def IsIdentifierName (name : String) : Prop :=
  isIdentifierName name.toList = true

instance (name : String) : Decidable (IsIdentifierName name) :=
  inferInstanceAs (Decidable (isIdentifierName name.toList = true))

/-- A name may go on with every character that it may begin with. -/
theorem isIdentifierPart_of_isIdentifierStart {c : Char} (starts : isIdentifierStart c = true) :
    isIdentifierPart c = true := by
  unfold isIdentifierStart at starts
  unfold isIdentifierPart
  split at starts
  · next ascii =>
      rw [if_pos ascii]
      simp only [Bool.or_eq_true] at starts ⊢
      rcases starts with (letter | underscore) | dollar
      · exact .inl (.inl (.inl letter))
      · exact .inl (.inr underscore)
      · exact .inr dollar
  · next beyond =>
      rw [if_neg beyond, starts, Bool.true_or]

/-- An identifier name is never empty: its first character begins identifiers, and the others continue them.
-/
theorem isIdentifierName_iff {text : List Char} :
    isIdentifierName text = true ↔
      ∃ c rest, text = c :: rest ∧ isIdentifierStart c = true ∧
        ∀ other ∈ rest, isIdentifierPart other = true := by
  cases text with
  | nil =>
      constructor
      · intro named
        cases named
      · rintro ⟨_, _, spelled, -⟩
        cases spelled
  | cons c rest =>
      rw [isIdentifierName, Bool.and_eq_true, List.all_eq_true]
      constructor
      · exact fun named => ⟨c, rest, rfl, named⟩
      · rintro ⟨first, others, spelled, named⟩
        obtain ⟨rfl, rfl⟩ := List.cons.inj spelled
        exact named

/-! ## Texts drawn from names -/

/-- A text whose characters stand in identifiers, but for some marks. -/
def Drawn (marks text : List Char) : Prop :=
  ∀ c ∈ text, isIdentifierPart c = true ∨ c ∈ marks

instance (marks text : List Char) : Decidable (Drawn marks text) :=
  List.decidableBAll (fun c => isIdentifierPart c = true ∨ c ∈ marks) text

namespace Drawn

variable {marks first second : List Char}

theorem nil : Drawn marks [] := fun _ absent => absurd absent List.not_mem_nil

/-- A name needs no marks besides its own characters. -/
theorem of_name {name : String} (named : IsIdentifierName name) : Drawn [] name.toList := by
  obtain ⟨c, rest, spelled, starts, continues⟩ := isIdentifierName_iff.mp named
  rw [spelled]
  intro other member
  rcases List.mem_cons.mp member with rfl | later
  · exact .inl (isIdentifierPart_of_isIdentifierStart starts)
  · exact .inl (continues other later)

/-- A text stays drawn when more marks are allowed. -/
theorem mono {more : List Char} (drawn : Drawn marks first) (kept : marks ⊆ more) :
    Drawn more first := fun c member => (drawn c member).imp_right fun mark => kept mark

/-- Two drawn texts make up a drawn text. -/
theorem append (front : Drawn marks first) (behind : Drawn marks second) :
    Drawn marks (first ++ second) := fun c member =>
  (List.mem_append.mp member).elim (front c) (behind c)

/-- A list of drawn texts is drawn with what stands between them, as an export list is with its commas. -/
theorem intercalate {separator : List Char} {parts : List (List Char)}
    (between : Drawn marks separator) (drawn : ∀ part ∈ parts, Drawn marks part) :
    Drawn marks (separator.intercalate parts) := by
  induction parts with
  | nil => exact nil
  | cons part rest ih =>
      obtain ⟨here, later⟩ := List.forall_mem_cons.mp drawn
      cases rest with
      | nil => rwa [List.intercalate_singleton]
      | cons second others =>
          rw [List.intercalate_cons_cons]
          exact (here.append between).append (ih later)

/-- A mark that no identifier holds and that is not allowed ends a drawn text, because it does not occur in
it. -/
theorem notMem {mark : Char} (drawn : Drawn marks first) (outside : isIdentifierPart mark = false)
    (other : mark ∉ marks) : mark ∉ first := fun member => by
  rcases drawn mark member with part | listed
  · rw [outside] at part
    cases part
  · exact other listed

end Drawn

/-- A name has a first character, which tells a list of names from an empty one. -/
theorem IsIdentifierName.toList_ne_nil {name : String} (named : IsIdentifierName name) :
    name.toList ≠ [] := by
  obtain ⟨c, rest, spelled, -⟩ := isIdentifierName_iff.mp named
  rw [spelled]
  exact List.cons_ne_nil _ _

end BarrelSynthesis.Text
