/-
# What names of assets keep

The words of a file name are made of its ASCII letters and digits, all of them and in order, and writing the words
in camel case changes letters only in case and adds underscores. So the name of an asset keeps the letters and
digits of the file name, unless the file name begins with a capital beyond ASCII: this capital is then put in the
place of the first letter or digit, and of these all but the first are kept.
-/
import BarrelSynthesis.Barrel.Asset

namespace BarrelSynthesis.Asset

open Text (isAsciiDigit isUpperCase)

/-- The ASCII letters and digits of a text, in order and in lower case. -/
def letters (text : List Char) : List Char :=
  (text.filter isWordCharacter).map Char.toLower

/-- The letters of a text are those of its parts, one after the other. -/
theorem letters_append (first second : List Char) :
    letters (first ++ second) = letters first ++ letters second := by
  rw [letters, List.filter_append, List.map_append]
  rfl

theorem letters_cons_of_word {c : Char} (word : isWordCharacter c = true) (rest : List Char) :
    letters (c :: rest) = c.toLower :: letters rest := by
  rw [letters, List.filter_cons_of_pos word, List.map_cons]
  rfl

/-- A character that separates words leaves no letter. -/
theorem letters_cons_of_other {c : Char} (other : isWordCharacter c = false) (rest : List Char) :
    letters (c :: rest) = letters rest := by
  rw [letters, List.filter_cons_of_neg (Bool.eq_false_iff.mp other)]
  rfl

/-! ## Cases of letters -/

/-- The letters and digits that words consist of are ASCII characters. -/
theorem toNat_lt_of_isWordCharacter {c : Char} (word : isWordCharacter c = true) : c.toNat < 128 := by
  simp only [isWordCharacter, Text.isAsciiLetter, isAsciiDigit, Bool.or_eq_true, Bool.and_eq_true,
    decide_eq_true_eq, Char.le_def, UInt32.le_iff_toNat_le] at word
  change ((97 ≤ c.toNat ∧ c.toNat ≤ 122) ∨ 65 ≤ c.toNat ∧ c.toNat ≤ 90) ∨
    48 ≤ c.toNat ∧ c.toNat ≤ 57 at word
  omega

/-- In another case a word character is one still, and it is the same one in lower case. -/
theorem recased_of_isWordCharacter {c : Char} (word : isWordCharacter c = true) :
    isWordCharacter c.toLower = true ∧ isWordCharacter c.toUpper = true ∧
      c.toLower.toLower = c.toLower ∧ c.toUpper.toLower = c.toLower := by
  have all : ∀ code < 128, isWordCharacter (Char.ofNat code) = true →
      let c := Char.ofNat code
      isWordCharacter c.toLower = true ∧ isWordCharacter c.toUpper = true ∧
        c.toLower.toLower = c.toLower ∧ c.toUpper.toLower = c.toLower := by
    decide
  have same : Char.ofNat c.toNat = c := Char.ofNat_toNat c
  simpa [same] using all c.toNat (toNat_lt_of_isWordCharacter word) (same.symm ▸ word)

/-- Putting a word into lower case loses no letter, as letters are compared in lower case. -/
theorem letters_map_toLower {word : List Char} (whole : ∀ c ∈ word, isWordCharacter c = true) :
    letters (word.map Char.toLower) = letters word := by
  induction word with
  | nil => rfl
  | cons c rest ih =>
      obtain ⟨own, others⟩ := List.forall_mem_cons.mp whole
      obtain ⟨lower, -, twice, -⟩ := recased_of_isWordCharacter own
      rw [List.map_cons, letters_cons_of_word lower, letters_cons_of_word own, ih others, twice]

/-! ## Words -/

/-- A character that separates words ends a stretch and is part of none. -/
theorem stretches_of_other {c : Char} (other : isWordCharacter c = false) (rest : List Char) :
    stretches (c :: rest) = [] :: stretches rest := by
  rw [stretches.eq_def]
  exact if_neg (Bool.eq_false_iff.mp other)

theorem stretches_ne_nil (text : List Char) : stretches text ≠ [] := by
  rw [stretches.eq_def]
  split
  · exact List.cons_ne_nil _ _
  split
  · split
    · split <;> exact List.cons_ne_nil _ _
    · exact List.cons_ne_nil _ _
    · exact List.cons_ne_nil _ _
  · exact List.cons_ne_nil _ _

/-- A letter or a digit is a stretch of its own, or goes on with the one behind it. -/
theorem stretches_of_word {c : Char} (word : isWordCharacter c = true) (rest : List Char) :
    ∃ first others, stretches rest = first :: others ∧
      (stretches (c :: rest) = [c] :: first :: others ∨
        stretches (c :: rest) = (c :: first) :: others) := by
  obtain ⟨first, others, found⟩ := List.exists_cons_of_ne_nil (stretches_ne_nil rest)
  refine ⟨first, others, found, ?_⟩
  rw [stretches.eq_def]
  simp only [word, if_true, found]
  cases rest with
  | nil => exact .inr rfl
  | cons next after =>
      by_cases parts : breaksBetween c next after = true
      · exact .inl (if_pos parts)
      · exact .inr (if_neg parts)

/-- The stretches hold all letters and digits in order, and nothing else. -/
theorem flatten_stretches (text : List Char) :
    (stretches text).flatten = text.filter isWordCharacter := by
  induction text with
  | nil => rfl
  | cons c rest ih =>
      cases word : isWordCharacter c with
      | false => rw [stretches_of_other word, List.flatten_cons, ih, List.filter_cons_of_neg (by simp [word])]; rfl
      | true =>
          obtain ⟨first, others, found, shape | shape⟩ := stretches_of_word word rest
          · rw [shape, ← found, List.flatten_cons, ih, List.filter_cons_of_pos word]
            rfl
          · rw [shape, List.flatten_cons, List.cons_append, ← List.flatten_cons, ← found, ih,
              List.filter_cons_of_pos word]

/-- The words of a text together hold its word characters, in order. -/
theorem flatten_words (text : List Char) : (words text).flatten = text.filter isWordCharacter := by
  rw [words, List.flatten_filter_not_isEmpty, flatten_stretches]

/-- A word holds nothing but word characters. -/
theorem isWordCharacter_of_mem_words {text word : List Char} (listed : word ∈ words text) {c : Char}
    (member : c ∈ word) : isWordCharacter c = true := by
  have inside : c ∈ (words text).flatten := List.mem_flatten.mpr ⟨word, listed, member⟩
  rw [flatten_words] at inside
  exact (List.mem_filter.mp inside).2

/-- Empty stretches are no words. -/
theorem ne_nil_of_mem_words {text word : List Char} (listed : word ∈ words text) : word ≠ [] := by
  simpa using (List.mem_filter.mp listed).2

/-! ## Camel case -/

/-- A later word has the letters of the word: an underscore is none, and neither is a change of case. -/
theorem letters_laterWord {word : List Char} (whole : ∀ c ∈ word, isWordCharacter c = true) :
    letters (laterWord word) = letters word := by
  have underscore : isWordCharacter '_' = false := by decide
  cases word with
  | nil => rfl
  | cons c rest =>
      obtain ⟨own, others⟩ := List.forall_mem_cons.mp whole
      obtain ⟨-, upper, -, same⟩ := recased_of_isWordCharacter own
      have recased : letters (c.toUpper :: rest.map Char.toLower) = letters (c :: rest) := by
        rw [letters_cons_of_word upper, letters_cons_of_word own, letters_map_toLower others, same]
      rw [laterWord]
      split
      · rw [List.singleton_append, letters_cons_of_other underscore, recased]
      · rw [List.nil_append, recased]

/-- Camel case keeps the letters and digits of the words. -/
theorem letters_camelCase {list : List (List Char)}
    (whole : ∀ word ∈ list, ∀ c ∈ word, isWordCharacter c = true) :
    letters (camelCase list) = letters list.flatten := by
  have later : ∀ {list : List (List Char)}, (∀ word ∈ list, ∀ c ∈ word, isWordCharacter c = true) →
      letters (list.flatMap laterWord) = letters list.flatten := by
    intro list whole
    induction list with
    | nil => rfl
    | cons word rest ih =>
        obtain ⟨own, others⟩ := List.forall_mem_cons.mp whole
        rw [List.flatMap_cons, List.flatten_cons, letters_append, letters_append, letters_laterWord own,
          ih others]
  cases list with
  | nil => rfl
  | cons first rest =>
      obtain ⟨own, others⟩ := List.forall_mem_cons.mp whole
      rw [camelCase, List.flatten_cons, letters_append, letters_append, letters_map_toLower own,
        later others]

/-- Joining words in camel case loses no letter. -/
theorem letters_camelCase_words (text : List Char) :
    letters (camelCase (words text)) = letters text := by
  rw [letters_camelCase fun word listed c member => isWordCharacter_of_mem_words listed member,
    flatten_words, letters, letters, List.filter_filter]
  simp

/-- A name that begins with a letter or a digit does so in camel case. -/
theorem exists_camelCase_words_of_word {c : Char} (word : isWordCharacter c = true) (rest : List Char) :
    ∃ more, camelCase (words (c :: rest)) = c.toLower :: more := by
  obtain ⟨first, others, -, shape | shape⟩ := stretches_of_word word rest
  · exact ⟨_, by rw [words, shape]; rfl⟩
  · exact ⟨_, by rw [words, shape]; rfl⟩

/-- A character of a name that is not its capital. -/
def IsPlain (c : Char) : Prop :=
  isWordCharacter c = true ∨ c = '_'

/-- A word in lower case has no capital. -/
theorem isPlain_of_mem_map_toLower {word : List Char} (whole : ∀ c ∈ word, isWordCharacter c = true)
    {c : Char} (member : c ∈ word.map Char.toLower) : IsPlain c := by
  obtain ⟨d, listed, rfl⟩ := List.mem_map.mp member
  exact .inl (recased_of_isWordCharacter (whole d listed)).1

/-- Behind its first character, a later word has no capital; before it there is an underscore at most. -/
theorem isPlain_of_mem_laterWord {word : List Char} (whole : ∀ c ∈ word, isWordCharacter c = true)
    {c : Char} (member : c ∈ laterWord word) : IsPlain c := by
  cases word with
  | nil => cases member
  | cons first rest =>
      obtain ⟨own, others⟩ := List.forall_mem_cons.mp whole
      rcases List.mem_append.mp member with before | behind
      · split at before
        · exact .inr (List.mem_singleton.mp before)
        · cases before
      rcases List.mem_cons.mp behind with rfl | later
      · exact .inl (recased_of_isWordCharacter own).2.1
      · exact isPlain_of_mem_map_toLower others later

/-- What is joined from words holds word characters and underscores only. -/
theorem isPlain_of_mem_camelCase_words {text : List Char} {c : Char}
    (member : c ∈ camelCase (words text)) : IsPlain c := by
  have whole (word : List Char) (listed : word ∈ words text) :
      ∀ c ∈ word, isWordCharacter c = true := fun _ => isWordCharacter_of_mem_words listed
  cases found : words text with
  | nil =>
      rw [found] at member
      cases member
  | cons first rest =>
      rw [found] at member whole
      obtain ⟨own, others⟩ := List.forall_mem_cons.mp whole
      rcases List.mem_append.mp member with before | behind
      · exact isPlain_of_mem_map_toLower own before
      · obtain ⟨word, listed, inside⟩ := List.mem_flatMap.mp behind
        exact isPlain_of_mem_laterWord (others word listed) inside

/-- Camel case begins with a letter or a digit. -/
theorem isWordCharacter_of_camelCase_words {text : List Char} {c : Char} {rest : List Char}
    (shape : camelCase (words text) = c :: rest) : isWordCharacter c = true := by
  cases found : words text with
  | nil =>
      rw [found] at shape
      cases shape
  | cons first others =>
      have listed : first ∈ words text := found ▸ List.mem_cons_self
      obtain ⟨d, more, rfl⟩ := List.exists_cons_of_ne_nil (ne_nil_of_mem_words listed)
      rw [found] at shape
      obtain ⟨rfl, -⟩ := List.cons.inj shape
      exact (recased_of_isWordCharacter (isWordCharacter_of_mem_words listed List.mem_cons_self)).1

/-! ## Identifiers -/

/-- Whether a text begins with an upper-case letter beyond ASCII. -/
def beginsForeign (text : List Char) : Bool :=
  (text.head?.map fun c => isUpperCase c && !isWordCharacter c).getD false

/-- The capital that is kept stands in the place of the first letter or digit. -/
theorem letters_keepCapital (text : List Char) :
    letters (keepCapital text (camelCase (words text))) =
      if beginsForeign text then (letters text).tail else letters text := by
  have kept := letters_camelCase_words text
  cases text with
  | nil => rfl
  | cons first rest =>
      cases camel : camelCase (words (first :: rest)) with
      | nil =>
          have none : keepCapital (first :: rest) [] = [] := rfl
          rw [camel] at kept
          rw [none, ← kept]
          split <;> rfl
      | cons c more =>
          have own := isWordCharacter_of_camelCase_words camel
          rw [camel] at kept
          rw [keepCapital, ← kept, letters_cons_of_word own]
          cases upper : isUpperCase first with
          | false => simp [beginsForeign, upper, letters_cons_of_word own]
          | true =>
              cases word : isWordCharacter first with
              | false => simp [beginsForeign, upper, word, letters_cons_of_other word]
              | true =>
                  obtain ⟨behind, shape⟩ := exists_camelCase_words_of_word word rest
                  obtain ⟨rfl, -⟩ := List.cons.inj (camel.symm.trans shape)
                  have twice := (recased_of_isWordCharacter word).2.2.1
                  simp [beginsForeign, upper, word, letters_cons_of_word word, twice]

/-- An identifier has the letters of the file name, but for the first one where a capital beyond ASCII took
its place. -/
theorem letters_identifier (fileName : String) :
    letters (identifier fileName).toList =
      if beginsForeign fileName.toList then (letters fileName.toList).tail
      else letters fileName.toList := by
  rw [identifier, String.toList_ofList, ← letters_keepCapital]
  split
  · exact letters_cons_of_other (by decide) _
  · rfl

/-- Behind the first character only letters, digits and underscores stand. -/
theorem keepCapital_plain (text : List Char) :
    (∀ c, (keepCapital text (camelCase (words text))).head? = some c →
        IsPlain c ∨ text.head? = some c) ∧
      ∀ c ∈ (keepCapital text (camelCase (words text))).tail, IsPlain c := by
  have plain : ∀ c ∈ camelCase (words text), IsPlain c := fun _ => isPlain_of_mem_camelCase_words
  have whole : (∀ c, (camelCase (words text)).head? = some c → IsPlain c ∨ text.head? = some c) ∧
      ∀ c ∈ (camelCase (words text)).tail, IsPlain c :=
    ⟨fun c head => .inl (plain c (List.mem_of_head? head)), fun c member =>
      plain c (List.mem_of_mem_tail member)⟩
  rw [keepCapital.eq_def]
  split
  · next first before c more shape =>
      split
      · rw [shape] at plain
        refine ⟨fun d head => .inr head, fun d member => plain d (List.mem_cons_of_mem _ member)⟩
      · exact shape ▸ whole
  · exact whole

/-- The name of an asset keeps the ASCII letters and digits of the file name, in order and up to case, exactly when
there are none or the file name does not begin with a capital beyond ASCII. Whatever the file name, its
identifier does not begin with a digit, and all its characters are ASCII letters, digits and underscores, but for
the first one, which can be that of the file name. -/
theorem identifier_keeps_letters_iff (fileName : String) :
    (letters (identifier fileName).toList = letters fileName.toList ↔
        beginsForeign fileName.toList = false ∨ letters fileName.toList = []) ∧
      (∀ c, (identifier fileName).toList.head? = some c →
        isAsciiDigit c = false ∧ (IsPlain c ∨ fileName.toList.head? = some c)) ∧
      ∀ c ∈ (identifier fileName).toList.tail, IsPlain c := by
  refine ⟨?_, ?_⟩
  · rw [letters_identifier]
    cases beginsForeign fileName.toList with
    | false => simp
    | true =>
        simp only [if_true, Bool.true_eq_false, false_or]
        cases letters fileName.toList with
        | nil => simp
        | cons c rest => simp
  obtain ⟨first, later⟩ := keepCapital_plain fileName.toList
  rw [identifier, String.toList_ofList]
  cases shape : keepCapital fileName.toList (camelCase (words fileName.toList)) with
  | nil => simp
  | cons d rest =>
      rw [shape] at first later
      by_cases digit : isAsciiDigit d = true
      · rw [List.head?_cons, Option.map_some, Option.getD_some, if_pos digit]
        refine ⟨fun c head => ?_, fun c member => ?_⟩
        · obtain rfl := Option.some.inj head
          exact ⟨by decide, .inl (.inr rfl)⟩
        · rcases List.mem_cons.mp member with rfl | behind
          · exact .inl (by rw [isWordCharacter, digit, Bool.or_true])
          · exact later c behind
      · rw [List.head?_cons, Option.map_some, Option.getD_some, if_neg digit]
        refine ⟨fun c head => ?_, later⟩
        obtain rfl := Option.some.inj head
        exact ⟨Bool.eq_false_iff.mpr digit, first _ rfl⟩

/-- The capital stands where the first letter was, which is lost. -/
theorem identifier_of_foreign_capital_loses_letter :
    (identifier "Éa").toList = ['É'] ∧ letters (identifier "Éa").toList = [] ∧
      letters "Éa".toList = ['a'] := by
  decide

end BarrelSynthesis.Asset
