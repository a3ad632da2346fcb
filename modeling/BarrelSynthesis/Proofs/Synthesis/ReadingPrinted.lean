/-
# Reading what was printed

Exports are printed as tokens with blanks and line breaks between them, and the tokens are those of the
exports, unless a name is no identifier name or a module specifier holds a raw line break. A token is read alike
whatever stands behind it, except for a name, which must not go on. So a printed module is read from its front,
token by token, and then from the front of its tokens, declaration by declaration. Reading the declarations stops
at the first one that asserts a kind, because the grammar states a kind by another word.
-/
import BarrelSynthesis.Proofs.Synthesis.ReadingCost

namespace BarrelSynthesis.Synthesis.Reading

open Text

/-! ## Reading on -/

section

variable {σ α : Type} {read : List σ → Option (α × List σ)} {text rest : List σ} {value : α}

/-- What is read first stands in front of what is read from the rest. -/
theorem many_of_some (found : read text = some (value, rest)) (shorter : rest.length < text.length) :
    many read text = (value :: (many read rest).1, (many read rest).2) := by
  rw [many, found]
  exact if_pos shorter

/-- Reading ends where nothing is read. -/
theorem many_of_none (refused : read text = none) : many read text = ([], text) := by
  rw [many, refused]

/-- Pieces that are read whatever stands behind them are read one after the other. -/
theorem many_flatMap {β : Type} {spell : β → List σ} {worth : β → α} {pieces : List β}
    (reads : ∀ piece ∈ pieces, ∀ rest, read (spell piece ++ rest) = some (worth piece, rest))
    (filled : ∀ piece ∈ pieces, spell piece ≠ []) :
    many read (pieces.flatMap spell ++ rest) =
      (pieces.map worth ++ (many read rest).1, (many read rest).2) := by
  induction pieces with
  | nil => rfl
  | cons piece more ih =>
      obtain ⟨readsHere, readsLater⟩ := List.forall_mem_cons.mp reads
      obtain ⟨filledHere, filledLater⟩ := List.forall_mem_cons.mp filled
      rw [List.flatMap_cons, List.append_assoc, many_of_some (readsHere _) ?_, ih readsLater filledLater]
      · rfl
      · simpa [List.length_pos_iff] using filledHere

end

/-! ## Names -/

/-- A name does not go on here. -/
def StopsName (rest : List Char) : Prop :=
  ∀ c ∈ rest.head?, isIdentifierPart c = false ∧ c ≠ '\\'

/-- A character outside of names ends a name, if it begins no escape. -/
theorem stopsName_cons {c : Char} {rest : List Char} (outside : isIdentifierPart c = false)
    (plain : c ≠ '\\') : StopsName (c :: rest) := by
  intro other here
  cases here
  exact ⟨outside, plain⟩

theorem stopsName_blank (rest : List Char) : StopsName (' ' :: rest) :=
  stopsName_cons (by decide) (by decide)

/-- A backslash is no part of a name, as it would begin an escape. -/
theorem ne_backslash_of_isIdentifierPart {c : Char} (part : isIdentifierPart c = true) :
    c ≠ '\\' := fun same => by
  rw [same] at part
  exact absurd part (by decide)

/-- A character that is allowed is read as it is. -/
theorem nameCharacter?_of_plain {allowed : Char → Bool} {c : Char} {rest : List Char}
    (fits : allowed c = true) (plain : c ≠ '\\') :
    nameCharacter? allowed (c :: rest) = some ((c, false), rest) := by
  rw [nameCharacter?.eq_2 allowed c rest (fun _ same => absurd same plain), if_pos fits]

/-- Where a name stops, no character of a name is read. -/
theorem nameCharacter?_of_stopsName {rest : List Char} (stops : StopsName rest) :
    nameCharacter? isIdentifierPart rest = none := by
  cases rest with
  | nil => rfl
  | cons c rest =>
      obtain ⟨outside, plain⟩ := stops c rfl
      rw [nameCharacter?.eq_2 _ c rest (fun _ same => absurd same plain), outside]
      rfl

/-- A name is read whole, and nothing behind it. -/
theorem name?_append {name rest : List Char} (named : isIdentifierName name = true)
    (stops : StopsName rest) : name? (name ++ rest) = some ((name, false), rest) := by
  obtain ⟨c, others, rfl, starts, continues⟩ := isIdentifierName_iff.mp named
  have plain := ne_backslash_of_isIdentifierPart (isIdentifierPart_of_isIdentifierStart starts)
  have behind : many (nameCharacter? isIdentifierPart) (others ++ rest) =
      (others.map fun other => (other, false), rest) := by
    have each : ∀ other ∈ others, ∀ rest,
        nameCharacter? isIdentifierPart ([other] ++ rest) = some ((other, false), rest) :=
      fun other listed _ => nameCharacter?_of_plain (continues other listed)
        (ne_backslash_of_isIdentifierPart (continues other listed))
    have pieces := @many_flatMap _ _ _ rest _ _ _ _ each fun _ _ => List.cons_ne_nil _ _
    rw [many_of_none (nameCharacter?_of_stopsName stops), List.flatMap_singleton'] at pieces
    rw [pieces, List.append_nil]
  rw [List.cons_append, name?, nameCharacter?_of_plain starts plain, Option.map_some]
  simp [behind, Function.comp_def]

/-! ## Literals -/

/-- A text that stands in a string literal as it is, quotes and backslashes aside. -/
def OneLine (text : List Char) : Prop :=
  '\n' ∉ text ∧ '\r' ∉ text

/-- A literal without halves of pairs stands for its characters. -/
theorem wholeText?_map_char (text : List Char) : wholeText? (text.map .char) = some text := by
  induction text with
  | nil => rfl
  | cons c rest ih => rw [List.map_cons, wholeText?, ih, Option.map_some]

/-- How a character is written between double quotes. -/
def escaped (c : Char) : List Char :=
  if c = '"' ∨ c = '\\' then ['\\', c] else [c]

theorem escaped_ne_nil (c : Char) : escaped c ≠ [] := by
  rw [escaped]
  split <;> exact List.cons_ne_nil _ _

/-- A text is written between quotes character by character. -/
theorem escape_eq_flatMap (text : List Char) : escape '"' text = text.flatMap escaped := by
  induction text with
  | nil => rfl
  | cons c rest ih =>
      rw [escape, List.flatMap_cons, ← ih, escaped]
      split <;> rfl

/-- A written character is read back, and no more than it. -/
theorem literalPiece?_escaped {c : Char} (clean : c ≠ '\n' ∧ c ≠ '\r') (rest : List Char) :
    literalPiece? '"' (escaped c ++ rest) = some ([.char c], rest) := by
  rw [escaped]
  split
  · next special => rcases special with rfl | rfl <;> rfl
  · next plain =>
      obtain ⟨notQuote, notBackslash⟩ := not_or.mp plain
      rw [List.singleton_append, literalPiece?.eq_2 '"' c rest notBackslash,
        if_neg (by simp [notQuote, clean])]

/-- A raw line break is no piece of a literal. -/
theorem literalPiece?_lineBreak {c : Char} (lineBreak : c = '\n' ∨ c = '\r') (rest : List Char) :
    literalPiece? '"' (escaped c ++ rest) = none := by
  rcases lineBreak with rfl | rfl <;> rfl

/-- A text in one line is read back from between its quotes. -/
theorem literal?_escape {text : List Char} (clean : OneLine text) (rest : List Char) :
    literal? '"' (escape '"' text ++ '"' :: rest) = some (text, rest) := by
  have each : ∀ c ∈ text, c ≠ '\n' ∧ c ≠ '\r' := fun c listed =>
    ⟨fun same => clean.1 (same ▸ listed), fun same => clean.2 (same ▸ listed)⟩
  have pieces : many (literalPiece? '"') (escape '"' text ++ '"' :: rest) =
      (text.map fun c => [.char c], '"' :: rest) := by
    have stops : many (literalPiece? '"') ('"' :: rest) = ([], '"' :: rest) := many_of_none rfl
    rw [escape_eq_flatMap, many_flatMap (fun c listed => literalPiece?_escaped (each c listed))
      (fun c _ => escaped_ne_nil c), stops, List.append_nil]
  rw [literal?]
  simp only [pieces, if_true]
  rw [show (text.map fun c => [Source.Unit16.char c]).flatten = text.map .char from
    List.flatMap_pure_eq_map _ _, wholeText?_map_char, Option.map_some]

/-- A raw line break ends no literal, and no literal goes on behind it. -/
theorem literal?_escape_lineBreak {text : List Char} (broken : ¬ OneLine text) (rest : List Char) :
    literal? '"' (escape '"' text ++ rest) = none := by
  have stuck : ∃ c behind, (many (literalPiece? '"') (escape '"' text ++ rest)).2 = c :: behind ∧
      c ≠ '"' := by
    induction text with
    | nil => exact absurd ⟨List.not_mem_nil, List.not_mem_nil⟩ broken
    | cons c more ih =>
        rw [escape_eq_flatMap, List.flatMap_cons, ← escape_eq_flatMap, List.append_assoc]
        by_cases lineBreak : c = '\n' ∨ c = '\r'
        · rw [many_of_none (literalPiece?_lineBreak lineBreak _)]
          rcases lineBreak with rfl | rfl
          · exact ⟨'\n', _, rfl, by decide⟩
          · exact ⟨'\r', _, rfl, by decide⟩
        · have clean := not_or.mp lineBreak
          rw [many_of_some (literalPiece?_escaped clean _) (by simp [List.length_pos_iff, escaped_ne_nil])]
          exact ih fun ⟨noFeed, noReturn⟩ => broken
            ⟨List.not_mem_cons_of_ne_of_not_mem (Ne.symm clean.1) noFeed,
              List.not_mem_cons_of_ne_of_not_mem (Ne.symm clean.2) noReturn⟩
  obtain ⟨c, behind, left, other⟩ := stuck
  rw [literal?]
  simp only [left, if_neg other]

/-! ## Tokens -/

/-- The tokens that are read one after the other from the front of a text, and what is left behind them. -/
inductive Lexes : List Char → List Lexeme → List Char → Prop
  | nil (text : List Char) : Lexes text [] text
  | cons {text behind rest : List Char} {lexeme : Lexeme} {found : List Lexeme}
      (read : lexeme? text = some (lexeme, behind)) (shorter : behind.length < text.length)
      (later : Lexes behind found rest) : Lexes text (lexeme :: found) rest

namespace Lexes

variable {text behind rest : List Char} {found more : List Lexeme}

/-- Tokens that are read from what others leave are read behind them. -/
theorem append (front : Lexes text found behind) (later : Lexes behind more rest) :
    Lexes text (found ++ more) rest := by
  induction front with
  | nil => exact later
  | cons read shorter _ ih => exact .cons read shorter (ih later)

/-- All tokens of a text are those at its front and those of what they leave. -/
theorem many_eq (lexes : Lexes text found rest) :
    many lexeme? text = (found ++ (many lexeme? rest).1, (many lexeme? rest).2) := by
  induction lexes with
  | nil => rfl
  | cons read shorter _ ih => rw [many_of_some read shorter, ih, List.cons_append]

/-- Where reading is stuck behind some tokens, these are all there are. -/
theorem many_eq_of_none (lexes : Lexes text found rest) (stuck : lexeme? rest = none) :
    many lexeme? text = (found, rest) := by
  rw [lexes.many_eq, many_of_none stuck, List.append_nil]

/-- A blank may stand before a token. -/
theorem blank (lexes : Lexes text found rest) (filled : found ≠ []) :
    Lexes (' ' :: text) found rest := by
  cases lexes with
  | nil => exact absurd rfl filled
  | cons read shorter later =>
      have skipped : lexeme? (' ' :: text) = lexeme? text := rfl
      exact .cons (skipped.trans read) (Nat.lt_succ_of_lt shorter) later

end Lexes

/-- A token on the line of the token before it. -/
def here (token : Token) : Lexeme :=
  ⟨false, token⟩

/-- The token of a name. -/
def word (text : String) : Lexeme :=
  here (.name text false)

/-- A line end where a token is told to stand on a new line. -/
def lineStart (newLine : Bool) : List Char :=
  if newLine then ['\n'] else []

/-- A token that is read where a gap ends. -/
theorem Lexes.of_token? {newLine : Bool} {text rest : List Char} {token : Token}
    (ends : skipGap .blanks newLine text = some (newLine, text))
    (read : token? text = some (token, rest)) (shorter : rest.length < text.length) :
    Lexes (lineStart newLine ++ text) [⟨newLine, token⟩] rest := by
  have skipped : skipGap .blanks false (lineStart newLine ++ text) = skipGap .blanks newLine text := by
    cases newLine <;> rfl
  have lexeme : lexeme? (lineStart newLine ++ text) = some (⟨newLine, token⟩, rest) := by
    rw [lexeme?, skipped, ends, Option.bind_some]
    dsimp only
    rw [read, Option.map_some]
  refine .cons lexeme (shorter.trans_le ?_) (.nil rest)
  rw [List.length_append]
  exact Nat.le_add_left _ _

/-- A punctuator is read as one, whatever stands behind it. -/
theorem lexes_mark {c : Char} (mark : c ∈ marks) (rest : List Char) :
    Lexes (c :: rest) [here (.mark c)] rest := by
  have token : skipGap .blanks false (c :: rest) = some (false, c :: rest) ∧
      token? (c :: rest) = some (.mark c, rest) := by
    simp only [marks, List.mem_cons, List.not_mem_nil, or_false] at mark
    rcases mark with rfl | rfl | rfl | rfl | rfl <;> exact ⟨rfl, rfl⟩
  exact .of_token? token.1 token.2 (Nat.lt_succ_self _)

/-- A name is read as one, behind the end of a line or not, if it stops there. -/
theorem lexes_word_line {name : String} (named : IsIdentifierName name) (newLine : Bool)
    {rest : List Char} (stops : StopsName rest) :
    Lexes (lineStart newLine ++ (name.toList ++ rest)) [⟨newLine, .name name false⟩] rest := by
  obtain ⟨c, others, spelled, starts, -⟩ := isIdentifierName_iff.mp named
  have differs {sign : Char} (outside : isIdentifierStart sign = false) : c ≠ sign := fun same => by
    rw [same, outside] at starts
    cases starts
  have ends : skipGap .blanks newLine (c :: (others ++ rest)) = some (newLine, c :: (others ++ rest)) := by
    have noComment : c ≠ '/' := differs rfl
    rw [skipGap.eq_3 _ c _ (fun _ same => absurd same noComment) fun _ same => absurd same noComment,
      if_pos starts]
  have unquoted : ¬ (c = '"' ∨ c = '\'') := not_or.mpr ⟨differs rfl, differs rfl⟩
  have unmarked : c ∉ marks := fun mark => by
    simp only [marks, List.mem_cons, List.not_mem_nil, or_false] at mark
    rcases mark with rfl | rfl | rfl | rfl | rfl <;> exact absurd starts (by decide)
  have read : token? (c :: (others ++ rest)) = some (.name name false, rest) := by
    rw [token?, if_neg unquoted, if_neg unmarked, ← List.cons_append, ← spelled,
      name?_append named stops, Option.map_some]
    dsimp only
    rw [String.ofList_toList]
  rw [spelled, List.cons_append]
  exact .of_token? ends read (by simp only [List.length_cons, List.length_append]; omega)

theorem lexes_word {name : String} (named : IsIdentifierName name) {rest : List Char}
    (stops : StopsName rest) : Lexes (name.toList ++ rest) [word name] rest :=
  lexes_word_line named false stops

/-- A module specifier in one line is read as the literal that it was written as. -/
theorem lexes_quoted {value : String} (clean : OneLine value.toList) (rest : List Char) :
    Lexes ('"' :: (escape '"' value.toList ++ '"' :: rest)) [here (.literal value)] rest := by
  have read : token? ('"' :: (escape '"' value.toList ++ '"' :: rest)) =
      some (.literal value, rest) := by
    rw [token?, if_pos (.inl rfl), literal?_escape clean, Option.map_some]
    dsimp only
    rw [String.ofList_toList]
  exact @Lexes.of_token? false _ _ _ rfl read
    (by simp only [List.length_cons, List.length_append]; omega)

/-! ## The tokens of an export -/

/-- Words with blanks between them are read one after the other. -/
theorem lexes_spaced {words : List String} (named : ∀ word ∈ words, IsIdentifierName word)
    {rest : List Char} (stops : StopsName rest) :
    Lexes (spaced words ++ rest) (words.map word) rest := by
  induction words with
  | nil => exact .nil rest
  | cons first more ih =>
      obtain ⟨isName, later⟩ := List.forall_mem_cons.mp named
      cases more with
      | nil =>
          rw [spaced_singleton]
          exact lexes_word isName stops
      | cons second others =>
          rw [spaced_cons_cons, List.append_assoc, List.cons_append]
          exact (lexes_word isName (stopsName_blank _)).append
            ((ih later).blank (List.cons_ne_nil _ _))

/-- The tokens of lists of words with commas between them. -/
def listTokens : List (List String) → List Lexeme
  | [] => []
  | [words] => words.map word
  | words :: next :: more => words.map word ++ here (.mark ',') :: listTokens (next :: more)

theorem listTokens_ne_nil {words : List String} {more : List (List String)} (filled : words ≠ []) :
    listTokens (words :: more) ≠ [] := by
  cases more with
  | nil => simpa [listTokens] using filled
  | cons next more => simp [listTokens]

/-- A list is read as its words and the commas between its entries. -/
theorem lexes_listed {entries : List (List String)} (named : AreNamed entries) {rest : List Char}
    (stops : StopsName rest) : Lexes (listed entries ++ rest) (listTokens entries) rest := by
  induction entries with
  | nil => exact .nil rest
  | cons words more ih =>
      obtain ⟨⟨-, isName⟩, later⟩ := List.forall_mem_cons.mp named
      cases more with
      | nil =>
          rw [show listed [words] = spaced words from List.intercalate_singleton]
          exact lexes_spaced isName stops
      | cons next more =>
          have spelled : listed (words :: next :: more) ++ rest =
              spaced words ++ ',' :: ' ' :: (listed (next :: more) ++ rest) := by
            simp [listed, List.intercalate_cons_cons]
          have behind := (ih later).blank (listTokens_ne_nil (later next List.mem_cons_self).1)
          rw [spelled]
          exact (lexes_spaced isName (stopsName_cons (by decide) (by decide))).append
            ((lexes_mark (by decide) _).append behind)

/-- The tokens of a list between braces. -/
def bracedTokens (entries : List (List String)) : List Lexeme :=
  here (.mark '\x7b') :: (listTokens entries ++ [here (.mark '\x7d')])

/-- A list between braces is read as one, with the braces. -/
theorem lexes_braced {entries : List (List String)} (named : AreNamed entries) (rest : List Char) :
    Lexes (braced entries ++ rest) (bracedTokens entries) rest := by
  have closing : Lexes (' ' :: '\x7d' :: rest) [here (.mark '\x7d')] rest :=
    (lexes_mark (by decide) rest).blank (List.cons_ne_nil _ _)
  have inside := (lexes_listed named (stopsName_blank _)).append closing
  have spelled : braced entries ++ rest = '\x7b' :: ' ' :: (listed entries ++ ' ' :: '\x7d' :: rest) := by
    simp [braced]
  rw [spelled]
  exact (lexes_mark (by decide) _).append (inside.blank (by simp))

/-- The tokens behind the module of an export. -/
def clauseTokens : Option String → List Lexeme
  | some kind =>
    [word "assert", here (.mark '\x7b'), word "type", here (.mark ':'), here (.literal kind),
      here (.mark '\x7d'), here (.mark ';')]
  | none => [here (.mark ';')]

/-- A kind that is asserted with the characters it has. -/
def StandsInQuotes (kind : String) : Prop :=
  escape '"' kind.toList = kind.toList ∧ OneLine kind.toList

/-- The end of a declaration is read as its clause and a semicolon. -/
theorem lexes_clauseEnd {assertion : Option String} (plain : ∀ kind ∈ assertion, StandsInQuotes kind)
    (rest : List Char) : Lexes (clauseEnd assertion ++ rest) (clauseTokens assertion) rest := by
  cases assertion with
  | none => exact lexes_mark (by decide) rest
  | some kind =>
      obtain ⟨same, clean⟩ := plain kind rfl
      have ending : Lexes (' ' :: '\x7d' :: ';' :: rest) [here (.mark '\x7d'), here (.mark ';')] rest :=
        ((lexes_mark (by decide) _).append (lexes_mark (by decide) rest)).blank (List.cons_ne_nil _ _)
      have value := ((lexes_quoted clean _).append ending).blank (List.cons_ne_nil _ _)
      have isKey : IsIdentifierName "type" := by decide
      have key := ((lexes_word isKey (stopsName_cons (by decide) (by decide))).append
        ((lexes_mark (c := ':') (by decide) _).append value)).blank (List.cons_ne_nil _ _)
      have opened := ((lexes_mark (c := '\x7b') (by decide) _).append key).blank (List.cons_ne_nil _ _)
      have isKeyword : IsIdentifierName "assert" := by decide
      have clause := ((lexes_word isKeyword (stopsName_blank _)).append opened).blank
        (List.cons_ne_nil _ _)
      simpa [same, clauseEnd, assertBegin, clauseTokens] using clause

/-- The tokens of an export, behind the end of a line or not. -/
def exportTokens (newLine : Bool) (declaration : Export) : List Lexeme :=
  ⟨newLine, .name "export" false⟩ :: (bracedTokens (declaration.entries.map ExportEntry.words) ++
    word "from" :: here (.literal declaration.module) :: clauseTokens declaration.assertion)

/-- An export whose text holds a name where a name is meant, and a kind as it is. -/
structure IsSpelled (declaration : Export) : Prop where
  named : ∀ name ∈ (Statement.exportFrom declaration).names, IsIdentifierName name
  asserted : ∀ kind ∈ declaration.assertion, StandsInQuotes kind

variable {declaration : Export}

/-- The tokens of an export up to its module. -/
theorem lexes_print_front (spelled : IsSpelled declaration) (newLine : Bool) (rest : List Char) :
    Lexes (lineStart newLine ++ ((declaration.print '"').toList ++ rest))
      (⟨newLine, .name "export" false⟩ ::
        (bracedTokens (declaration.entries.map ExportEntry.words) ++ [word "from"]))
      (' ' :: ((printModuleEnd '"' declaration.module declaration.assertion).toList ++ rest)) := by
  have isExport : IsIdentifierName "export" := by decide
  have isFrom : IsIdentifierName "from" := by decide
  rw [Export.toList_print]
  generalize (printModuleEnd '"' declaration.module declaration.assertion).toList = ending
  have fromModule := (lexes_word isFrom (stopsName_blank (ending ++ rest))).blank
    (List.cons_ne_nil _ _)
  have list := ((lexes_braced (areNamed_export spelled.named) _).append fromModule).blank
    (List.cons_ne_nil _ _)
  have whole := (lexes_word_line isExport newLine (stopsName_blank _)).append list
  simpa [fromWord] using whole

/-- An export is printed as its tokens, if its names are names and its module stands in one line. -/
theorem lexes_print (spelled : IsSpelled declaration) (clean : OneLine declaration.module.toList)
    (newLine : Bool) (rest : List Char) :
    Lexes (lineStart newLine ++ ((declaration.print '"').toList ++ rest))
      (exportTokens newLine declaration) rest := by
  have ending := ((lexes_quoted clean _).append (lexes_clauseEnd spelled.asserted rest)).blank
    (List.cons_ne_nil _ _)
  have front := lexes_print_front spelled newLine rest
  rw [toList_printModuleEnd, List.cons_append, List.append_assoc, List.cons_append] at front
  simpa [exportTokens] using front.append ending

/-- Reading stops at a module with a raw line break. -/
theorem lexes_print_lineBreak (spelled : IsSpelled declaration)
    (broken : ¬ OneLine declaration.module.toList) (newLine : Bool) (rest : List Char) :
    ∃ found behind, Lexes (lineStart newLine ++ ((declaration.print '"').toList ++ rest)) found
      (' ' :: '"' :: behind) ∧ lexeme? (' ' :: '"' :: behind) = none := by
  have front := lexes_print_front spelled newLine rest
  rw [toList_printModuleEnd, List.cons_append, List.append_assoc] at front
  refine ⟨_, _, front, ?_⟩
  have refused : token? ('"' :: (escape '"' declaration.module.toList ++
      ('"' :: clauseEnd declaration.assertion ++ rest))) = none := by
    rw [token?, if_pos (.inl rfl), literal?_escape_lineBreak broken]
    rfl
  have skipped (text : List Char) : lexeme? (' ' :: '"' :: text) =
      (token? ('"' :: text)).map (Prod.map here id) := rfl
  rw [skipped, refused, Option.map_none]

/-! ## Reading the tokens of an export -/

section

variable {rest : List Lexeme}

/-- An entry ends at a punctuator. -/
theorem item?_words (entry : ExportEntry) (c : Char) :
    item? (entry.words.map word ++ here (.mark c) :: rest) = some (entry, here (.mark c) :: rest) := by
  obtain ⟨property, name⟩ := entry
  cases property <;> rfl

/-- A list of entries up to its closing brace is read as all entries but the last, and the last one. -/
theorem exists_many_andComma? {entries : List ExportEntry} (filled : entries ≠ []) :
    ∃ front last behind,
      many (andComma? item?) (listTokens (entries.map ExportEntry.words) ++ here (.mark '\x7d') :: rest) =
        (front, behind) ∧
      item? behind = some (last, here (.mark '\x7d') :: rest) ∧ front ++ [last] = entries := by
  induction entries with
  | nil => exact absurd rfl filled
  | cons entry more ih =>
      cases more with
      | nil =>
          have closed : andComma? item? (entry.words.map word ++ here (.mark '\x7d') :: rest) = none := by
            rw [andComma?, item?_words]
            rfl
          exact ⟨[], entry, _, many_of_none closed, item?_words entry '\x7d', rfl⟩
      | cons next more =>
          obtain ⟨front, last, behind, read, ends, whole⟩ := ih (List.cons_ne_nil _ _)
          have first (behind : List Lexeme) :
              andComma? item? (entry.words.map word ++ here (.mark ',') :: behind) =
                some (entry, behind) := by
            rw [andComma?, item?_words]
            rfl
          refine ⟨entry :: front, last, behind, ?_, ends, congrArg (entry :: ·) whole⟩
          simp only [List.map_cons, listTokens, List.append_assoc, List.cons_append] at read ⊢
          rw [many_of_some (first _)
            (by simp only [List.length_append, List.length_cons]; omega), read]

/-- A list is read as the entries that it holds. -/
theorem list?_bracedTokens (entries : List ExportEntry) :
    list? item? (bracedTokens (entries.map ExportEntry.words) ++ rest) = some (entries, rest) := by
  have opening (text : List Lexeme) : mark? '\x7b' (here (.mark '\x7b') :: text) = some text := rfl
  have closing : mark? '\x7d' (here (.mark '\x7d') :: rest) = some rest := rfl
  rw [bracedTokens, List.cons_append, List.append_assoc, List.singleton_append, list?, opening,
    Option.bind_some]
  dsimp only
  by_cases filled : entries = []
  · subst filled
    have none : many (andComma? item?) (here (.mark '\x7d') :: rest) =
        ([], here (.mark '\x7d') :: rest) := many_of_none rfl
    rw [List.map_nil, listTokens, List.nil_append, none]
    rfl
  · obtain ⟨front, last, behind, read, ends, whole⟩ := exists_many_andComma? filled
    rw [read]
    dsimp only
    rw [ends]
    dsimp only
    rw [closing, whole, Option.map_some]

/-- An export without a clause is read as what it is. One with a clause is refused, because the word of the
clause neither states attributes nor ends the export. -/
theorem declaration?_exportTokens (newLine : Bool) (declaration : Export) (rest : List Lexeme) :
    declaration? (exportTokens newLine declaration ++ rest) =
      if declaration.assertion = none then some (some declaration, rest) else none := by
  have keyword (text : List Lexeme) :
      word? "export" (⟨newLine, .name "export" false⟩ :: text) = some text := by
    rw [word?, if_pos rfl]
  have moduleWord (text : List Lexeme) : word? "from" (word "from" :: text) = some text := rfl
  have specifier (value : String) (text : List Lexeme) :
      string? (here (.literal value) :: text) = some (value, text) := rfl
  rw [exportTokens, List.cons_append, List.append_assoc, declaration?, keyword, Option.bind_some,
    list?_bracedTokens, Option.bind_some]
  dsimp only [List.cons_append]
  rw [moduleWord]
  dsimp only
  rw [specifier, Option.bind_some]
  obtain ⟨entries, module, assertion⟩ := declaration
  cases assertion <;> rfl

end

/-! ## Modules -/

/-- The tokens of exports, the first one behind the end of a line or not. -/
def moduleTokens (newLine : Bool) : List Export → List Lexeme
  | [] => []
  | declaration :: more => exportTokens newLine declaration ++ moduleTokens true more

/-- Exports without a clause are read one after the other. -/
theorem many_moduleTokens (newLine : Bool) {exports : List Export}
    (plain : ∀ declaration ∈ exports, declaration.assertion = none) :
    many declaration? (moduleTokens newLine exports) = (exports.map some, []) := by
  induction exports generalizing newLine with
  | nil => exact many_of_none rfl
  | cons declaration more ih =>
      obtain ⟨plainHere, plainLater⟩ := List.forall_mem_cons.mp plain
      have read := (declaration?_exportTokens newLine declaration (moduleTokens true more)).trans
        (if_pos plainHere)
      rw [moduleTokens, many_of_some read
        (by simp only [exportTokens, List.length_cons, List.length_append]; omega), ih true plainLater]
      rfl

/-- The first export with a clause is not read, nor is anything behind it. -/
theorem many_moduleTokens_ne_nil (newLine : Bool) {exports : List Export}
    (asserted : ∃ declaration ∈ exports, declaration.assertion ≠ none) :
    (many declaration? (moduleTokens newLine exports)).2 ≠ [] := by
  induction exports generalizing newLine with
  | nil =>
      obtain ⟨_, absent, -⟩ := asserted
      cases absent
  | cons declaration more ih =>
      have read := declaration?_exportTokens newLine declaration (moduleTokens true more)
      rw [moduleTokens]
      by_cases plain : declaration.assertion = none
      · have later := (List.or_exists_of_exists_mem_cons asserted).resolve_left (not_not_intro plain)
        rw [many_of_some (read.trans (if_pos plain))
          (by simp only [exportTokens, List.length_cons, List.length_append]; omega)]
        exact ih true later
      · rw [many_of_none (read.trans (if_neg plain))]
        exact List.cons_ne_nil _ _

/-- A module begins with its first export, and a line ends behind it. -/
theorem linesText_exportFrom_cons (declaration : Export) (more : List Export) :
    linesText ((declaration :: more).map .exportFrom) =
      (declaration.print '"').toList ++ (lineStart true ++ linesText (more.map .exportFrom)) := by
  rw [List.map_cons, linesText, List.flatMap_cons, List.append_assoc]
  rfl

/-- The lines of exports are read as the tokens of their module. -/
theorem lexes_linesText {exports : List Export} (spelled : ∀ declaration ∈ exports, IsSpelled declaration)
    (clean : ∀ declaration ∈ exports, OneLine declaration.module.toList) (newLine : Bool)
    (filled : exports ≠ []) :
    Lexes (lineStart newLine ++ linesText (exports.map .exportFrom)) (moduleTokens newLine exports)
      ['\n'] := by
  induction exports generalizing newLine with
  | nil => exact absurd rfl filled
  | cons declaration more ih =>
      obtain ⟨spelledHere, spelledLater⟩ := List.forall_mem_cons.mp spelled
      obtain ⟨cleanHere, cleanLater⟩ := List.forall_mem_cons.mp clean
      have front := lexes_print spelledHere cleanHere newLine
        (lineStart true ++ linesText (more.map .exportFrom))
      rw [linesText_exportFrom_cons, moduleTokens]
      cases more with
      | nil => simpa [moduleTokens, linesText, lineStart] using front
      | cons next others => exact front.append (ih spelledLater cleanLater true (List.cons_ne_nil _ _))

/-- Reading stops at the first module with a raw line break. -/
theorem lexes_linesText_lineBreak {exports : List Export}
    (spelled : ∀ declaration ∈ exports, IsSpelled declaration)
    (broken : ∃ declaration ∈ exports, ¬ OneLine declaration.module.toList) (newLine : Bool) :
    ∃ found behind, Lexes (lineStart newLine ++ linesText (exports.map .exportFrom)) found
      (' ' :: '"' :: behind) ∧ lexeme? (' ' :: '"' :: behind) = none := by
  induction exports generalizing newLine with
  | nil =>
      obtain ⟨_, absent, -⟩ := broken
      cases absent
  | cons declaration more ih =>
      obtain ⟨spelledHere, spelledLater⟩ := List.forall_mem_cons.mp spelled
      rw [linesText_exportFrom_cons]
      by_cases clean : OneLine declaration.module.toList
      · have later := (List.or_exists_of_exists_mem_cons broken).resolve_left (not_not_intro clean)
        obtain ⟨found, behind, lexes, stuck⟩ := ih spelledLater later true
        exact ⟨_, behind, (lexes_print spelledHere clean newLine _).append lexes, stuck⟩
      · exact lexes_print_lineBreak spelledHere clean newLine _

/-- The tokens of a printed module are those of its exports. -/
theorem lexemes?_linesText {exports : List Export}
    (spelled : ∀ declaration ∈ exports, IsSpelled declaration)
    (clean : ∀ declaration ∈ exports, OneLine declaration.module.toList) (filled : exports ≠ []) :
    lexemes? (linesText (exports.map .exportFrom)) = some (moduleTokens false exports) := by
  have lexes := lexes_linesText spelled clean false filled
  rw [lexemes?, show linesText _ = lineStart false ++ linesText (exports.map .exportFrom) from rfl,
    lexes.many_eq_of_none rfl]
  rfl

/-- A printed module is read back if every name is an identifier name, no module specifier holds a raw line
break, and no kind is asserted. -/
theorem module?_printModule {exports : List Export}
    (spelled : ∀ declaration ∈ exports, IsSpelled declaration)
    (clean : ∀ declaration ∈ exports, OneLine declaration.module.toList)
    (plain : ∀ declaration ∈ exports, declaration.assertion = none)
    (distinct : (exportedNames exports).Nodup) :
    module? (printModule (exports.map .exportFrom)) = some exports := by
  by_cases filled : exports = []
  · subst filled
    decide +kernel
  · rw [module?, toList_printModule (by simpa using filled), lexemes?_linesText spelled clean filled,
      Option.bind_some]
    dsimp only
    have kept : (exports.map some).filterMap id = exports := by
      rw [List.filterMap_map]
      exact List.filterMap_some
    rw [many_moduleTokens false plain, kept, if_pos ⟨rfl, distinct⟩]

/-- Exports with a raw line break in a module specifier are printed as a text that is no module. -/
theorem module?_printModule_lineBreak {exports : List Export}
    (spelled : ∀ declaration ∈ exports, IsSpelled declaration)
    (broken : ∃ declaration ∈ exports, ¬ OneLine declaration.module.toList) :
    module? (printModule (exports.map .exportFrom)) = none := by
  obtain ⟨found, behind, lexes, stuck⟩ := lexes_linesText_lineBreak spelled broken false
  have filled : exports ≠ [] := by
    obtain ⟨declaration, listed, -⟩ := broken
    exact List.ne_nil_of_mem listed
  have tokens : lexemes? (linesText (exports.map .exportFrom)) = none := by
    rw [lexemes?, show linesText _ = lineStart false ++ linesText (exports.map .exportFrom) from rfl,
      lexes.many_eq_of_none stuck]
    rfl
  rw [module?, toList_printModule (by simpa using filled), tokens, Option.bind_none]

/-- Exports one of which asserts a kind are printed as a text that is no module. -/
theorem module?_printModule_asserted {exports : List Export}
    (spelled : ∀ declaration ∈ exports, IsSpelled declaration)
    (clean : ∀ declaration ∈ exports, OneLine declaration.module.toList)
    (asserted : ∃ declaration ∈ exports, declaration.assertion ≠ none) :
    module? (printModule (exports.map .exportFrom)) = none := by
  have filled : exports ≠ [] := by
    obtain ⟨declaration, listed, -⟩ := asserted
    exact List.ne_nil_of_mem listed
  rw [module?, toList_printModule (by simpa using filled), lexemes?_linesText spelled clean filled,
    Option.bind_some]
  exact if_neg fun ⟨whole, _⟩ => many_moduleTokens_ne_nil false asserted whole

/-- By the word of the grammar the kind of a module is stated and read. -/
example : module? "export \x7b default as v \x7d from \"./v.json\" with \x7b type: \"json\" \x7d;" =
    some [⟨[⟨some "default", "v"⟩], "./v.json", some "json"⟩] := by
  decide +kernel

/-- Printed exports are read back exactly when all their names are identifier names, no module specifier holds
a raw line break, and no kind is asserted. -/
theorem module?_printModule_iff {exports : List Export} (distinct : (exportedNames exports).Nodup)
    (quoted : ∀ declaration ∈ exports, ∀ kind ∈ declaration.assertion, StandsInQuotes kind) :
    module? (printModule (exports.map .exportFrom)) = some exports ↔
      ∀ declaration ∈ exports,
        (∀ name ∈ (Statement.exportFrom declaration).names, IsIdentifierName name) ∧
          OneLine declaration.module.toList ∧ declaration.assertion = none := by
  constructor
  · intro read
    have spelled : ∀ declaration ∈ exports, IsSpelled declaration := fun declaration listed =>
      ⟨isIdentifierName_of_read read declaration listed, quoted declaration listed⟩
    have clean : ∀ declaration ∈ exports, OneLine declaration.module.toList := by
      by_contra broken
      push Not at broken
      rw [module?_printModule_lineBreak spelled broken] at read
      cases read
    have plain : ∀ declaration ∈ exports, declaration.assertion = none := by
      by_contra asserted
      push Not at asserted
      rw [module?_printModule_asserted spelled clean asserted] at read
      cases read
    exact fun declaration listed =>
      ⟨(spelled declaration listed).named, clean declaration listed, plain declaration listed⟩
  · intro readable
    exact module?_printModule
      (fun declaration listed => ⟨(readable declaration listed).1, quoted declaration listed⟩)
      (fun declaration listed => (readable declaration listed).2.1)
      (fun declaration listed => (readable declaration listed).2.2) distinct

end BarrelSynthesis.Synthesis.Reading
