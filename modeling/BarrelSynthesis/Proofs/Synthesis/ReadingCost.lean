/-
# What reading costs

Reading a module takes characters off its text, and never more than the text has. Blanks, line breaks,
backslashes and semicolons left aside, because a reader may meet more or fewer of them than were printed, every
character of what is read has been paid for: a name by its own characters or by escapes, which are longer, and a
string literal by two quotes besides. The letter s is left aside too, because without it the word `assert`, with
which a kind is printed, has as many letters as the word `with`, with which it is read. A name that is no
identifier name can only be read as a literal. Exports are printed without such quotes, so the text of exports
with a name of that kind has too few characters to be read as these exports, whatever comments, escapes or
missing semicolons the name may bring about.
-/
import BarrelSynthesis.Proofs.Synthesis.PrintedForm
import BarrelSynthesis.Proofs.Synthesis.Reading
import Mathlib.Algebra.BigOperators.Group.List.Basic
import Mathlib.Algebra.GroupWithZero.Nat

namespace BarrelSynthesis.Synthesis.Reading

open Text

/-! ## Characters that count -/

/-- Whether a character counts. -/
def counts (c : Char) : Bool :=
  c ∉ [' ', '\n', '\\', ';', 's']

/-- The number of characters that count. -/
def size (text : List Char) : Nat :=
  text.countP counts

/-- A character in front adds its own share, so what is read is counted from the front. -/
theorem size_cons (c : Char) (text : List Char) : size (c :: text) = size text + size [c] := by
  simp [size, List.countP_cons]

/-- The parts of a text count as much as the whole. -/
theorem size_append (first second : List Char) : size (first ++ second) = size first + size second :=
  List.countP_append

theorem size_singleton_le (c : Char) : size [c] ≤ 1 :=
  List.countP_le_length

/-- What a reader leaves counts at most as much as what it was given. -/
theorem size_le_of_suffix {rest text : List Char} (suffix : rest <:+ text) : size rest ≤ size text :=
  suffix.sublist.countP_le

/-! ## Reading again and again -/

section

variable {σ α : Type} {read : List σ → Option (α × List σ)}

/-- When every reading pays for what it reads, all of them together do. -/
theorem many_paid {worth : α → Nat} {cost : List σ → Nat}
    (paid : ∀ text value rest, read text = some (value, rest) → worth value + cost rest ≤ cost text)
    (text : List σ) :
    ((many read text).1.map worth).sum + cost (many read text).2 ≤ cost text := by
  fun_induction many read text with
  | case1 text refused => simp
  | case2 text value rest found shorter others ih =>
      have first := paid text value rest found
      have later : (others.1.map worth).sum + cost others.2 ≤ cost rest := ih
      rw [List.map_cons, List.sum_cons]
      exact le_trans (by rw [Nat.add_assoc]; exact Nat.add_le_add_left later _) first
  | case3 text value rest found same => simp

/-- What holds of everything that is read at a time holds of everything that is read in a row. -/
theorem forall_mem_many {holds : α → Prop}
    (every : ∀ text value rest, read text = some (value, rest) → holds value) (text : List σ) :
    ∀ value ∈ (many read text).1, holds value := by
  fun_induction many read text with
  | case1 text refused => exact fun _ absent => absurd absent List.not_mem_nil
  | case2 text value rest found shorter others ih =>
      exact List.forall_mem_cons.mpr ⟨every text value rest found, ih⟩
  | case3 text value rest found same => exact fun _ absent => absurd absent List.not_mem_nil

end

/-! ## White space, names and literals -/

variable {text rest : List Char}

/-- White space and comments are taken off the front, and nothing is put in their place. -/
theorem skipGap_suffix {gap : Source.Gap} {before after : Bool}
    (skipped : skipGap gap before text = some (after, rest)) : rest <:+ text := by
  have later {c : Char} {behind : List Char} (found : rest <:+ behind) : rest <:+ c :: behind :=
    found.trans (List.suffix_cons c behind)
  fun_induction skipGap gap before text with
  | case1 _ _ ih | case2 _ _ ih | case9 _ _ ih => exact later (later (ih skipped))
  | case4 _ _ _ _ _ _ _ ih | case5 _ _ _ _ _ _ _ _ ih | case7 _ _ _ _ ih | case8 _ _ _ _ ih
  | case10 _ _ _ _ ih => exact later (ih skipped)
  | case3 | case6 | case12 =>
      cases skipped
      exact List.suffix_rfl
  | case11 => cases skipped

/-- Behind `\u` a reader takes digits and braces off the front. -/
theorem codePoint?_suffix {code : Nat} (read : codePoint? text = some (code, rest)) :
    rest <:+ text := by
  rw [codePoint?.eq_def] at read
  split at read
  · next inner =>
      dsimp only at read
      split at read
      · next behind shape =>
          obtain ⟨-, rfl⟩ := (Option.ite_none_right_eq_some.mp read).imp_right fun same =>
            (Prod.mk.inj (Option.some.inj same)).2
          have inside : behind <:+ inner :=
            (List.suffix_cons _ behind).trans (shape ▸ List.drop_suffix _ inner)
          exact inside.trans (List.suffix_cons _ inner)
      · cases read
  · obtain ⟨_, -, same⟩ := Option.map_eq_some_iff.mp read
    rw [← (Prod.mk.inj same).2]
    exact List.drop_suffix 4 text

/-- A character of a name is paid for by itself, or by the letter of its escape. -/
theorem nameCharacter?_paid {allowed : Char → Bool} {c : Char} {escaped : Bool}
    (read : nameCharacter? allowed text = some ((c, escaped), rest)) :
    allowed c = true ∧ size [c] + size rest ≤ size text := by
  rw [nameCharacter?.eq_def] at read
  split at read
  · next behind =>
      obtain ⟨⟨code, after⟩, point, found⟩ := Option.bind_eq_some_iff.mp read
      obtain ⟨fits, same⟩ := Option.ite_none_right_eq_some.mp found
      obtain ⟨⟨rfl, -⟩, rfl⟩ := Prod.mk.inj (Option.some.inj same) |>.imp_left Prod.mk.inj
      have behind := size_le_of_suffix (codePoint?_suffix point)
      have letter : size ['u'] = 1 := rfl
      have slash : size ['\\'] = 0 := rfl
      have one := size_singleton_le (Char.ofNat code)
      rw [size_cons '\\', size_cons 'u']
      exact ⟨fits, by omega⟩
  · next other behind _ =>
      obtain ⟨fits, same⟩ := Option.ite_none_right_eq_some.mp read
      obtain ⟨⟨rfl, -⟩, rfl⟩ := Prod.mk.inj (Option.some.inj same) |>.imp_left Prod.mk.inj
      rw [size_cons other behind, Nat.add_comm]
      exact ⟨fits, le_rfl⟩
  · cases read

/-- What is read as a name is an identifier name, and its characters are paid for. -/
theorem name?_paid {name : List Char} {escaped : Bool}
    (read : name? text = some ((name, escaped), rest)) :
    isIdentifierName name = true ∧ size name + size rest ≤ size text := by
  obtain ⟨⟨⟨first, marked⟩, behind⟩, begun, same⟩ := Option.map_eq_some_iff.mp read
  obtain ⟨⟨rfl, -⟩, rfl⟩ := Prod.mk.inj same |>.imp_left Prod.mk.inj
  obtain ⟨starts, paid⟩ := nameCharacter?_paid begun
  have continues : ∀ piece ∈ (many (nameCharacter? isIdentifierPart) behind).1,
      isIdentifierPart piece.1 = true :=
    forall_mem_many (fun _ ⟨_, _⟩ _ found => (nameCharacter?_paid found).1) behind
  have others : ((many (nameCharacter? isIdentifierPart) behind).1.map fun piece =>
      size [piece.1]).sum + size (many (nameCharacter? isIdentifierPart) behind).2 ≤ size behind :=
    many_paid (fun _ ⟨_, _⟩ _ found => (nameCharacter?_paid found).2) behind
  constructor
  · rw [isIdentifierName, Bool.and_eq_true, List.all_map, List.all_eq_true]
    exact ⟨starts, continues⟩
  · have spelled (pieces : List (Char × Bool)) :
        size (pieces.map (·.1)) = (pieces.map fun piece => size [piece.1]).sum := by
      induction pieces with
      | nil => rfl
      | cons piece more ih => rw [List.map_cons, size_cons, ih, List.map_cons, List.sum_cons, Nat.add_comm]
    rw [size_cons, spelled]
    dsimp only
    omega

/-! ## String literals -/

/-- What a piece of a literal costs: half of a pair counts like a character. -/
def pieceSize : Source.Unit16 → Nat
  | .char c => size [c]
  | .half _ => 1

/-- What pieces of a literal cost. -/
def piecesSize (pieces : List Source.Unit16) : Nat :=
  (pieces.map pieceSize).sum

theorem piecesSize_cons (piece : Source.Unit16) (more : List Source.Unit16) :
    piecesSize (piece :: more) = pieceSize piece + piecesSize more := rfl

/-- The pieces of a literal cost what its characters and escapes bring in, one after the other. -/
theorem piecesSize_flatten (pieces : List (List Source.Unit16)) :
    piecesSize pieces.flatten = (pieces.map piecesSize).sum := by
  induction pieces with
  | nil => rfl
  | cons first more ih =>
      rw [List.flatten_cons, List.map_cons, List.sum_cons, ← ih, piecesSize, List.map_append,
        List.sum_append, piecesSize, piecesSize]

/-- A code point is a character, or half of a pair that counts like one. -/
theorem pieceSize_ofCode_le (code : Nat) : pieceSize (Source.Unit16.ofCode code) ≤ 1 := by
  rw [Source.Unit16.ofCode]
  split
  · exact le_rfl
  · exact size_singleton_le _

/-- A single escape counts no more than the letter that it is written with. -/
theorem size_singleEscape_le (c : Char) : size [singleEscape c] ≤ size [c] := by
  unfold singleEscape
  split
  case h_7 => exact le_rfl
  all_goals decide

/-- An escape is paid for by what stands behind its backslash. -/
theorem escape?_paid {pieces : List Source.Unit16} (read : escape? text = some (pieces, rest)) :
    piecesSize pieces + size rest ≤ size text := by
  rw [escape?.eq_def] at read
  split at read
  · next a b behind =>
      obtain ⟨high, -, found⟩ := Option.bind_eq_some_iff.mp read
      obtain ⟨low, -, same⟩ := Option.map_eq_some_iff.mp found
      obtain ⟨rfl, rfl⟩ := Prod.mk.inj same
      have letter : size ['x'] = 1 := rfl
      have one : piecesSize [.char (Char.ofNat (high * 16 + low))] ≤ 1 := size_singleton_le _
      rw [size_cons, size_cons a, size_cons b]
      omega
  · next behind =>
      obtain ⟨⟨code, after⟩, point, same⟩ := Option.map_eq_some_iff.mp read
      obtain ⟨rfl, rfl⟩ := Prod.mk.inj same
      have inside := size_le_of_suffix (codePoint?_suffix point)
      have letter : size ['u'] = 1 := rfl
      have one : piecesSize [Source.Unit16.ofCode code] ≤ 1 := pieceSize_ofCode_le code
      rw [size_cons]
      omega
  · next behind =>
      obtain ⟨rfl, rfl⟩ := Prod.mk.inj (Option.some.inj read)
      exact (Nat.zero_add _).trans_le (size_le_of_suffix ((List.suffix_cons _ _).trans (List.suffix_cons _ _)))
  · next d behind =>
      obtain ⟨-, same⟩ := Option.ite_none_left_eq_some.mp read
      obtain ⟨rfl, rfl⟩ := Prod.mk.inj (Option.some.inj same)
      have zero : size ['0'] = 1 := rfl
      have one : piecesSize [.char '\x00'] ≤ 1 := size_singleton_le '\x00'
      rw [size_cons '0']
      omega
  · next c behind _ _ _ _ =>
      split at read
      · obtain ⟨rfl, rfl⟩ := Prod.mk.inj (Option.some.inj read)
        exact (Nat.zero_add _).trans_le (size_le_of_suffix (List.suffix_cons _ _))
      · obtain ⟨-, same⟩ := Option.ite_none_left_eq_some.mp read
        obtain ⟨rfl, rfl⟩ := Prod.mk.inj (Option.some.inj same)
        have same : piecesSize [.char (singleEscape c)] ≤ size [c] := size_singleEscape_le c
        rw [size_cons]
        omega
  · cases read

/-- A character of a literal is paid for by itself, and an escape by its letters. -/
theorem literalPiece?_paid {quote : Char} {pieces : List Source.Unit16}
    (read : literalPiece? quote text = some (pieces, rest)) :
    piecesSize pieces + size rest ≤ size text := by
  rw [literalPiece?.eq_def] at read
  split at read
  · next behind => exact (escape?_paid read).trans (size_le_of_suffix (List.suffix_cons _ _))
  · next c behind _ =>
      obtain ⟨-, same⟩ := Option.ite_none_left_eq_some.mp read
      obtain ⟨rfl, rfl⟩ := Prod.mk.inj (Option.some.inj same)
      have one : piecesSize [.char c] = size [c] := rfl
      rw [size_cons, one, Nat.add_comm]
  · cases read

/-- Two halves that make up one character have cost more than the character counts. -/
theorem wholeText?_paid {pieces : List Source.Unit16} (whole : wholeText? pieces = some text) :
    size text ≤ piecesSize pieces := by
  fun_induction wholeText? pieces generalizing text with
  | case1 =>
      cases whole
      exact le_rfl
  | case2 c more ih =>
      obtain ⟨others, found, rfl⟩ := Option.map_eq_some_iff.mp whole
      have later := ih found
      rw [size_cons, piecesSize_cons, pieceSize]
      omega
  | case3 high low more pair ih =>
      obtain ⟨others, found, rfl⟩ := Option.map_eq_some_iff.mp whole
      have later := ih found
      rw [size_cons, piecesSize_cons, piecesSize_cons, pieceSize, pieceSize]
      exact Nat.le_trans (Nat.add_le_add later (size_singleton_le _)) (by omega)
  | case4 => cases whole
  | case5 => cases whole

/-- A literal is paid for with its quotes. -/
theorem literal?_paid {quote : Char} {value : List Char} (counted : size [quote] = 1)
    (read : literal? quote text = some (value, rest)) : size value + 1 + size rest ≤ size text := by
  have inside : ((many (literalPiece? quote) text).1.map piecesSize).sum +
      size (many (literalPiece? quote) text).2 ≤ size text :=
    many_paid (fun _ _ _ found => literalPiece?_paid found) text
  rw [literal?] at read
  split at read
  · next c behind shape =>
      obtain ⟨rfl, found⟩ := Option.ite_none_right_eq_some.mp read
      obtain ⟨_, whole, same⟩ := Option.map_eq_some_iff.mp found
      obtain ⟨rfl, rfl⟩ := Prod.mk.inj same
      have spelled := wholeText?_paid whole
      rw [shape, size_cons, counted, ← piecesSize_flatten] at inside
      omega
  · cases read

/-! ## Tokens -/

/-- The price of a name: two quotes more where it is no identifier name. -/
def price (name : String) : Nat :=
  size name.toList + if IsIdentifierName name then 0 else 2

/-- A name costs two quotes more than its characters at most. -/
theorem price_le (name : String) : price name ≤ size name.toList + 2 := by
  rw [price]
  split <;> omega

/-- What a token costs. -/
def Token.cost : Token → Nat
  | name text _ => price text
  | literal value => size value.toList + 2
  | mark c => size [c]

/-- What tokens cost. -/
def cost (lexemes : List Lexeme) : Nat :=
  (lexemes.map fun lexeme => lexeme.token.cost).sum

theorem cost_cons (lexeme : Lexeme) (lexemes : List Lexeme) :
    cost (lexeme :: lexemes) = lexeme.token.cost + cost lexemes := rfl

/-- A token is paid for by the characters that it is read from. -/
theorem token?_paid {token : Token} (read : token? text = some (token, rest)) :
    token.cost + size rest ≤ size text := by
  rw [token?.eq_def] at read
  split at read
  · cases read
  · next c behind =>
      split at read
      · next isQuote =>
          have counted : size [c] = 1 := by rcases isQuote with rfl | rfl <;> rfl
          obtain ⟨⟨value, after⟩, found, same⟩ := Option.map_eq_some_iff.mp read
          obtain ⟨rfl, rfl⟩ := Prod.mk.inj same
          have inside := literal?_paid counted found
          rw [size_cons, Token.cost, String.toList_ofList]
          omega
      · split at read
        · obtain ⟨rfl, rfl⟩ := Prod.mk.inj (Option.some.inj read)
          rw [size_cons, Token.cost, Nat.add_comm]
        · obtain ⟨⟨⟨name, escaped⟩, after⟩, found, same⟩ := Option.map_eq_some_iff.mp read
          obtain ⟨rfl, rfl⟩ := Prod.mk.inj same
          obtain ⟨isName, paid⟩ := name?_paid found
          have named : IsIdentifierName (String.ofList name) := by
            rwa [IsIdentifierName, String.toList_ofList]
          rwa [Token.cost, price, if_pos named, String.toList_ofList, Nat.add_zero]

/-- The tokens of a text are paid for by its characters. -/
theorem lexemes?_paid {lexemes : List Lexeme} (read : lexemes? text = some lexemes) :
    cost lexemes ≤ size text := by
  have inside : ((many lexeme? text).1.map fun lexeme => lexeme.token.cost).sum +
      size (many lexeme? text).2 ≤ size text := by
    refine many_paid (fun text lexeme rest found => ?_) text
    obtain ⟨⟨newLine, behind⟩, skipped, behindGap⟩ := Option.bind_eq_some_iff.mp found
    obtain ⟨⟨token, after⟩, taken, same⟩ := Option.map_eq_some_iff.mp behindGap
    obtain ⟨rfl, rfl⟩ := Prod.mk.inj same
    exact (token?_paid taken).trans (size_le_of_suffix (skipGap_suffix skipped))
  rw [lexemes?] at read
  split at read
  · obtain rfl := Option.some.inj read
    exact (Nat.le_add_right _ _).trans inside
  · cases read

/-! ## Declarations -/

section

variable {text rest : List Lexeme}

/-- A keyword is paid for by its letters, because no escape may stand in it. -/
theorem word?_paid {word : String} (read : word? word text = some rest) :
    size word.toList + cost rest ≤ cost text := by
  rw [word?.eq_def] at read
  split at read
  · obtain ⟨rfl, rfl⟩ := (Option.ite_none_right_eq_some.mp read).imp_right Option.some.inj
    rw [cost_cons, Token.cost, price]
    omega
  · cases read

theorem mark?_paid {c : Char} (read : mark? c text = some rest) :
    size [c] + cost rest ≤ cost text := by
  rw [mark?.eq_def] at read
  split at read
  · obtain ⟨rfl, rfl⟩ := (Option.ite_none_right_eq_some.mp read).imp_right Option.some.inj
    exact le_rfl
  · cases read

/-- A module specifier is paid for with its quotes. -/
theorem string?_paid {value : String} (read : string? text = some (value, rest)) :
    size value.toList + 2 + cost rest ≤ cost text := by
  rw [string?.eq_def] at read
  split at read
  · obtain ⟨rfl, rfl⟩ := Prod.mk.inj (Option.some.inj read)
    exact le_rfl
  · cases read

/-- The name of an export pays its price: a name that is no identifier name is read from a literal, with its
quotes. -/
theorem exportName?_paid {name : String} (read : exportName? text = some (name, rest)) :
    price name + cost rest ≤ cost text := by
  rw [exportName?.eq_def] at read
  split at read
  · obtain ⟨rfl, rfl⟩ := Prod.mk.inj (Option.some.inj read)
    exact le_rfl
  · obtain ⟨rfl, rfl⟩ := Prod.mk.inj (Option.some.inj read)
    exact Nat.add_le_add_right (price_le _) _
  · cases read

/-- What an entry is worth when names are worth what they cost: its names, and the word between them. -/
def entryWorth (worth : String → Nat) (entry : ExportEntry) : Nat :=
  (entry.names.map worth).sum + if entry.property.isSome then 1 else 0

/-- What an attribute costs: what it is called, the colon, and its value. -/
def attributeCost (pair : String × String) : Nat :=
  price pair.1 + 1 + (size pair.2.toList + 2)

/-- What a list of entries is worth: the entries, the braces, and the commas between them. -/
def listWorth {α : Type} (worth : α → Nat) (entries : List α) : Nat :=
  2 + (entries.map worth).sum + (entries.length - 1)

/-- What a kind is worth that is stated of a module. -/
def kindWorth : Option String → Nat
  | some kind => 13 + size kind.toList
  | none => 0

/-- What an export is worth. -/
def exportWorth (worth : String → Nat) (declaration : Export) : Nat :=
  6 + listWorth (entryWorth worth) declaration.entries + 4 + (size declaration.module.toList + 2) +
    kindWorth declaration.assertion

/-- An entry pays for its names, and for the word between them. -/
theorem item?_paid {entry : ExportEntry} (read : item? text = some (entry, rest)) :
    entryWorth price entry + cost rest ≤ cost text := by
  obtain ⟨⟨first, behind⟩, named, found⟩ := Option.bind_eq_some_iff.mp read
  have paid := exportName?_paid named
  dsimp only at found
  split at found
  · obtain ⟨rfl, rfl⟩ := Prod.mk.inj (Option.some.inj found)
    have one : entryWorth price ⟨none, first⟩ = price first := by simp [entryWorth, ExportEntry.names]
    omega
  · next after word =>
      obtain ⟨⟨last, _⟩, renamed, same⟩ := Option.map_eq_some_iff.mp found
      obtain ⟨rfl, rfl⟩ := Prod.mk.inj same
      have between : 1 + cost after ≤ cost behind := word?_paid word
      have alsoPaid := exportName?_paid renamed
      have both : entryWorth price ⟨some first, last⟩ = price first + price last + 1 := by
        simp [entryWorth, ExportEntry.names]
      dsimp only
      omega

/-- An attribute pays for what it is called, for the colon, and for its value. -/
theorem attribute?_paid {pair : String × String} (read : attribute? text = some (pair, rest)) :
    attributeCost pair + cost rest ≤ cost text := by
  obtain ⟨⟨key, afterKey⟩, named, found⟩ := Option.bind_eq_some_iff.mp read
  obtain ⟨afterColon, parted, found⟩ := Option.bind_eq_some_iff.mp found
  obtain ⟨⟨value, _⟩, stated, same⟩ := Option.map_eq_some_iff.mp found
  obtain ⟨rfl, rfl⟩ := Prod.mk.inj same
  have keyPaid := exportName?_paid named
  have colon : 1 + cost afterColon ≤ cost afterKey := mark?_paid parted
  have valuePaid := string?_paid stated
  rw [attributeCost]
  dsimp only at *
  omega

section

variable {α : Type} {worth : α → Nat} {readEntry : List Lexeme → Option (α × List Lexeme)}

/-- An entry pays for the comma behind it, whatever the entries of the list are. -/
theorem andComma?_paid
    (paid : ∀ text value rest, readEntry text = some (value, rest) →
      worth value + cost rest ≤ cost text)
    {value : α} (read : andComma? readEntry text = some (value, rest)) :
    worth value + 1 + cost rest ≤ cost text := by
  obtain ⟨⟨_, behind⟩, found, comma⟩ := Option.bind_eq_some_iff.mp read
  obtain ⟨_, passed, same⟩ := Option.map_eq_some_iff.mp comma
  obtain ⟨rfl, rfl⟩ := Prod.mk.inj same
  have entryPaid := paid _ _ _ found
  have between := mark?_paid passed
  have one : size [','] = 1 := rfl
  omega

/-- A list is paid for with its braces and the commas between its entries. -/
theorem list?_paid
    (paid : ∀ text value rest, readEntry text = some (value, rest) →
      worth value + cost rest ≤ cost text)
    {entries : List α} (read : list? readEntry text = some (entries, rest)) :
    listWorth worth entries + cost rest ≤ cost text := by
  obtain ⟨behind, opened, found⟩ := Option.bind_eq_some_iff.mp read
  have opening := mark?_paid opened
  have braces : size ['\x7b'] = 1 ∧ size ['\x7d'] = 1 := ⟨rfl, rfl⟩
  have front : ((many (andComma? readEntry) behind).1.map fun entry => worth entry + 1).sum +
      cost (many (andComma? readEntry) behind).2 ≤ cost behind :=
    many_paid (fun _ _ _ found => andComma?_paid paid found) behind
  have commas (entries : List α) : (entries.map fun _ => 1).sum = entries.length := by simp
  rw [List.sum_map_add, commas] at front
  dsimp only at found
  split at found
  · next last after entry =>
      obtain ⟨_, closed, same⟩ := Option.map_eq_some_iff.mp found
      obtain ⟨rfl, rfl⟩ := Prod.mk.inj same
      have entryPaid := paid _ _ _ entry
      have closing := mark?_paid closed
      simp only [listWorth, List.map_append, List.sum_append, List.map_singleton, List.sum_singleton,
        List.length_append, List.length_singleton]
      omega
  · obtain ⟨_, closed, same⟩ := Option.map_eq_some_iff.mp found
    obtain ⟨rfl, rfl⟩ := Prod.mk.inj same
    have closing := mark?_paid closed
    rw [listWorth]
    omega

end

/-- The kind that attributes state is paid for by them and the word before them. -/
theorem attributes?_paid {attributes : List (String × String)} {kind : Option String}
    (read : attributes? text = some (attributes, rest)) (states : kind? attributes = some kind) :
    kindWorth kind + cost rest ≤ cost text := by
  rw [attributes?] at read
  split at read
  · obtain ⟨rfl, rfl⟩ := Prod.mk.inj (Option.some.inj read)
    obtain rfl := Option.some.inj states
    exact (Nat.zero_add _).le
  · next behind word =>
      have keyword : 4 + cost behind ≤ cost text := word?_paid word
      have listPaid := list?_paid (fun _ _ _ found => attribute?_paid found)
        (Option.filter_eq_some_iff.mp read).1
      rw [listWorth] at listPaid
      rw [kind?.eq_def] at states
      split at states
      · obtain rfl := Option.some.inj states
        rw [kindWorth]
        omega
      · next kind =>
          obtain rfl := Option.some.inj states
          have key : price "type" = 4 := by decide
          rw [List.map_singleton, List.sum_singleton, List.length_singleton, attributeCost, key] at listPaid
          rw [kindWorth]
          dsimp only at listPaid
          omega
      · cases states

/-- The end of a declaration may be free, because no semicolon has to stand there. -/
theorem declarationEnd?_paid (passed : declarationEnd? text = some rest) : cost rest ≤ cost text := by
  rw [declarationEnd?.eq_def] at passed
  split at passed
  · obtain rfl := Option.some.inj passed
    exact le_rfl
  · split at passed
    · obtain rfl := Option.some.inj passed
      exact Nat.le_add_left _ _
    · obtain ⟨-, same⟩ := Option.ite_none_right_eq_some.mp passed
      obtain rfl := Option.some.inj same
      exact le_rfl

/-- A declaration pays for its words, its list, its module and the kind that is stated of it. -/
theorem declaration?_paid {found : Option Export} (read : declaration? text = some (found, rest)) :
    (found.map (exportWorth price)).getD 0 + cost rest ≤ cost text := by
  obtain ⟨afterWord, begun, read⟩ := Option.bind_eq_some_iff.mp read
  obtain ⟨⟨entries, behind⟩, list, read⟩ := Option.bind_eq_some_iff.mp read
  have keyword : 6 + cost afterWord ≤ cost text := word?_paid begun
  have entriesPaid : listWorth (entryWorth price) entries + cost behind ≤ cost afterWord :=
    list?_paid (fun _ _ _ found => item?_paid found) list
  dsimp only at read
  split at read
  · next after word =>
      obtain ⟨⟨module, afterModule⟩, named, read⟩ := Option.bind_eq_some_iff.mp read
      obtain ⟨⟨attributes, afterClause⟩, clause, read⟩ := Option.bind_eq_some_iff.mp read
      obtain ⟨kind, states, read⟩ := Option.bind_eq_some_iff.mp read
      obtain ⟨_, ended, same⟩ := Option.map_eq_some_iff.mp read
      obtain ⟨rfl, rfl⟩ := Prod.mk.inj same
      have between : 4 + cost after ≤ cost behind := word?_paid word
      have modulePaid := string?_paid named
      have clausePaid := attributes?_paid clause states
      have endPaid := declarationEnd?_paid ended
      dsimp only at clausePaid endPaid
      simp only [Option.map_some, Option.getD_some, exportWorth]
      omega
  · obtain ⟨-, read⟩ := Option.ite_none_right_eq_some.mp read
    obtain ⟨_, ended, same⟩ := Option.map_eq_some_iff.mp read
    obtain ⟨rfl, rfl⟩ := Prod.mk.inj same
    have endPaid := declarationEnd?_paid ended
    rw [Option.map_none, Option.getD_none]
    omega

end

/-- The exports that a text is read as are paid for by its characters. -/
theorem module?_paid {text : String} {exports : List Export} (read : module? text = some exports) :
    (exports.map (exportWorth price)).sum ≤ size text.toList := by
  obtain ⟨lexemes, tokens, found⟩ := Option.bind_eq_some_iff.mp read
  obtain ⟨-, same⟩ := Option.ite_none_right_eq_some.mp found
  have paid : ((many declaration? lexemes).1.map fun found =>
      (found.map (exportWorth price)).getD 0).sum + cost (many declaration? lexemes).2 ≤
        cost lexemes := many_paid (fun _ _ _ read => declaration?_paid read) lexemes
  have kept (declarations : List (Option Export)) :
      ((declarations.filterMap id).map (exportWorth price)).sum =
        (declarations.map fun found => (found.map (exportWorth price)).getD 0).sum := by
    induction declarations with
    | nil => rfl
    | cons found more ih => cases found <;> simpa using ih
  rw [← Option.some.inj same, kept]
  exact (Nat.le_of_add_right_le paid).trans (lexemes?_paid tokens)

/-! ## What printing spends -/

/-- Escapes add backslashes only, which do not count. -/
theorem size_escape (quote : Char) (value : List Char) : size (escape quote value) = size value := by
  have backslash : size ['\\'] = 0 := rfl
  induction value with
  | nil => rfl
  | cons c rest ih =>
      rw [escape]
      split
      · rw [size_cons, size_cons c, size_cons c rest, ih, backslash, Nat.add_zero]
      · rw [size_cons, size_cons c rest, ih]

/-- The words of an entry are printed with what the entry is worth. -/
theorem size_spaced_words (entry : ExportEntry) :
    size (spaced entry.words) = entryWorth (fun name => size name.toList) entry := by
  obtain ⟨property, name⟩ := entry
  have keyword : size "as".toList = 1 := by decide
  have blank (text : List Char) : size (' ' :: text) = size text := by simp [size, counts]
  cases property with
  | none => simp [ExportEntry.words, aliasWords, entryWorth, ExportEntry.names]
  | some property =>
      simp only [ExportEntry.words, aliasWords, spaced_cons_cons, spaced_singleton, size_append,
        blank, keyword, entryWorth, ExportEntry.names, Option.toList_some, List.singleton_append,
        List.map_cons, List.map_nil, List.sum_cons, List.sum_nil, Option.isSome_some, if_true]
      omega

/-- A list is printed with what its entries are worth and a comma between any two of them. -/
theorem size_listed (entries : List ExportEntry) :
    size (listed (entries.map ExportEntry.words)) =
      (entries.map (entryWorth fun name => size name.toList)).sum + (entries.length - 1) := by
  rw [listed, List.map_map]
  induction entries with
  | nil => rfl
  | cons entry rest ih =>
      cases rest with
      | nil => simp [size_spaced_words]
      | cons second others =>
          have comma : size [',', ' '] = 1 := rfl
          rw [List.map_cons, List.map_cons, List.intercalate_cons_cons, size_append, size_append,
            comma, ← List.map_cons, ih, Function.comp_apply, size_spaced_words]
          simp only [List.map_cons, List.sum_cons, List.length_cons]
          omega

/-- The clause behind a module is printed with what reading its kind would cost. -/
theorem size_clauseEnd (assertion : Option String) :
    size (clauseEnd assertion) = kindWorth assertion := by
  cases assertion with
  | none => rfl
  | some kind =>
      have opening : size assertBegin = 11 := by decide
      have closing : size ['"', ' ', '\x7d', ';'] = 2 := by decide
      rw [clauseEnd, size_append, size_append, opening, closing, kindWorth]
      omega

/-- Exports are printed with exactly what they are worth when a name is worth its characters. -/
theorem size_print (declaration : Export) :
    size (declaration.print '"').toList =
      exportWorth (fun name => size name.toList) declaration := by
  have keyword : size ['e', 'x', 'p', 'o', 'r', 't', ' '] = 6 := by decide
  have between : size fromWord = 4 := by decide
  have opening : size ['\x7b', ' '] = 1 := by decide
  have closing : size [' ', '\x7d'] = 1 := by decide
  have quote : size ['"'] = 1 := by decide
  have ending : size (printModuleEnd '"' declaration.module declaration.assertion).toList =
      size declaration.module.toList + 2 + kindWorth declaration.assertion := by
    rw [toList_printModuleEnd, size_cons, size_append, size_cons, size_escape, size_clauseEnd, quote]
    omega
  have list : size (braced (declaration.entries.map ExportEntry.words)) =
      listWorth (entryWorth fun name => size name.toList) declaration.entries := by
    have spelled : braced (declaration.entries.map ExportEntry.words) =
        ['\x7b', ' '] ++ (listed (declaration.entries.map ExportEntry.words) ++ [' ', '\x7d']) := rfl
    rw [spelled, size_append, size_append, opening, closing, size_listed, listWorth]
    omega
  rw [Export.toList_print, size_append, size_append, size_append, keyword, between, ending, list,
    exportWorth]
  omega

/-- A module is printed with what its exports are worth, because line ends do not count. -/
theorem size_linesText (exports : List Export) :
    size (linesText (exports.map .exportFrom)) =
      (exports.map (exportWorth fun name => size name.toList)).sum := by
  have lineEnd : size ['\n'] = 0 := by decide
  induction exports with
  | nil => rfl
  | cons declaration rest ih =>
      have spelled : linesText ((declaration :: rest).map .exportFrom) =
          (declaration.print '"').toList ++ ['\n'] ++ linesText (rest.map .exportFrom) := rfl
      rw [spelled, size_append, size_append, size_print, lineEnd, Nat.add_zero, ih, List.map_cons,
        List.sum_cons]

/-! ## Names without quotes -/

/-- What the quotes of a name cost. -/
def quotesPrice (name : String) : Nat :=
  if IsIdentifierName name then 0 else 2

/-- Where no quotes have to be paid for, every name is an identifier name. -/
theorem isIdentifierName_of_sum_quotesPrice {names : List String}
    (free : (names.map quotesPrice).sum = 0) : ∀ name ∈ names, IsIdentifierName name := by
  intro name listed
  by_contra other
  have none : quotesPrice name = 0 :=
    List.sum_eq_zero_iff_forall_eq_nat.mp free _ (List.mem_map_of_mem listed)
  rw [quotesPrice, if_neg other] at none
  cases none

/-- Reading the entries of a list costs more than they were printed with by the quotes of their names. -/
theorem sum_entryWorth_price (entries : List ExportEntry) :
    (entries.map (entryWorth price)).sum =
      (entries.map (entryWorth fun name => size name.toList)).sum +
        ((entries.flatMap ExportEntry.names).map quotesPrice).sum := by
  have names (names : List String) :
      (names.map price).sum = (names.map fun name => size name.toList).sum +
        (names.map quotesPrice).sum :=
    List.sum_map_add
  induction entries with
  | nil => rfl
  | cons entry rest ih =>
      rw [List.map_cons, List.sum_cons, ih, List.map_cons, List.sum_cons, List.flatMap_cons,
        List.map_append, List.sum_append, entryWorth, entryWorth, names]
      omega

/-- Reading an export costs more than it was printed with by the quotes of its names. -/
theorem exportWorth_price (declaration : Export) :
    exportWorth price declaration = exportWorth (fun name => size name.toList) declaration +
      ((Statement.exportFrom declaration).names.map quotesPrice).sum := by
  rw [exportWorth, exportWorth, listWorth, listWorth, sum_entryWorth_price, Statement.names]
  omega

/-- A text that is read as the exports that it was printed from has identifier names only. -/
theorem isIdentifierName_of_read {exports : List Export}
    (read : module? (printModule (exports.map .exportFrom)) = some exports) :
    ∀ declaration ∈ exports, ∀ name ∈ (Statement.exportFrom declaration).names,
      IsIdentifierName name := by
  have paid := module?_paid read
  by_cases none : exports = []
  · subst none
    exact fun _ absent => absurd absent List.not_mem_nil
  · rw [toList_printModule (by simpa using none), size_linesText] at paid
    have worth : (exports.map (exportWorth price)).sum =
        (exports.map (exportWorth fun name => size name.toList)).sum +
          (exports.map fun declaration =>
            ((Statement.exportFrom declaration).names.map quotesPrice).sum).sum := by
      rw [← List.sum_map_add]
      exact congrArg List.sum (List.map_congr_left fun declaration _ => exportWorth_price declaration)
    have free : (exports.map fun declaration =>
        ((Statement.exportFrom declaration).names.map quotesPrice).sum).sum = 0 := by omega
    intro declaration listed
    exact isIdentifierName_of_sum_quotesPrice
      (List.sum_eq_zero_iff_forall_eq_nat.mp free _ (List.mem_map_of_mem listed))

end BarrelSynthesis.Synthesis.Reading
