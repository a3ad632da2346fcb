/-
# Lines and columns

A place is reached by reading a text from the front: past the end of a line to the beginning of the next one,
and otherwise one character on. So places grow with the offset, and a place is made of the lines that are left
behind and of the characters that stand before it on its own line. Going down that many lines and along that
many characters leads back to the offset.

A position is one more than a place in both numbers, as far as 32 bits reach. In a text of less than 2^32 bytes
they reach everywhere but to the end of a text of 2^32 - 1 bytes that is a single line of single bytes, or
nothing but line ends. A warning tells the position where its span begins, and the text and the length of the
span.
-/
import BarrelSynthesis.Diagnostic
import BarrelSynthesis.Proofs.Path.Spelling
import BarrelSynthesis.Proofs.Text.Offset
import Mathlib.Data.Prod.Lex

namespace BarrelSynthesis

open String (utf8Len utf8Len_nil utf8Len_cons utf8Len_append utf8Len_eq_zero utf8Len_toList)

namespace Text

/-! ## Going down lines and along characters -/

/-- What stands behind a number of line ends. Gives nothing when there are fewer. -/
def skipLines? : Nat → List Char → Option (List Char)
  | 0, cs => some cs
  | _ + 1, [] => none
  | lines + 1, c :: rest => skipLines? (if c = '\n' then lines else lines + 1) rest

/-- What stands behind a number of characters. Gives nothing when there are fewer. -/
def skipCharacters? : Nat → List Char → Option (List Char)
  | 0, cs => some cs
  | _ + 1, [] => none
  | characters + 1, _ :: rest => skipCharacters? characters rest

/-- Skipping as many characters as a text has leaves what stands behind it. -/
theorem skipCharacters?_append (front behind : List Char) :
    skipCharacters? front.length (front ++ behind) = some behind := by
  induction front with
  | nil => rw [List.length_nil, List.nil_append, skipCharacters?]
  | cons c rest ih => exact ih

/-- A line is left behind with its end. -/
theorem skipLines?_line {line : List Char} (unbroken : '\n' ∉ line) (lines : Nat)
    (behind : List Char) : skipLines? (lines + 1) (line ++ '\n' :: behind) = skipLines? lines behind := by
  induction line with
  | nil => rw [List.nil_append, skipLines?, if_pos rfl]
  | cons c rest ih =>
      rw [List.mem_cons, not_or] at unbroken
      rw [List.cons_append, skipLines?, if_neg (Ne.symm unbroken.1), ih unbroken.2]

/-- A piece is glued to others by a separator. -/
theorem glue_cons {separator : Char} {pieces : List (List Char)} (nonempty : pieces ≠ [])
    (piece : List Char) : glue separator (piece :: pieces) = piece ++ separator :: glue separator pieces := by
  cases pieces with
  | nil => exact absurd rfl nonempty
  | cons second others => rfl

/-- Skipping as many lines as stand in front leaves the last one and what is behind. -/
theorem skipLines?_glue {lines : List (List Char)} (unbroken : ∀ line ∈ lines, '\n' ∉ line)
    (last behind : List Char) :
    skipLines? lines.length (glue '\n' (lines ++ [last]) ++ behind) = some (last ++ behind) := by
  induction lines with
  | nil => rw [List.length_nil, List.nil_append, glue, skipLines?]
  | cons line rest ih =>
      rw [List.cons_append, glue_cons (List.concat_ne_nil last rest), List.append_assoc, List.cons_append,
        List.length_cons, skipLines?_line (unbroken line List.mem_cons_self),
        ih fun other listed => unbroken other (List.mem_cons_of_mem _ listed)]

/-- Every text is some lines and the beginning of another one. -/
theorem exists_glue_lines (cs : List Char) :
    ∃ lines last, cs = glue '\n' (lines ++ [last]) ∧ (∀ line ∈ lines, '\n' ∉ line) ∧ '\n' ∉ last := by
  obtain ⟨lines, last, split⟩ :=
    (List.eq_nil_or_concat' (pieces '\n' cs)).resolve_left (pieces_ne_nil '\n' cs)
  have unbroken : ∀ line ∈ lines ++ [last], '\n' ∉ line := fun line listed =>
    notMem_of_mem_pieces (split ▸ listed)
  refine ⟨lines, last, by rw [← split, glue_pieces], fun line listed => ?_, ?_⟩
  · exact unbroken line (List.mem_append_left _ listed)
  · exact unbroken last List.mem_concat_self

/-! ## Characters and bytes -/

/-- A text has no more characters than bytes. -/
theorem length_le_utf8Len (cs : List Char) : cs.length ≤ utf8Len cs := by
  induction cs with
  | nil => exact Nat.le_refl 0
  | cons c rest ih => exact Nat.add_le_add ih c.utf8Size_pos

/-- The characters that begin before a cut are those in front of it. -/
theorem charactersBefore_append (front behind : List Char) :
    charactersBefore (utf8Len front) (front ++ behind) = front := by
  induction front with
  | nil => cases behind <;> rfl
  | cons c rest ih =>
      have positive : utf8Len (c :: rest) ≠ 0 := fun none => List.cons_ne_nil c rest (utf8Len_eq_zero.mp none)
      rw [List.cons_append, charactersBefore, if_neg positive, utf8Len_cons, Nat.add_sub_cancel, ih]

/-- An offset at which a text can be cut lies in it. -/
theorem le_utf8ByteSize_of_isBoundary {source : String} {offset : Nat}
    (cuts : isBoundary offset source.toList = true) : offset ≤ source.utf8ByteSize := by
  obtain ⟨front, behind, whole, rfl⟩ := isBoundary_iff.mp cuts
  rw [← utf8Len_toList, whole, utf8Len_append]
  exact Nat.le_add_right _ _

/-- Between the offsets on both sides of a key stands the key. -/
theorem between?_append (front key behind : List Char) :
    between? (utf8Len front) (utf8Len (front ++ key)) (front ++ key ++ behind) = some key := by
  rw [between?, utf8Len_append, if_pos (Nat.le_add_right _ _), List.append_assoc, dropBytes?_append,
    Option.bind_some, Nat.add_sub_cancel_left, takeBytes?_append]

/-- A text has no more bytes than characters when every character takes one. -/
theorem utf8Len_eq_length_iff {cs : List Char} :
    utf8Len cs = cs.length ↔ ∀ c ∈ cs, c.utf8Size = 1 := by
  induction cs with
  | nil => simp
  | cons c rest ih =>
      have least := length_le_utf8Len rest
      have positive := c.utf8Size_pos
      rw [List.forall_mem_cons, ← ih, utf8Len_cons, List.length_cons]
      omega

namespace Place

/-! ## The order of places -/

/-- Places compare by their lines, and by their characters on one line. -/
def order (place : Place) : ℕ ×ₗ ℕ :=
  toLex (place.lines, place.characters)

/-- Each character leads to a later place. -/
theorem order_lt_order_past (place : Place) (c : Char) : place.order < (place.past c).order := by
  rw [order, order, Prod.Lex.toLex_lt_toLex, past]
  split
  · exact .inl (Nat.lt_succ_self _)
  · exact .inr ⟨rfl, Nat.lt_succ_self _⟩

/-- Several characters lead to no earlier one. -/
theorem order_le_order_foldl_past (place : Place) (cs : List Char) :
    place.order ≤ (cs.foldl past place).order := by
  induction cs generalizing place with
  | nil => exact le_rfl
  | cons c rest ih => exact (place.order_lt_order_past c).le.trans (ih (place.past c))

/-- Reading on leads to a later place. -/
theorem order_lt_order_foldl_past (place : Place) {cs : List Char} (nonempty : cs ≠ []) :
    place.order < (cs.foldl past place).order := by
  cases cs with
  | nil => exact absurd rfl nonempty
  | cons c rest =>
      exact (place.order_lt_order_past c).trans_le ((place.past c).order_le_order_foldl_past rest)

/-! ## The way to a place -/

/-- On one line every character counts. -/
theorem foldl_past_line {line : List Char} (unbroken : '\n' ∉ line) (place : Place) :
    line.foldl past place = ⟨place.lines, place.characters + line.length⟩ := by
  induction line generalizing place with
  | nil => rfl
  | cons c rest ih =>
      rw [List.mem_cons, not_or] at unbroken
      rw [List.foldl_cons, ih unbroken.2, past, if_neg (Ne.symm unbroken.1), List.length_cons,
        Nat.add_right_comm, Nat.add_assoc]

/-- Behind some lines, each of them and every character of the last one counts. -/
theorem foldl_past_glue {lines : List (List Char)} (unbroken : ∀ line ∈ lines, '\n' ∉ line)
    {last : List Char} (unended : '\n' ∉ last) (before : Nat) :
    (glue '\n' (lines ++ [last])).foldl past ⟨before, 0⟩ = ⟨before + lines.length, last.length⟩ := by
  induction lines generalizing before with
  | nil => exact (foldl_past_line unended ⟨before, 0⟩).trans (by rw [Nat.zero_add]; rfl)
  | cons first rest ih =>
      have next : past ⟨before, 0 + first.length⟩ '\n' = ⟨before + 1, 0⟩ := if_pos rfl
      rw [List.cons_append, glue_cons (List.concat_ne_nil last rest), List.foldl_append,
        foldl_past_line (unbroken first List.mem_cons_self), List.foldl_cons, next,
        ih (fun other listed => unbroken other (List.mem_cons_of_mem _ listed)), List.length_cons,
        Nat.add_assoc, Nat.add_comm 1]

/-- The offset of a place: down the lines before it, then along the characters before it. Gives nothing when
the text has no such place. -/
def offset? (place : Place) (source : String) : Option Nat :=
  ((skipLines? place.lines source.toList).bind (skipCharacters? place.characters)).map fun rest =>
    source.utf8ByteSize - utf8Len rest

variable {source : String}

/-- The place of an offset is the one that the characters in front of it lead to. -/
theorem ofOffset_of_append {front behind : List Char} (whole : source.toList = front ++ behind) :
    ofOffset source (utf8Len front) = front.foldl past first := by
  rw [ofOffset, whole, charactersBefore_append]

/-- Of two cuts of a text, the later one has the later place. -/
theorem order_ofOffset_lt {earlier later : Nat} (cutsEarlier : isBoundary earlier source.toList = true)
    (cutsLater : isBoundary later source.toList = true) (ordered : earlier < later) :
    (ofOffset source earlier).order < (ofOffset source later).order := by
  obtain ⟨front, behind, whole, rfl⟩ := isBoundary_iff.mp cutsEarlier
  obtain ⟨further, last, same, rfl⟩ := isBoundary_iff.mp cutsLater
  obtain ⟨between, rfl, -⟩ := exists_between_of_le (whole.symm.trans same) ordered.le
  have nonempty : between ≠ [] := by
    rintro rfl
    rw [List.append_nil] at ordered
    exact lt_irrefl _ ordered
  rw [ofOffset_of_append whole, ofOffset_of_append same, List.foldl_append]
  exact order_lt_order_foldl_past _ nonempty

/-- The place of a cut leads back to it. -/
theorem offset?_ofOffset {offset : Nat} (cuts : isBoundary offset source.toList = true) :
    (ofOffset source offset).offset? source = some offset := by
  obtain ⟨front, behind, whole, rfl⟩ := isBoundary_iff.mp cuts
  have place := ofOffset_of_append whole
  -- Both ways go line by line, so what stands in front of the cut is taken as lines.
  obtain ⟨lines, last, rfl, unbroken, unended⟩ := exists_glue_lines front
  have size : source.utf8ByteSize = utf8Len (glue '\n' (lines ++ [last])) + utf8Len behind := by
    rw [← utf8Len_toList, whole, utf8Len_append]
  rw [place, first, foldl_past_glue unbroken unended, offset?, whole, Nat.zero_add,
    skipLines?_glue unbroken, Option.bind_some, skipCharacters?_append, Option.map_some, size,
    Nat.add_sub_cancel]

/-! ## How far places reach -/

/-- The lines before a place are the line ends that were read. -/
theorem lines_foldl_past (place : Place) (cs : List Char) :
    (cs.foldl past place).lines = place.lines + cs.count '\n' := by
  induction cs generalizing place with
  | nil => rfl
  | cons c rest ih =>
      rw [List.foldl_cons, ih, past]
      by_cases ends : c = '\n'
      · rw [if_pos ends, ends, List.count_cons_self, Nat.add_assoc, Nat.add_comm 1]
      · rw [if_neg ends, List.count_cons_of_ne ends]

/-- Every character that is read counts once at most. -/
theorem lines_add_characters_foldl_past_le (place : Place) (cs : List Char) :
    (cs.foldl past place).lines + (cs.foldl past place).characters ≤
      place.lines + place.characters + cs.length := by
  induction cs generalizing place with
  | nil => exact le_rfl
  | cons c rest ih =>
      have step : (place.past c).lines + (place.past c).characters ≤
          place.lines + place.characters + 1 := by
        rw [past]
        split <;> dsimp only <;> omega
      have later := ih (place.past c)
      rw [List.foldl_cons, List.length_cons]
      omega

/-- No more lines and characters stand before a cut than bytes. -/
theorem lines_add_characters_ofOffset_le {offset : Nat}
    (cuts : isBoundary offset source.toList = true) :
    (ofOffset source offset).lines + (ofOffset source offset).characters ≤ offset := by
  obtain ⟨front, behind, whole, rfl⟩ := isBoundary_iff.mp cuts
  rw [ofOffset_of_append whole]
  exact ((lines_add_characters_foldl_past_le first front).trans_eq (Nat.zero_add _)).trans
    (length_le_utf8Len front)

/-- As many lines as there are bytes stand before the end of a text when it is nothing but line ends. -/
theorem lines_ofOffset_utf8ByteSize_iff :
    (ofOffset source source.utf8ByteSize).lines = source.utf8ByteSize ↔
      ∀ c ∈ source.toList, c = '\n' := by
  have bytes := length_le_utf8Len source.toList
  have ends : source.toList.count '\n' ≤ source.toList.length := List.count_le_length
  rw [← utf8Len_toList, ofOffset_of_append (List.append_nil _).symm, lines_foldl_past]
  have same : source.toList.count '\n' = source.toList.length ↔ ∀ c ∈ source.toList, '\n' = c :=
    List.count_eq_length
  constructor
  · intro all c listed
    have none : first.lines = 0 := rfl
    exact (same.mp (by omega) c listed).symm
  · intro all
    have single : utf8Len source.toList = source.toList.length :=
      utf8Len_eq_length_iff.mpr fun c listed => by rw [all c listed]; rfl
    have whole := same.mpr fun c listed => (all c listed).symm
    exact (Nat.zero_add _).trans (whole.trans single.symm)

/-- As many characters as there are bytes stand on the line before the end of a text when it is one line of
single bytes. -/
theorem characters_ofOffset_utf8ByteSize_iff :
    (ofOffset source source.utf8ByteSize).characters = source.utf8ByteSize ↔
      ∀ c ∈ source.toList, c ≠ '\n' ∧ c.utf8Size = 1 := by
  have bytes := length_le_utf8Len source.toList
  have counted := lines_add_characters_foldl_past_le first source.toList
  have ends := lines_foldl_past first source.toList
  have none : first.lines = 0 ∧ first.characters = 0 := ⟨rfl, rfl⟩
  rw [← utf8Len_toList, ofOffset_of_append (List.append_nil _).symm, forall₂_and,
    ← utf8Len_eq_length_iff]
  constructor
  · intro all
    refine ⟨fun c listed same => ?_, by omega⟩
    have some : 0 < source.toList.count '\n' := List.count_pos_iff.mpr (same ▸ listed)
    omega
  · rintro ⟨unbroken, single⟩
    rw [foldl_past_line (fun listed => unbroken _ listed rfl), single]
    exact Nat.zero_add _

end Place

end Text

namespace Position

/-! ## The order of positions -/

/-- Positions compare by their lines, and by their columns on one line. -/
def order (position : Position) : ℕ ×ₗ ℕ :=
  toLex (position.line, position.column)

/-- The place of a position: the lines and characters that are to be skipped to get there. -/
def place (position : Position) : Text.Place :=
  ⟨position.line - 1, position.column - 1⟩

/-- One more than a number of 32 bits is zero for the last of them. -/
theorem toNat_ofNat_add_one {count : Nat} (small : count < 2 ^ 32) :
    (UInt32.ofNat count + 1).toNat = if count + 1 = 2 ^ 32 then 0 else count + 1 := by
  have sum : (UInt32.ofNat count + 1).toNat = (count % 2 ^ 32 + 1) % 2 ^ 32 := by
    rw [UInt32.toNat_add, UInt32.toNat_ofNat']
    rfl
  rw [sum, Nat.mod_eq_of_lt small]
  split
  · next last => rw [last, Nat.mod_self]
  · next room => exact Nat.mod_eq_of_lt (by omega)

variable {place : Text.Place}

/-- A position fits 32 bits unless one of its counts is the largest number of them already. -/
theorem fits_ofPlace_iff (lines : place.lines < 2 ^ 32) (characters : place.characters < 2 ^ 32) :
    (ofPlace place).fits = true ↔ place.lines + 1 ≠ 2 ^ 32 ∧ place.characters + 1 ≠ 2 ^ 32 := by
  simp only [fits, ofPlace, toNat_ofNat_add_one lines, toNat_ofNat_add_one characters, Bool.and_eq_true,
    decide_eq_true_eq]
  split <;> split <;> simp_all

/-- Where 32 bits are enough, a position is one more than its place. -/
theorem ofPlace_of_fits (lines : place.lines < 2 ^ 32) (characters : place.characters < 2 ^ 32)
    (fits : (ofPlace place).fits = true) :
    ofPlace place = ⟨place.lines + 1, place.characters + 1⟩ := by
  obtain ⟨noLast, noLastHere⟩ := (fits_ofPlace_iff lines characters).mp fits
  rw [ofPlace, toNat_ofNat_add_one lines, toNat_ofNat_add_one characters, if_neg noLast,
    if_neg noLastHere]

variable {source : String} {offset : Nat}

/-- In a text of less than 2^32 bytes, 32 bits are not enough for one cut only: the end of a text of
2^32 - 1 bytes that is nothing but line ends, or one line of single bytes. -/
theorem fits_ofOffset_eq_false_iff (small : source.utf8ByteSize < 2 ^ 32)
    (cuts : Text.isBoundary offset source.toList = true) :
    (ofOffset source offset).fits = false ↔
      offset = 2 ^ 32 - 1 ∧ ((∀ c ∈ source.toList, c = '\n') ∨
        ∀ c ∈ source.toList, c ≠ '\n' ∧ c.utf8Size = 1) := by
  have inside := Text.le_utf8ByteSize_of_isBoundary cuts
  have counted := Text.Place.lines_add_characters_ofOffset_le cuts
  have lines : (Text.Place.ofOffset source offset).lines < 2 ^ 32 := by omega
  have characters : (Text.Place.ofOffset source offset).characters < 2 ^ 32 := by omega
  rw [← Bool.not_eq_true, ofOffset, fits_ofPlace_iff lines characters, not_and_or, not_not, not_not,
    ← Text.Place.lines_ofOffset_utf8ByteSize_iff, ← Text.Place.characters_ofOffset_utf8ByteSize_iff]
  -- Only the last of all offsets leaves so many lines or characters behind, and only when it is the end.
  constructor
  · intro reaches
    have ending : offset = source.utf8ByteSize := by omega
    rw [← ending]
    omega
  · rintro ⟨last, reaches⟩
    have ending : offset = source.utf8ByteSize := by omega
    rw [← ending] at reaches
    omega

/-- Where 32 bits are enough, a position is one more than the place of its cut. -/
theorem ofOffset_of_fits (small : source.utf8ByteSize < 2 ^ 32)
    (cuts : Text.isBoundary offset source.toList = true) (fits : (ofOffset source offset).fits = true) :
    ofOffset source offset = ⟨(Text.Place.ofOffset source offset).lines + 1,
      (Text.Place.ofOffset source offset).characters + 1⟩ := by
  have inside := Text.le_utf8ByteSize_of_isBoundary cuts
  have counted := Text.Place.lines_add_characters_ofOffset_le cuts
  exact ofPlace_of_fits (by omega) (by omega) fits

/-- Positions are ordered like the places that they are one more than. -/
theorem order_lt_order_iff {first second : Text.Place} :
    (Position.mk (first.lines + 1) (first.characters + 1)).order <
        (Position.mk (second.lines + 1) (second.characters + 1)).order ↔
      first.order < second.order := by
  simp only [order, Text.Place.order, Prod.Lex.toLex_lt_toLex, Nat.add_lt_add_iff_right,
    Nat.add_right_cancel_iff]

end Position

namespace Text

/-- What stands between two cuts of a text is found there. -/
theorem exists_between? {source : String} {start stop : Nat}
    (cutsStart : isBoundary start source.toList = true)
    (cutsStop : isBoundary stop source.toList = true) (ordered : start ≤ stop) :
    ∃ before key behind : String, source = before ++ key ++ behind ∧ before.utf8ByteSize = start ∧
      (before ++ key).utf8ByteSize = stop ∧
      (between? start stop source.toList).map String.ofList = some key := by
  obtain ⟨front, behind, whole, rfl⟩ := isBoundary_iff.mp cutsStart
  obtain ⟨further, last, same, rfl⟩ := isBoundary_iff.mp cutsStop
  obtain ⟨key, rfl, -⟩ := exists_between_of_le (whole.symm.trans same) ordered
  refine ⟨.ofList front, .ofList key, .ofList last, ?_, ?_, ?_, ?_⟩
  · rw [← String.ofList_append, ← String.ofList_append, ← same, String.ofList_toList]
  · exact String.utf8ByteSize_ofList front
  · rw [← String.ofList_append, String.utf8ByteSize_ofList]
  · rw [same, between?_append, Option.map_some]

end Text

namespace Diagnostic

/-- Where a text can be cut, a warning that begins there is told as far as 32 bits reach. -/
theorem told?_warning {source : String} {start : Nat} (cuts : Text.isBoundary start source.toList = true)
    (file : Path) (stop code : Nat) (message : String) :
    (warning file source ⟨start, stop⟩ code message).told? source =
      if (Position.ofOffset source start).fits then
        some (warning file source ⟨start, stop⟩ code message)
      else none := by
  rw [told?, show (warning file source ⟨start, stop⟩ code message).start = start from rfl, cuts,
    Bool.or_true, Bool.true_and]
  rfl

end Diagnostic

end BarrelSynthesis
