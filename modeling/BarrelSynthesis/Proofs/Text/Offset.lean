/-
# Cutting a text at an offset

An offset is a place to cut a text at when some characters at its beginning take that many bytes. These
characters are what is taken there, and the others are what is left out. As every character takes at least
one byte, two cuts of one text are ordered like their offsets.
-/
import BarrelSynthesis.Text.Offset
import Mathlib.Data.String.Basic

namespace BarrelSynthesis.Text

open String (utf8Len utf8Len_nil utf8Len_cons utf8Len_append utf8Len_eq_zero)

theorem exists_add_utf8Size_eq_succ (offset : Nat) (c : Char) :
    ∃ before, offset + c.utf8Size = before + 1 :=
  Nat.exists_eq_add_one.mpr (Nat.add_pos_right offset c.utf8Size_pos)

/-- Leaving out a whole character and some bytes more is leaving out these behind the character. -/
theorem dropBytes?_add_utf8Size (offset : Nat) (c : Char) (rest : List Char) :
    dropBytes? (offset + c.utf8Size) (c :: rest) = dropBytes? offset rest := by
  obtain ⟨before, same⟩ := exists_add_utf8Size_eq_succ offset c
  rw [same, dropBytes?, ← same, if_pos (Nat.le_add_left _ _), Nat.add_sub_cancel]

/-- Taking a whole character and some bytes more is taking these behind the character. -/
theorem takeBytes?_add_utf8Size (offset : Nat) (c : Char) (rest : List Char) :
    takeBytes? (offset + c.utf8Size) (c :: rest) = (takeBytes? offset rest).map (c :: ·) := by
  obtain ⟨before, same⟩ := exists_add_utf8Size_eq_succ offset c
  rw [same, takeBytes?, ← same, if_pos (Nat.le_add_left _ _), Nat.add_sub_cancel]

/-- Leaving out the bytes of a front leaves what stands behind it. -/
theorem dropBytes?_append (front behind : List Char) :
    dropBytes? (utf8Len front) (front ++ behind) = some behind := by
  induction front with
  | nil => rw [utf8Len_nil, List.nil_append, dropBytes?]
  | cons c rest ih => rw [utf8Len_cons, List.cons_append, dropBytes?_add_utf8Size, ih]

/-- Taking the bytes of a front takes the front. -/
theorem takeBytes?_append (front behind : List Char) :
    takeBytes? (utf8Len front) (front ++ behind) = some front := by
  induction front with
  | nil => rw [utf8Len_nil, List.nil_append, takeBytes?]
  | cons c rest ih =>
      rw [utf8Len_cons, List.cons_append, takeBytes?_add_utf8Size, ih, Option.map_some]

/-- What is left out takes as many bytes as were asked for. -/
theorem exists_front_of_dropBytes? {offset : Nat} {cs behind : List Char}
    (cut : dropBytes? offset cs = some behind) :
    ∃ front, cs = front ++ behind ∧ utf8Len front = offset := by
  fun_induction dropBytes? offset cs with
  | case1 cs => exact ⟨[], Option.some.inj cut, rfl⟩
  | case2 offset => cases cut
  | case3 offset c rest fits ih =>
      obtain ⟨front, rfl, length⟩ := ih cut
      refine ⟨c :: front, rfl, ?_⟩
      rw [utf8Len_cons, length]
      omega
  | case4 offset c rest wide => cases cut

/-- A text can be cut at an offset when it begins with that many bytes. -/
theorem isBoundary_iff {offset : Nat} {cs : List Char} :
    isBoundary offset cs = true ↔ ∃ front behind, cs = front ++ behind ∧ utf8Len front = offset := by
  rw [isBoundary, Option.isSome_iff_exists]
  constructor
  · rintro ⟨behind, cut⟩
    obtain ⟨front, shape, length⟩ := exists_front_of_dropBytes? cut
    exact ⟨front, behind, shape, length⟩
  · rintro ⟨front, behind, rfl, rfl⟩
    exact ⟨behind, dropBytes?_append front behind⟩

/-- Of two cuts of a text, the later one leaves out what the earlier one does and what lies between. -/
theorem exists_between_of_le {front behind further last : List Char}
    (same : front ++ behind = further ++ last) (ordered : utf8Len front ≤ utf8Len further) :
    ∃ between, further = front ++ between ∧ behind = between ++ last := by
  rcases List.append_eq_append_iff.mp same with ⟨between, shape, rest⟩ | ⟨between, shape, rest⟩
  · exact ⟨between, shape, rest⟩
  · have none : between = [] := by
      rw [shape, utf8Len_append] at ordered
      exact utf8Len_eq_zero.mp (by omega)
    subst none
    exact ⟨[], by simpa using shape.symm, by simpa using rest.symm⟩

end BarrelSynthesis.Text
