/-
# Names and their extensions

A name that ends in a known extension is a stem with that extension behind it, and the stem is never
empty. Of the extensions of emitted files none ends another known extension, nor the other way round,
so a stem with such an extension behind it is read again as what it was made of.
-/
import BarrelSynthesis.Project.Extension
import BarrelSynthesis.Proofs.Path.Sibling

namespace BarrelSynthesis.Extension

/-- The known extension that a file name ends in. -/
def ofName? (name : String) : Option String :=
  known.find? fun extension => endsName extension name

/-- The extension of a path is that of its file name. -/
theorem ofPath?_of_fileName? {path : Path} {name : String} (named : path.fileName? = some name) :
    ofPath? path = ofName? name := by
  rw [ofPath?, named]
  rfl

/-- A name ends in an extension when a stem that is not empty stands before it. -/
theorem endsName_iff {extension name : String} :
    endsName extension name = true ↔ ∃ front, front ≠ "" ∧ name = front ++ extension := by
  rw [endsName, Bool.and_eq_true, decide_eq_true_iff, List.isSuffixOf_iff_suffix]
  constructor
  · rintro ⟨shorter, front, spelled⟩
    refine ⟨String.ofList front, ?_, ?_⟩
    · intro empty
      rw [← String.toList_inj, String.toList_ofList] at empty
      rw [← spelled, empty] at shorter
      exact absurd shorter (Nat.lt_irrefl _)
    · rw [← String.toList_inj, String.toList_append, String.toList_ofList, spelled]
  · rintro ⟨front, filled, rfl⟩
    have visible : 0 < front.toList.length :=
      List.length_pos_iff.mpr fun empty => filled (String.toList_inj.mp empty)
    rw [String.toList_append]
    refine ⟨?_, List.suffix_append _ _⟩
    rw [List.length_append]
    omega

/-- Stripping an extension gives back the stem it was put behind. -/
theorem strip_append (front extension : String) : strip extension (front ++ extension) = front := by
  rw [strip, String.toList_append, List.length_append, Nat.add_sub_cancel, List.take_left,
    String.ofList_toList]

/-- The name of the synthesized aggregator is a component of its own. -/
theorem isSegment_barrelFileName : (Component.name barrelFileName).IsSegment :=
  ⟨by decide, by decide⟩

theorem slash_notMem_of_mem_known {extension : String} (member : extension ∈ known) :
    '/' ∉ extension.toList :=
  (by decide : ∀ extension ∈ known, '/' ∉ extension.toList) extension member

/-- A known extension of a name stands behind its stem. -/
theorem ofName?_eq_some {name extension : String} (found : ofName? name = some extension) :
    extension ∈ known ∧ strip extension name ≠ "" ∧ strip extension name ++ extension = name := by
  refine ⟨List.mem_of_find?_eq_some found, ?_⟩
  have ends := List.find?_some (p := fun extension => endsName extension name) found
  obtain ⟨front, filled, rfl⟩ := endsName_iff.mp ends
  rw [strip_append]
  exact ⟨filled, rfl⟩

/-- A stem has no character that its name has not. -/
theorem notMem_strip {name extension : String} {c : Char} (found : ofName? name = some extension)
    (absent : c ∉ name.toList) : c ∉ (strip extension name).toList := by
  obtain ⟨-, -, spelled⟩ := ofName?_eq_some found
  rw [← spelled, String.toList_append, List.mem_append, not_or] at absent
  exact absent.1

/-- The stem of a path is that of its file name. -/
theorem stem_of_fileName? {path : Path} {name extension : String}
    (named : path.fileName? = some name) (found : ofName? name = some extension) :
    stem path = strip extension name := by
  rw [stem, ofPath?_of_fileName? named, found, named]
  rfl

/-- Of the files that a listing has room for, only data files hold no code. -/
theorem eq_json_of_mem_supported {options : CompilerOptions} {extension : String}
    (member : extension ∈ supported options) (data : isCode extension = false) :
    extension = json := by
  simp only [supported, List.mem_append] at member
  rcases member with (script | script) | listed
  · have code := (by decide : ∀ extension ∈ typeScript, isCode extension = true) _ script
    exact absurd code (by simp [data])
  · split at script
    · have code := (by decide : ∀ extension ∈ javaScript, isCode extension = true) _ script
      exact absurd code (by simp [data])
    · cases script
  · split at listed
    · exact List.mem_singleton.mp listed
    · cases listed

/-- A path is an aggregator by the extension and the stem of its name. -/
theorem isBarrelFile_iff {path : Path} {name extension : String}
    (named : path.fileName? = some name) (found : ofName? name = some extension) :
    isBarrelFile path = true ↔ isCode extension = true ∧ strip extension name = barrelStem := by
  rw [isBarrelFile, ofPath?_of_fileName? named, found, stem_of_fileName? named found, Option.map_some,
    Option.getD_some, Bool.and_eq_true, decide_eq_true_iff]

/-! ## Extensions of emitted files -/

/-- The extensions of emitted code. -/
def emitted : List String :=
  [".mjs", ".cjs", ".jsx", ".js"]

/-- A code file is emitted under an extension of emitted code, whatever the options. -/
theorem output_mem_emitted {extension : String} (options : CompilerOptions)
    (code : isCode extension = true) : output extension options ∈ emitted := by
  rw [output]
  have notData : extension ≠ json := by
    rintro rfl
    exact absurd code (by decide)
  rw [if_neg notData]
  split
  · decide
  · split
    · decide
    · split <;> decide

/-- An emitted extension behind a stem is the extension of the name. -/
theorem ofName?_append_of_mem_emitted {front extension : String} (filled : front ≠ "")
    (member : extension ∈ emitted) : ofName? (front ++ extension) = some extension := by
  -- Two extensions of one name end each other, which an emitted one and another never do.
  have alone : ∀ extension ∈ emitted, ∀ other ∈ known,
      other.toList.isSuffixOf extension.toList ∨ extension.toList.isSuffixOf other.toList →
        other = extension := by decide
  have itself : endsName extension (front ++ extension) = true :=
    endsName_iff.mpr ⟨front, filled, rfl⟩
  cases found : ofName? (front ++ extension) with
  | none =>
      have isKnown : extension ∈ known :=
        (by decide : ∀ extension ∈ emitted, extension ∈ known) _ member
      exact absurd itself (List.find?_eq_none.mp found extension isKnown)
  | some other =>
      obtain ⟨isKnown, -, spelled⟩ := ofName?_eq_some found
      have ends : other.toList <:+ (front ++ extension).toList := by
        rw [← spelled, String.toList_append]
        exact List.suffix_append _ _
      have endsToo : extension.toList <:+ (front ++ extension).toList := by
        rw [String.toList_append]
        exact List.suffix_append _ _
      rw [alone extension member other isKnown]
      simpa only [List.isSuffixOf_iff_suffix] using List.suffix_or_suffix_of_suffix ends endsToo

end BarrelSynthesis.Extension

namespace BarrelSynthesis.Component

/-- A known extension behind a stem makes a name. -/
theorem isSegment_name_append {front extension : String} (whole : '/' ∉ front.toList)
    (member : extension ∈ Extension.known) : (name (front ++ extension)).IsSegment := by
  have endings : ∀ extension ∈ Extension.known, 2 < extension.toList.length := by decide
  have behind := endings extension member
  have long : 2 < (front ++ extension).toList.length := by
    rw [String.toList_append, List.length_append]
    omega
  have ne (text : String) (short : text.toList.length ≤ 2) : front ++ extension ≠ text := by
    rintro rfl
    omega
  refine isSegment_name_iff.mpr ⟨ne "" (by simp), ne "." (by simp), ne ".." (by simp), ?_⟩
  rw [String.toList_append, List.mem_append, not_or]
  exact ⟨whole, Extension.slash_notMem_of_mem_known member⟩

/-- Text without a separator that ends in a known extension is a name. -/
theorem isSegment_of_ofName? {text extension : String} (whole : '/' ∉ text.toList)
    (found : Extension.ofName? text = some extension) : (name text).IsSegment := by
  obtain ⟨known, -, spelled⟩ := Extension.ofName?_eq_some found
  rw [← spelled]
  exact isSegment_name_append (Extension.notMem_strip found whole) known

end BarrelSynthesis.Component
