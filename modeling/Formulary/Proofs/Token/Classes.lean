/-
# Classes of characters

Which characters can begin or go on with a name, an operator or a number, and which of these
classes exclude each other.  In a written program every name, number and text is followed by a
delimiter, so that it ends where it was meant to.
-/
import Mathlib.Data.Bool.AllAny
import Formulary.Proofs.Data.Lists
import Formulary.Proofs.Parsing.Characters
import Formulary.Token.Reading

namespace Formulary.Token

open Text Word Parsing

/-- The characters that follow words in a written program. -/
def delimiters : List Char := [' ', '\n', ',', '(', ')', '[', ']', '\x7b', '\x7d']

/-- The text ends or goes on with a delimiter. -/
def Stops (text : List Char) : Prop := ∀ c ∈ text.head?, c ∈ delimiters

/-- The characters that close a group. -/
def closers : List Char := [')', ']', '\x7d']

/-- The text ends or goes on with the end of a group. -/
def Shuts (text : List Char) : Prop := ∀ c ∈ text.head?, c ∈ closers

variable {c : Char} {cs ds : List Char}

lemma stops_nil : Stops [] := fun _ h => by cases h

lemma stops_cons (h : c ∈ delimiters) : Stops (c :: cs) := by
  intro d hd
  cases hd
  exact h

lemma shuts_nil : Shuts [] := fun _ h => by cases h

lemma shuts_cons (h : c ∈ closers) : Shuts (c :: cs) := by
  intro d hd
  cases hd
  exact h

/-! ## Delimiters and operators -/

lemma class_of_delimiter (h : c ∈ delimiters) : isNamePart c = false ∧ isOperatorChar c = false ∧
    c ≠ '.' ∧ c ≠ '"' ∧ c ≠ '#' := by
  have hall : ∀ c ∈ delimiters, isNamePart c = false ∧ isOperatorChar c = false ∧
      c ≠ '.' ∧ c ≠ '"' ∧ c ≠ '#' := List.all_iff_forall_prop.mp (by decide)
  exact hall c h

lemma class_of_closer (h : c ∈ closers) : isNameStart c = false ∧ isOperatorChar c = false ∧
    isBlank c = false ∧ c.isDigit = false ∧ c ∉ ['-', ',', '"', 'r', '(', '[', '\x7b'] := by
  have hall : ∀ c ∈ closers, isNameStart c = false ∧ isOperatorChar c = false ∧
      isBlank c = false ∧ c.isDigit = false ∧ c ∉ ['-', ',', '"', 'r', '(', '[', '\x7b'] :=
    List.all_iff_forall_prop.mp (by decide)
  exact hall c h

lemma class_of_operatorChar (h : isOperatorChar c = true) : isNameStart c = false ∧
    c.isDigit = false ∧ c ∉ [',', '"', 'r'] := by
  have hall : ∀ c ∈ operatorChars, isNameStart c = false ∧
      c.isDigit = false ∧ c ∉ [',', '"', 'r'] := List.all_iff_forall_prop.mp (by decide)
  exact hall c (List.contains_iff_mem.mp h)

/-! ## Names and digits -/

/-- The ten digits. -/
def digitChars : List Char := ['0', '1', '2', '3', '4', '5', '6', '7', '8', '9']

lemma mem_digitChars (h : c.isDigit = true) : c ∈ digitChars := by
  have hall : ∀ n < 58, 48 ≤ n → Char.ofNat n ∈ digitChars := by decide
  simp only [Char.isDigit, Bool.and_eq_true, decide_eq_true_eq] at h
  have hlow : 48 ≤ c.toNat := h.1
  have hhigh : c.toNat ≤ 57 := h.2
  have hmem := hall c.toNat (by omega) hlow
  rwa [Char.ofNat_toNat] at hmem

lemma class_of_digit (h : c.isDigit = true) : isNameStart c = false ∧ isNamePart c = true ∧
    c ∉ ['-', ',', '.'] := by
  have hall : ∀ c ∈ digitChars,
      isNameStart c = false ∧ isNamePart c = true ∧ c ∉ ['-', ',', '.'] :=
    List.all_iff_forall_prop.mp (by decide)
  exact hall c (mem_digitChars h)

lemma isNamePart_of_isNameStart (h : isNameStart c = true) : isNamePart c = true := by
  unfold isNamePart
  unfold isNameStart at h
  rw [h]
  rfl

lemma not_isDigit_of_isNameStart (h : isNameStart c = true) : c.isDigit = false := by
  cases hc : c.isDigit with
  | false => rfl
  | true =>
    rw [(class_of_digit hc).1] at h
    cases h

lemma class_of_isNamePart (h : isNamePart c = true) :
    c ∉ ['-', ',', '"', '(', '[', '\x7b', ')', ']', '\x7d', ' ', '\n', '.', '#', '\\'] :=
  not_mem_of_class h (List.all_iff_forall_prop.mp (by decide))

/-! ## White space -/

/-- The code points of white space. -/
def blankCodes : List Nat :=
  [0x9, 0xa, 0xb, 0xc, 0xd, 0x20, 0x85, 0xa0, 0x1680, 0x2000, 0x2001, 0x2002, 0x2003, 0x2004,
    0x2005, 0x2006, 0x2007, 0x2008, 0x2009, 0x200a, 0x2028, 0x2029, 0x202f, 0x205f, 0x3000]

lemma mem_blankCodes (h : isBlank c = true) : c.toNat ∈ blankCodes := by
  obtain ⟨r, hr, hlow, hhigh⟩ := inRanges_iff.mp h
  have hall : ∀ r ∈ blankRanges, ∀ n < r.2 - r.1 + 1, r.1 + n ∈ blankCodes := by decide
  have hmem := hall r hr (c.toNat - r.1) (by omega)
  rwa [Nat.add_sub_cancel' hlow] at hmem

lemma class_of_blank (h : isBlank c = true) : isNamePart c = false ∧ isOperatorChar c = false ∧
    c.isDigit = false ∧
    c ∉ ['-', ',', '"', '.', '#', '\\', 'r', '(', '[', '\x7b', ')', ']', '\x7d'] := by
  have hall : ∀ n ∈ blankCodes, isNamePart (Char.ofNat n) = false ∧
      isOperatorChar (Char.ofNat n) = false ∧ (Char.ofNat n).isDigit = false ∧
      Char.ofNat n ∉
        ['-', ',', '"', '.', '#', '\\', 'r', '(', '[', '\x7b', ')', ']', '\x7d'] := by
    decide +kernel
  have hclass := hall c.toNat (mem_blankCodes h)
  rwa [Char.ofNat_toNat] at hclass

lemma not_isNameStart_of_isBlank (h : isBlank c = true) : isNameStart c = false := by
  cases hc : isNameStart c with
  | false => rfl
  | true =>
    have hpart := isNamePart_of_isNameStart hc
    rw [(class_of_blank h).1] at hpart
    cases hpart

/-- A class without white space holds of no white space. -/
lemma not_isBlank_of_class {q : Char → Bool} (hq : ∀ c, isBlank c = true → q c = false)
    (h : q c = true) : isBlank c = false := by
  cases hc : isBlank c with
  | false => rfl
  | true =>
    rw [hq c hc] at h
    cases h

lemma not_isBlank_of_isNameStart (h : isNameStart c = true) : isBlank c = false :=
  not_isBlank_of_class (fun _ => not_isNameStart_of_isBlank) h

lemma not_isBlank_of_isDigit (h : c.isDigit = true) : isBlank c = false :=
  not_isBlank_of_class (fun _ hc => (class_of_blank hc).2.2.1) h

lemma not_isBlank_of_isOperatorChar (h : isOperatorChar c = true) : isBlank c = false :=
  not_isBlank_of_class (fun _ hc => (class_of_blank hc).2.1) h

/-- The characters of a bare name. -/
lemma exists_of_isBareName {n : String} (h : isBareName n = true) : ∃ c cs, n.toList = c :: cs ∧
    isNameStart c = true ∧ ∀ d ∈ cs, isNamePart d = true := by
  unfold isBareName at h
  split at h
  · cases h
  · rename_i c cs hn
    rw [Bool.and_eq_true, List.all_eq_true] at h
    exact ⟨c, cs, hn, h.1, h.2⟩

lemma length?_namePattern {n : String} (h : isBareName n = true)
    (hds : ∀ d ∈ ds.head?, isNamePart d = false) :
    namePattern.length? (n.toList ++ ds) = some n.toList.length := by
  obtain ⟨c, cs, hn, hc, hcs⟩ := exists_of_isBareName h
  rw [hn]
  simp only [namePattern, List.cons_append, hc, if_true, runLength_append hcs hds]
  rw [List.length_cons, Nat.add_comm]

lemma length?_namePattern_eq_none (h : ∀ c ∈ cs.head?, isNameStart c = false) :
    namePattern.length? cs = none := by
  cases cs with
  | nil => rfl
  | cons c cs => simp [namePattern, h c rfl]

/-! ## Numbers -/

lemma unsignedLength?_eq_none (h : ∀ c ∈ cs.head?, c.isDigit = false) : unsignedLength? cs = none := by
  have hlen : Pattern.runLength Char.isDigit ([] ++ cs) = 0 :=
    runLength_append (fun _ hc => by cases hc) h
  rw [List.nil_append] at hlen
  simp [unsignedLength?, hlen]

lemma length?_numberPattern_eq_none (h : ∀ c ∈ cs.head?, c ≠ '-' ∧ c.isDigit = false) :
    numberPattern.length? cs = none := by
  have hdigit := unsignedLength?_eq_none fun c hc => (h c hc).2
  unfold numberPattern
  dsimp only
  split
  · rename_i ds
    exact absurd rfl (h '-' rfl).1
  · exact hdigit

/-- A minus that no digit follows does not begin a number. -/
lemma length?_numberPattern_minus (h : ∀ c ∈ cs.head?, c.isDigit = false) :
    numberPattern.length? ('-' :: cs) = none := by
  simp [numberPattern, unsignedLength?_eq_none h]

end Formulary.Token
