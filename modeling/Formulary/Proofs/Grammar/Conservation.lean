/-
# Programs hold what their text holds

A text is read into tokens that each have an extent, so everything that the tokens hold counts.
The program that is read from them has exactly the names and the literals that they are written
with, and the name of the result of every closure, which its arrow stands for.
-/
import Formulary.Proofs.Grammar.Balance
import Formulary.Proofs.Token.Lossless
import Formulary.Store.Text

namespace Formulary

open Text Word Parsing Token

/-! ## Tokens at all depths -/

mutual

lemma within_of_mem_leaves {tokens : List (Located Token)} : ∀ (t : Token) (span : Span),
    Within tokens ⟨t, span⟩ → ∀ u ∈ t.leaves span, Within tokens u
  | .group kind ts, span, h, u, hu => by
    rw [leaves] at hu
    exact within_of_mem_listLeaves ts (fun v hv => .inside h hv) u hu
  | .ident _ _, _, h, u, hu | .operator _, _, h, u, hu | .number _ _, _, h, u, hu
  | .bool _, _, h, u, hu | .null, _, h, u, hu | .text _, _, h, u, hu | .comma, _, h, u, hu
  | .space, _, h, u, hu | .lineBreak, _, h, u, hu => by
    rw [leaves, List.mem_singleton] at hu
    rwa [hu]

/-- What is in a row, at any depth, is within the tokens that the row is. -/
lemma within_of_mem_listLeaves {tokens : List (Located Token)} : ∀ ts : List (Located Token),
    (∀ t ∈ ts, Within tokens t) → ∀ u ∈ listLeaves ts, Within tokens u
  | [], _, u, hu => by simp [listLeaves] at hu
  | ⟨t, span⟩ :: ts, h, u, hu => by
    rw [listLeaves, List.mem_append] at hu
    rw [List.forall_mem_cons] at h
    rcases hu with hu | hu
    · exact within_of_mem_leaves t span h.1 u hu
    · exact within_of_mem_listLeaves ts h.2 u hu

end

/-- Tokens that were read from a text have an extent, but for line breaks. -/
lemma not_isEmpty_of_ofText {text : List Char} {tokens : List (Located Token)}
    (h : Token.ofText text = .ok tokens) {t : Located Token} (ht : t ∈ listLeaves tokens)
    (hbreak : t.value ≠ .lineBreak) : t.span.isEmpty = false := by
  have hwithin := within_of_mem_listLeaves tokens (fun t ht => .top ht) t ht
  obtain ⟨before, cs, after, -, hspan, -, hspells⟩ := (lossless_of_ofText h).2.2 t hwithin
  rcases hspells with ⟨-, hne⟩ | ⟨heq, -⟩
  · rw [hspan, Span.isEmpty, Position.after_append, beq_eq_false_iff_ne]
    exact Nat.ne_of_lt (byte_lt_after hne)
  · exact absurd heq hbreak

/-- Nothing without an extent is read from a text. -/
lemma unplaced_of_ofText {text : List Char} {tokens : List (Located Token)}
    (h : Token.ofText text = .ok tokens) : ∀ t ∈ listLeaves tokens, Mark.unplaced ∉ marks t := by
  intro t ht hmem
  have hextent := not_isEmpty_of_ofText h ht
  obtain ⟨token, span⟩ := t
  cases token with
  | number whole fraction =>
    have hspan : span.isEmpty = false := hextent nofun
    simp [marks, isArrow, hspan] at hmem
  | operator symbol =>
    simp only [marks] at hmem
    split at hmem <;> simp at hmem
  | _ => simp [marks, isArrow] at hmem

/-! ## Names, closures and literals among marks -/

/-- An arrow stands for itself alone, a number without extent is marked as such, and all other tokens
hold their name and their value. -/
lemma marks_cases (t : Located Token) :
    (t.value.isArrow = true ∧ t.value.name? = none ∧ t.value.literal? = none ∧
      marks t = [.closure, .name resultName]) ∨
    (t.value.isArrow = false ∧ t.value.name? = none ∧ marks t = [.unplaced]) ∨
    (t.value.isArrow = false ∧ marks t =
      (t.value.name?.map Mark.name).toList ++ (t.value.literal?.map Mark.literal).toList) := by
  obtain ⟨token, span⟩ := t
  cases harrow : token.isArrow with
  | true =>
    cases token with
    | operator symbol =>
      obtain rfl : symbol = arrow := beq_iff_eq.mp harrow
      exact .inl ⟨rfl, rfl, rfl, rfl⟩
    | _ => cases harrow
  | false =>
    refine .inr ?_
    cases token with
    | number whole fraction =>
      cases hempty : span.isEmpty with
      | true => exact .inl ⟨rfl, rfl, by simp [marks, isArrow, hempty]⟩
      | false => exact .inr ⟨rfl, by simp [marks, isArrow, hempty]⟩
    | operator symbol =>
      refine .inr ⟨rfl, ?_⟩
      rw [marks, if_neg (by rw [harrow]; exact Bool.false_ne_true)]
      rfl
    | _ => exact .inr ⟨rfl, rfl⟩

/-- A token holds its name, or that of a result if it is an arrow. -/
lemma names_marks (t : Located Token) : (marks t).filterMap Mark.name? =
    t.value.name?.toList ++ if t.value.isArrow then [resultName] else [] := by
  rcases marks_cases t with ⟨harrow, hname, -, hmarks⟩ | ⟨harrow, hname, hmarks⟩ | ⟨harrow, hmarks⟩
  · rw [hmarks, harrow, hname]
    rfl
  · rw [hmarks, harrow, hname]
    rfl
  · rw [hmarks, harrow]
    cases t.value.name? <;> cases t.value.literal? <;> rfl

lemma closures_marks (t : Located Token) :
    (marks t).countP Mark.isClosure = if t.value.isArrow then 1 else 0 := by
  rcases marks_cases t with ⟨harrow, -, -, hmarks⟩ | ⟨harrow, -, hmarks⟩ | ⟨harrow, hmarks⟩
  · rw [hmarks, harrow]
    rfl
  · rw [hmarks, harrow]
    rfl
  · rw [hmarks, harrow]
    cases t.value.name? <;> cases t.value.literal? <;> rfl

lemma literals_marks {t : Located Token} (h : Mark.unplaced ∉ marks t) :
    (marks t).filterMap Mark.literal? = t.value.literal?.toList := by
  rcases marks_cases t with ⟨-, -, hliteral, hmarks⟩ | ⟨-, -, hmarks⟩ | ⟨-, hmarks⟩
  · rw [hmarks, hliteral]
    rfl
  · exact absurd (hmarks ▸ List.mem_singleton_self _) h
  · rw [hmarks]
    cases t.value.name? <;> cases t.value.literal? <;> rfl

/-- The names that tokens hold, as many results among them as there are closures. -/
lemma names_tally (ts : List (Located Token)) :
    (((ts.flatMap marks).filterMap Mark.name? : List String) : Multiset String) =
      (ts.filterMap (·.value.name?) : List String) +
        Multiset.replicate ((ts.flatMap marks).countP Mark.isClosure) resultName := by
  induction ts with
  | nil => rfl
  | cons t ts ih =>
    rw [List.flatMap_cons, List.filterMap_append, List.countP_append, names_marks, closures_marks,
      ← Multiset.coe_add, ih, ← Multiset.coe_add, Multiset.replicate_add]
    have hname : (((t :: ts).filterMap (·.value.name?) : List String) : Multiset String) =
        (t.value.name?.toList : Multiset String) + (ts.filterMap (·.value.name?) : List String) := by
      rw [List.filterMap_cons]
      cases t.value.name? <;> simp
    have hresult : ((if t.value.isArrow then [resultName] else [] : List String) : Multiset String) =
        Multiset.replicate (if t.value.isArrow then 1 else 0) resultName := by
      split <;> rfl
    rw [hname, hresult]
    abel

/-- The literals that tokens hold. -/
lemma literals_tally {ts : List (Located Token)} (h : ∀ t ∈ ts, Mark.unplaced ∉ marks t) :
    (ts.flatMap marks).filterMap Mark.literal? = ts.filterMap (·.value.literal?) := by
  induction ts with
  | nil => rfl
  | cons t ts ih =>
    rw [List.forall_mem_cons] at h
    rw [List.flatMap_cons, List.filterMap_append, literals_marks h.1, ih h.2, List.filterMap_cons]
    cases t.value.literal? <;> simp

/-- Nothing is lost or read twice when a program is read.  Its names are those of the tokens and
one for the result of every closure, and its literals are those of the tokens, each as often. -/
theorem DefinitionSet.conserved_of_ofText {text : List Char} {p : DefinitionSet.Placed}
    (h : DefinitionSet.ofText text = .ok p) : ∃ tokens, Token.ofText text = .ok tokens ∧
      (p.names : Multiset String) = ((listLeaves tokens).filterMap (·.value.name?) : List String) +
        Multiset.replicate p.closures resultName ∧
      (p.literals : Multiset (Option Matrix)) =
        ((listLeaves tokens).filterMap (·.value.literal?) : List (Option Matrix)) := by
  unfold DefinitionSet.ofText at h
  cases htokens : Token.ofText text with
  | error f =>
    rw [htokens] at h
    cases h
  | ok tokens =>
    rw [htokens] at h
    have hplaced := unplaced_of_ofText htokens
    have hfree : Mark.unplaced ∉ tally tokens := by
      rw [tally, Multiset.mem_coe, List.mem_flatMap]
      rintro ⟨t, ht, hmem⟩
      exact hplaced t ht hmem
    have hperm := Multiset.coe_eq_coe.mp (DefinitionSet.coe_marks_of_ofTokens h hfree)
    refine ⟨tokens, rfl, ?_, ?_⟩
    · rw [DefinitionSet.names, DefinitionSet.closures, hperm.countP_eq, ← names_tally]
      exact Multiset.coe_eq_coe.mpr (hperm.filterMap _)
    · rw [DefinitionSet.literals, ← literals_tally hplaced]
      exact Multiset.coe_eq_coe.mpr (hperm.filterMap _)

/-- A closure with a minus in front of an operand, which is a name and no literal, and a list that
is written out in full: the arrow is no name. -/
theorem DefinitionSet.conserved_of_closure :
    let text := "f = x -> [1.5, -x, [\"a\", no]]".toList
    ∃ p, DefinitionSet.ofText text = .ok p ∧ p.closures = 1 ∧
      (p.names : Multiset String) = (["f", "x", "-", "x"] : List String) + {resultName} ∧
      (p.literals : Multiset (Option Matrix)) = ([some (.number (.ofBits 0x3FF8000000000000)),
        some (.text "a"), some (.bool false)] : List (Option Matrix)) := by
  intro text
  have hrun : (DefinitionSet.ofText text).toOption.map DefinitionSet.closures = some 1 := by
    decide +kernel
  have hwords : (Token.ofText text).toOption.map
      (fun tokens => (listLeaves tokens).filterMap (·.value.name?)) =
      some ["f", "x", "-", "x"] := by decide +kernel
  have hvalues : (Token.ofText text).toOption.map
      (fun tokens => (listLeaves tokens).filterMap (·.value.literal?)) =
      some [some (.number (.ofBits 0x3FF8000000000000)), some (.text "a"), some (.bool false)] := by
    decide +kernel
  obtain ⟨p, hp, hclosures⟩ := Option.map_eq_some_iff.mp hrun
  have hread := eq_ok_of_toOption hp
  obtain ⟨tokens, htokens, hnames, hliterals⟩ := conserved_of_ofText hread
  rw [htokens, Except.toOption, Option.map_some] at hwords hvalues
  refine ⟨p, hread, hclosures, ?_, ?_⟩
  · rw [hnames, Option.some.inj hwords, hclosures]
    rfl
  · rw [hliterals, Option.some.inj hvalues]

end Formulary
