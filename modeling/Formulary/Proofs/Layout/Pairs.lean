/-
# Pairs in written programs

The names and texts of a program are written as they are, apart from quotes and doubled backslashes,
and what stands around them has no carriage return.  So no word begins or ends in the middle of a
pair of a carriage return and a line feed: a written program has such a pair exactly if one of its
words has one.
-/
import Formulary.Proofs.Data.Lists
import Formulary.Proofs.Layout.Program
import Formulary.Proofs.Layout.Same
import Formulary.Proofs.Text.Pairs

namespace Formulary

open Text Word

variable {ε δ σ : Type}

/-! ## Words -/

mutual

/-- The names and texts that are written of a formula. -/
def Formula.words : Formula ε δ σ → List String
  | .node _ s => Shape.words s

/-- The names and texts that are written of a first layer and of all below it. -/
def Shape.words : Shape (Formula ε δ σ) (DefinitionSet ε δ σ) → List String
  | .null | .bool _ | .number _ => []
  | .text value => [value]
  | .name n => [n]
  | .matrix value => value.texts
  | .call callee arguments => callee.words ++ Formula.wordsOf arguments
  | .list items => Formula.wordsOf items
  | .closure parameters body => parameters ++ body.words
  | .switch cases => Case.wordsOf cases

/-- The names and texts that are written of formulas, one by one. -/
def Formula.wordsOf : List (Formula ε δ σ) → List String
  | [] => []
  | f :: fs => f.words ++ Formula.wordsOf fs

/-- The names and texts that are written of the cases of a switch. -/
def Case.wordsOf : List (Case (Formula ε δ σ)) → List String
  | [] => []
  | .when condition value :: cases => condition.words ++ value.words ++ Case.wordsOf cases
  | .otherwise value :: _ => value.words

/-- The names and texts that are written of a set of definitions. -/
def DefinitionSet.words : DefinitionSet ε δ σ → List String
  | .node _ ds _ => Definition.wordsOf ds

/-- The names and texts that are written of definitions, one by one. -/
def Definition.wordsOf : List (Definition ε δ σ) → List String
  | [] => []
  | .node _ n none :: ds => n :: Definition.wordsOf ds
  | .node _ n (some value) :: ds => n :: value.words ++ Definition.wordsOf ds

end

/-- One of the words contains a pair. -/
def AnyPaired (words : List String) : Prop := ∃ w ∈ words, Paired w.toList

instance : DecidablePred AnyPaired := fun words =>
  inferInstanceAs (Decidable (∃ w ∈ words, Paired w.toList))

section AnyPaired

variable {v w : List String} {s : String}

@[simp] lemma not_anyPaired_nil : ¬AnyPaired [] := by simp [AnyPaired]

@[simp] lemma anyPaired_cons_iff : AnyPaired (s :: w) ↔ Paired s.toList ∨ AnyPaired w := by
  simp [AnyPaired]

@[simp] lemma anyPaired_append_iff : AnyPaired (v ++ w) ↔ AnyPaired v ∨ AnyPaired w := by
  simp [AnyPaired, or_and_right, exists_or]

end AnyPaired

/-! ### One by one -/

lemma Formula.anyPaired_wordsOf_iff {fs : List (Formula ε δ σ)} :
    AnyPaired (Formula.wordsOf fs) ↔ ∃ f ∈ fs, AnyPaired f.words := by
  induction fs with
  | nil => simp [Formula.wordsOf]
  | cons f fs ih => simp [Formula.wordsOf, ih]

lemma Matrix.anyPaired_textsOf_iff {ms : List Matrix} :
    AnyPaired (Matrix.textsOf ms) ↔ ∃ m ∈ ms, AnyPaired m.texts := by
  induction ms with
  | nil => simp [Matrix.textsOf]
  | cons m ms ih => simp [Matrix.textsOf, ih]

lemma Case.anyPaired_wordsOf_iff {cs : List (Case (Formula ε δ σ))} :
    AnyPaired (Case.wordsOf cs) ↔
      ∃ c ∈ Case.upToOtherwise cs, ∃ f ∈ c.parts, AnyPaired f.words := by
  induction cs with
  | nil => simp [Case.wordsOf, Case.upToOtherwise]
  | cons c cs ih => cases c <;> simp [Case.wordsOf, Case.upToOtherwise, Case.parts, ih, or_assoc]

lemma Definition.anyPaired_wordsOf_iff {ds : List (Definition ε δ σ)} :
    AnyPaired (Definition.wordsOf ds) ↔
      ∃ d ∈ ds, Paired d.name.toList ∨ ∃ f ∈ d.value, AnyPaired f.words := by
  induction ds with
  | nil => simp [Definition.wordsOf]
  | cons d ds ih =>
    obtain ⟨note, n, _ | value⟩ := d <;>
      simp [Definition.wordsOf, Definition.name, Definition.value, ih, or_assoc]

namespace Layout

/-! ## Texts put together -/

/-- The text does not end in the middle of a pair, and it contains one exactly if the statement
holds. -/
structure PairedIf (s : String) (p : Prop) : Prop where
  getLast?_ne : s.toList.getLast? ≠ some '\r'
  paired_iff : Paired s.toList ↔ p

variable {α : Type} {s t : String} {p q : Prop}

lemma PairedIf.congr (h : PairedIf s p) (hpq : p ↔ q) : PairedIf s q :=
  ⟨h.getLast?_ne, h.paired_iff.trans hpq⟩

lemma pairedIf_of_not_mem (h : '\r' ∉ s.toList) : PairedIf s False :=
  ⟨fun hlast => h (List.mem_of_getLast? hlast), iff_false_intro (not_paired_of_not_mem h)⟩

lemma PairedIf.append (h : PairedIf s p) (h' : PairedIf t q) : PairedIf (s ++ t) (p ∨ q) := by
  constructor
  · rw [String.toList_append, List.getLast?_append]
    cases hlast : t.toList.getLast? with
    | none => exact h.getLast?_ne
    | some c => exact fun heq => h'.getLast?_ne (hlast.trans heq)
  · rw [String.toList_append, paired_append_iff, h.paired_iff, h'.paired_iff]
    simp [h.getLast?_ne]

/-- What stands in front of and behind a text has no carriage return. -/
lemma PairedIf.between (h : PairedIf s p) (before after : String) (hbefore : '\r' ∉ before.toList)
    (hafter : '\r' ∉ after.toList) : PairedIf (before ++ s ++ after) p :=
  (((pairedIf_of_not_mem hbefore).append h).append (pairedIf_of_not_mem hafter)).congr (by simp)

lemma PairedIf.parens (h : PairedIf s p) : PairedIf s!"({s})" p :=
  h.between "(" ")" (by decide) (by decide)

lemma PairedIf.within {fr : Fragment} (h : PairedIf fr.text p) (required : Binding) :
    PairedIf (fr.within required) p := by
  rw [Fragment.within]
  split
  · exact h.parens
  · exact h

lemma pairedIf_join {f : α → String} {p : α → Prop} {as : List α}
    (h : ∀ a ∈ as, PairedIf (f a) (p a)) : PairedIf (String.join (as.map f)) (∃ a ∈ as, p a) := by
  induction as with
  | nil => exact (pairedIf_of_not_mem (by simp)).congr (by simp)
  | cons a as ih =>
    obtain ⟨ha, has⟩ := List.forall_mem_cons.mp h
    rw [List.map_cons, String.join_cons]
    exact (ha.append (ih has)).congr (by simp)

lemma pairedIf_commaSeparated {f : α → String} {p : α → Prop} {as : List α}
    (h : ∀ a ∈ as, PairedIf (f a) (p a)) :
    PairedIf (commaSeparated (as.map f)) (∃ a ∈ as, p a) := by
  induction as with
  | nil => exact (pairedIf_of_not_mem (s := "") (by decide)).congr (by simp)
  | cons a as ih =>
    obtain ⟨ha, has⟩ := List.forall_mem_cons.mp h
    cases as with
    | nil =>
      rw [List.map_singleton, commaSeparated, String.intercalate_singleton]
      exact ha.congr (by simp)
    | cons b as =>
      have hcomma := pairedIf_of_not_mem (s := ", ") (by decide)
      rw [commaSeparated, List.map_cons, List.map_cons, String.intercalate_cons_cons]
      exact ((ha.append hcomma).append (ih has)).congr (by simp)

/-! ## Words and values -/

lemma not_mem_of_isBareName {n : String} (h : isBareName n = true) : '\r' ∉ n.toList := by
  obtain ⟨c, cs, hn, hc, hcs⟩ := Token.exists_of_isBareName h
  have hreturn : isNamePart '\r' = false := by decide
  rw [hn, List.mem_cons, not_or]
  constructor
  · rintro rfl
    exact absurd (Token.isNamePart_of_isNameStart hc) (by simp [hreturn])
  · exact fun hmem => absurd (hcs _ hmem) (by simp [hreturn])

lemma not_mem_of_isOperator {n : String} (h : isOperator n = true) : '\r' ∉ n.toList := by
  simp only [isOperator, Bool.and_eq_true, List.all_eq_true] at h
  exact fun hmem => absurd (h.1.2 _ hmem) (by decide)

/-- What stands in quotes may begin or end in the middle of a pair. -/
lemma pairedIf_quoted (before s after : String) (hbefore : '\r' ∉ before.toList)
    (hafter : '\r' ∉ after.toList) :
    PairedIf (before ++ "\"" ++ s ++ "\"" ++ after) (Paired s.toList) := by
  have hopen : PairedIf (before ++ "\"") False := pairedIf_of_not_mem (by simp [hbefore])
  have hclose : PairedIf ("\"" ++ after) False := pairedIf_of_not_mem (by simp [hafter])
  have hquote : ("\"" ++ after).toList.head? = some '"' := by simp
  rw [String.append_assoc]
  constructor
  · rw [String.toList_append, List.getLast?_append]
    cases hlast : ("\"" ++ after).toList.getLast? with
    | none => simp at hlast
    | some c => exact fun heq => hclose.getLast?_ne (hlast.trans heq)
  · rw [String.toList_append, String.toList_append, paired_append_iff, paired_append_iff,
      hopen.paired_iff, hclose.paired_iff, hquote]
    simp

lemma pairedIf_name (n : String) : PairedIf (name n) (Paired n.toList) := by
  rw [name]
  split
  · rename_i hn
    have hreturn := not_mem_of_isBareName (Bool.and_eq_true_iff.mp hn).1
    exact (pairedIf_of_not_mem hreturn).congr (iff_of_false id (not_paired_of_not_mem hreturn))
  · exact pairedIf_quoted _ n _ (by simp) (by simp)

lemma head?_doubleBackslashes_iff {cs : List Char} :
    (doubleBackslashes cs).head? = some '\n' ↔ cs.head? = some '\n' := by
  cases cs with
  | nil => rfl
  | cons c cs =>
    rw [doubleBackslashes, List.flatMap_cons]
    split
    · rename_i hc
      simp [hc]
    · simp

/-- Backslashes are no part of a pair. -/
lemma paired_doubleBackslashes_iff {cs : List Char} :
    Paired (doubleBackslashes cs) ↔ Paired cs := by
  induction cs with
  | nil => rfl
  | cons c cs ih =>
    rw [doubleBackslashes, List.flatMap_cons, paired_append_iff, ← doubleBackslashes, ih,
      head?_doubleBackslashes_iff, paired_cons_iff]
    split
    · rename_i hc
      have hdoubled : ¬Paired ['\\', '\\'] := not_paired_of_not_mem (by decide)
      simp [hc, hdoubled]
    · simp [paired_cons_iff, not_paired_nil]

lemma pairedIf_text (value : String) : PairedIf (text value) (Paired value.toList) := by
  have hquoted := pairedIf_quoted "" (String.ofList (doubleBackslashes value.toList)) ""
    (by simp) (by simp)
  rw [String.toList_ofList, paired_doubleBackslashes_iff] at hquoted
  simpa [text] using hquoted

lemma not_mem_number (x : Binary64) : '\r' ∉ (number x).toList := by
  cases hfinite : x.isFinite with
  | true =>
    obtain ⟨n, htext, -⟩ := Binary64.exists_numeral hfinite
    have hdigit : '\r'.isDigit = false := by decide
    have hdigits : '\r' ∉ n.whole ++ n.fraction := fun hmem =>
      absurd (n.isDigit_of_mem _ hmem) (by simp [hdigit])
    rw [List.mem_append, not_or] at hdigits
    rw [number, htext, Numeral.text, Numeral.sign, Numeral.tail]
    cases n.negative <;> split <;> simp [hdigits.1, hdigits.2]
  | false =>
    simp only [number, Binary64.write, hfinite, Bool.false_eq_true, if_false]
    cases x.isNaN <;> cases x.negative <;> decide

lemma pairedIf_number (x : Binary64) : PairedIf (number x) False :=
  pairedIf_of_not_mem (not_mem_number x)

lemma pairedIf_bool (v : Bool) : PairedIf (bool v) False :=
  pairedIf_of_not_mem (by cases v <;> decide)

lemma matrices_eq_map (ms : List Matrix) : matrices ms = ms.map matrix := by
  induction ms with
  | nil => rw [matrices, List.map_nil]
  | cons m ms ih => rw [matrices, List.map_cons, ih]

mutual

theorem pairedIf_matrix : ∀ m : Matrix, PairedIf (matrix m) (AnyPaired m.texts)
  | .null => (pairedIf_of_not_mem (s := "null") (by decide)).congr (by simp [Matrix.texts])
  | .bool v => (pairedIf_bool v).congr (by simp [Matrix.texts])
  | .number x => (pairedIf_number x).congr (by simp [Matrix.texts])
  | .text v => (pairedIf_text v).congr (by simp [Matrix.texts])
  | .array entries => by
    rw [matrix, matrices_eq_map, Matrix.texts, Matrix.anyPaired_textsOf_iff]
    exact (pairedIf_commaSeparated (pairedIf_matrices entries)).between "[" "]"
      (by decide) (by decide)

theorem pairedIf_matrices : ∀ ms : List Matrix, ∀ m ∈ ms, PairedIf (matrix m) (AnyPaired m.texts)
  | [] => List.forall_mem_nil _
  | m :: ms => List.forall_mem_cons.mpr ⟨pairedIf_matrix m, pairedIf_matrices ms⟩

end

/-! ## Calls -/

section Calls

variable {ε δ σ : Type} {d : Nat} {args : List (Formula ε δ σ)}

/-- What is written of a formula contains a pair exactly if one of its words does. -/
def PairedByWords (d : Nat) (f : Formula ε δ σ) : Prop :=
  PairedIf (formula f d).text (AnyPaired f.words)

lemma pairedIf_argumentList (h : ∀ f ∈ args, PairedByWords d f) :
    PairedIf (argumentList (formulas args d)) (∃ f ∈ args, AnyPaired f.words) := by
  rw [argumentList, formulas_eq_map, List.map_map]
  exact pairedIf_commaSeparated fun f hf => (h f hf).within .argument

lemma pairedIf_applied (hs : PairedIf s p) (h : ∀ f ∈ args, PairedByWords d f) :
    PairedIf (s ++ "(" ++ argumentList (formulas args d) ++ ")")
      (p ∨ ∃ f ∈ args, AnyPaired f.words) := by
  have hparens : PairedIf ("(" ++ argumentList (formulas args d) ++ ")") _ :=
    (pairedIf_argumentList h).parens
  have htext : s ++ "(" ++ argumentList (formulas args d) ++ ")" =
      s ++ ("(" ++ argumentList (formulas args d) ++ ")") := by
    simp only [String.append_assoc]
  rw [htext]
  exact hs.append hparens

lemma words_of_isZero {f : Formula ε δ σ} (h : isZero f = true) : f.words = [] := by
  obtain ⟨note, s⟩ := f
  cases s with
  | number x => rw [Formula.words, Shape.words]
  | _ => cases h

lemma pairedIf_negation {f : Formula ε δ σ} (h : PairedByWords d f) :
    PairedIf (negation f (formula f d)).text (AnyPaired f.words) := by
  have hminus := pairedIf_of_not_mem (s := "-") (by decide)
  rw [negation]
  dsimp only
  split
  · exact (hminus.append h.parens).congr (by simp)
  · exact (hminus.append (h.within .atomic)).congr (by simp)

lemma pairedIf_operation {n : String} (hn : isOperator n = true) {f g : Formula ε δ σ}
    (hf : PairedByWords d f) (hg : PairedByWords d g) :
    PairedIf (operation n (formula f d) (formula g d)).text
      (AnyPaired f.words ∨ AnyPaired g.words) := by
  have hoperator : PairedIf (" " ++ n ++ " ") False :=
    pairedIf_of_not_mem (by simp [not_mem_of_isOperator hn])
  have hall := ((hf.within (.operation (Tier.ofOperator n))).append hoperator).append
    (hg.within (rightRequirement (Tier.ofOperator n)))
  have htext : (operation n (formula f d) (formula g d)).text =
      (formula f d).within (.operation (Tier.ofOperator n)) ++ (" " ++ n ++ " ") ++
        (formula g d).within (rightRequirement (Tier.ofOperator n)) := by
    simp [operation, toString, String.append_assoc]
  rw [htext]
  exact hall.congr (by simp)

lemma pairedIf_callOfName (n : String) (h : ∀ f ∈ args, PairedByWords d f) :
    PairedIf (callOfName n args (formulas args d)).text
      (Paired n.toList ∨ ∃ f ∈ args, AnyPaired f.words) := by
  have happlied := pairedIf_applied (pairedIf_name n) h
  rw [formulas_eq_map] at happlied ⊢
  match args, h with
  | [], _ => exact happlied
  | [_], _ => exact happlied
  | _ :: _ :: _ :: _, _ => exact happlied
  | [first, second], h =>
    simp only [List.map_cons, List.map_nil, callOfName]
    split
    · -- the zero in front of a minus has no words
      rename_i hminus
      rw [Bool.and_eq_true, decide_eq_true_eq] at hminus
      obtain ⟨rfl, hzero⟩ := hminus
      have hsign : ¬Paired ['-'] := not_paired_of_not_mem (by decide)
      exact (pairedIf_negation (h second (by simp))).congr (by simp [words_of_isZero hzero, hsign])
    · split
      · rename_i hn
        have hoperator := not_paired_of_not_mem (not_mem_of_isOperator hn)
        exact (pairedIf_operation hn (h first (by simp)) (h second (by simp))).congr
          (by simp [hoperator])
      · exact happlied

lemma words_of_name? {f : Formula ε δ σ} {n : String} (h : name? f = some n) : f.words = [n] := by
  obtain ⟨note, s⟩ := f
  cases s with
  | name m =>
    cases h
    rw [Formula.words, Shape.words]
  | _ => cases h

lemma pairedIf_call {callee : Formula ε δ σ} (hcallee : PairedByWords d callee)
    (h : ∀ f ∈ args, PairedByWords d f) :
    PairedIf (call callee args (formula callee d) (formulas args d)).text
      (AnyPaired callee.words ∨ ∃ f ∈ args, AnyPaired f.words) := by
  rw [call_eq]
  cases hname : name? callee with
  | some n => exact (pairedIf_callOfName n h).congr (by simp [words_of_name? hname])
  | none =>
    have hparens : PairedIf ("(" ++ (formula callee d).text ++ ")") _ := hcallee.parens
    have happlied := pairedIf_applied hparens h
    have htext : s!"({(formula callee d).text})({argumentList (formulas args d)})" =
        "(" ++ (formula callee d).text ++ ")" ++ "(" ++ argumentList (formulas args d) ++ ")" := by
      simp [toString, String.append_assoc]
    dsimp only [atom]
    rw [htext]
    exact happlied

end Calls

/-! ## Closures and switches -/

section Closures

variable {ε δ σ : Type} {d : Nat} {ds : List (Definition ε δ σ)} {cs : List (Case (Formula ε δ σ))}

lemma pairedIf_newLine (d : Nat) : PairedIf (newLine d) False :=
  pairedIf_of_not_mem (by simp [toList_newLine, Token.spaces])

lemma pairedIf_parameterList (ps : List String) : PairedIf (parameterList ps) (AnyPaired ps) := by
  have hnames := pairedIf_commaSeparated (f := name) fun p (_ : p ∈ ps) => pairedIf_name p
  match ps with
  | [p] => exact (pairedIf_name p).congr (by simp)
  | [] => exact hnames.parens
  | _ :: _ :: _ => exact hnames.parens

lemma pairedIf_value {value : Option (Formula ε δ σ)} (h : ∀ f ∈ value, PairedByWords d f) :
    PairedIf ((value.map (formula · d)).getD (atom "null")).text
      (∃ f ∈ value, AnyPaired f.words) := by
  cases value with
  | none => exact (pairedIf_of_not_mem (s := "null") (by decide)).congr (by simp)
  | some f => exact (h f rfl).congr (by simp)

lemma pairedIf_definition {e : Definition ε δ σ} (h : ∀ f ∈ e.value, PairedByWords d f) :
    PairedIf (definitionLine e.name (e.value.map (formula · d)))
      (Paired e.name.toList ∨ ∃ f ∈ e.value, AnyPaired f.words) := by
  have hequals := pairedIf_of_not_mem (s := " = ") (by decide)
  rw [definitionLine_eq]
  exact (((pairedIf_name e.name).append hequals).append (pairedIf_value h)).congr (by simp)

/-- The words of definitions are those of the first result among them, but for its name, and those
of the others. -/
lemma anyPaired_definitions_iff : AnyPaired (Definition.wordsOf ds) ↔
    (∃ f ∈ (ds.find? (·.name == resultName)).bind Definition.value, AnyPaired f.words) ∨
      ∃ e ∈ ds.eraseP (·.name == resultName),
        Paired e.name.toList ∨ ∃ f ∈ e.value, AnyPaired f.words := by
  have hresult : ¬Paired resultName.toList := not_paired_of_not_mem (by decide)
  have hsplit (e : Definition ε δ σ) : e ∈ ds ↔
      ds.find? (·.name == resultName) = some e ∨ e ∈ ds.eraseP (·.name == resultName) :=
    mem_iff_find?_or_mem_eraseP _
  simp only [Definition.anyPaired_wordsOf_iff, hsplit, or_and_right, exists_or]
  refine or_congr_left ?_
  cases hfind : ds.find? (·.name == resultName) with
  | none => simp
  | some e =>
    have hname : e.name = resultName := by simpa using List.find?_some hfind
    simp [hname, hresult]

lemma pairedIf_closure (h : ∀ d, ∀ e ∈ ds, ∀ f ∈ e.value, PairedByWords d f) (ps : List String)
    (d : Nat) : PairedIf (closure ps (definitions ds) d).text
      (AnyPaired ps ∨ AnyPaired (Definition.wordsOf ds)) := by
  have hhead : PairedIf (parameterList ps ++ " -> ") (AnyPaired ps) :=
    ((pairedIf_parameterList ps).append (pairedIf_of_not_mem (s := " -> ") (by decide))).congr
      (iff_of_eq (or_false _))
  have hvalues : ∀ f ∈ (ds.find? (·.name == resultName)).bind Definition.value,
      PairedByWords d f := by
    intro f hf
    obtain ⟨e, he, hvalue⟩ := Option.bind_eq_some_iff.mp hf
    exact h d e (List.mem_of_find?_eq_some he) f hvalue
  have hresult := pairedIf_value hvalues
  rw [closure_eq, anyPaired_definitions_iff]
  dsimp only
  split
  · rename_i hothers
    rw [List.map_eq_nil_iff.mp hothers]
    exact (hhead.append hresult).congr (by simp)
  · have hwhere := pairedIf_of_not_mem (s := " where") (by decide)
    have hothers := pairedIf_join fun e (he : e ∈ ds.eraseP (·.name == resultName)) =>
      (pairedIf_newLine (d + 1)).append
        (pairedIf_definition (h (d + 1) e (List.mem_of_mem_eraseP he)))
    rw [List.map_map]
    exact (((hhead.append (hresult.within (.operation .custom))).append hwhere).append
      hothers).congr (by simp only [false_or, or_false, or_assoc])

lemma pairedIf_caseLine {c : Case (Formula ε δ σ)} (h : ∀ f ∈ c.parts, PairedByWords d f) :
    PairedIf (caseLine d c) (∃ f ∈ c.parts, AnyPaired f.words) := by
  cases c with
  | when condition value =>
    have harrow := pairedIf_of_not_mem (s := " => ") (by decide)
    have hcondition := (h condition (by simp [Case.parts])).within .argument
    exact ((hcondition.append harrow).append (h value (by simp [Case.parts]))).congr
      (by simp [Case.parts])
  | otherwise value =>
    have hotherwise := pairedIf_of_not_mem (s := "otherwise ") (by decide)
    exact (hotherwise.append (h value (by simp [Case.parts]))).congr (by simp [Case.parts])

lemma pairedIf_switch (h : ∀ c ∈ cs, ∀ f ∈ c.parts, PairedByWords (d + 1) f) :
    PairedIf (switch (caseLines cs (d + 1)) d).text (AnyPaired (Case.wordsOf cs)) := by
  have hlines := pairedIf_join fun c (hc : c ∈ Case.upToOtherwise cs) =>
    (pairedIf_newLine (d + 1)).append (pairedIf_caseLine (h c (Case.mem_of_mem_upToOtherwise hc)))
  rw [switch, caseLines_eq_map, Case.anyPaired_wordsOf_iff]
  split
  · rename_i hnone
    rw [List.isEmpty_iff, List.map_eq_nil_iff] at hnone
    rw [hnone]
    exact (pairedIf_of_not_mem (s := "switch \x7b\x7d") (by decide)).congr (by simp)
  · rw [List.map_map]
    exact ((pairedIf_of_not_mem (s := "switch") (by decide)).append hlines).congr
      (by simp only [false_or])

end Closures

/-! ## Formulas and programs -/

section Programs

variable {ε δ σ : Type}

theorem pairedByWords (f : Formula ε δ σ) (d : Nat) : PairedByWords d f := by
  induction f using Formula.induction generalizing d with
  | h note s ih =>
    have hplain {t : String} (ht : '\r' ∉ t.toList) : PairedIf t (AnyPaired []) :=
      (pairedIf_of_not_mem ht).congr (by simp)
    rw [PairedByWords, formula, Formula.words]
    cases s with
    | null =>
      rw [shape, Shape.words]
      exact hplain (t := "null") (by decide)
    | bool v =>
      rw [shape, Shape.words]
      exact (pairedIf_bool v).congr (by simp)
    | number x =>
      rw [shape, Shape.words]
      exact hplain (not_mem_number x)
    | text v =>
      rw [shape, Shape.words]
      exact (pairedIf_text v).congr (by simp)
    | name n =>
      rw [shape, Shape.words]
      exact (pairedIf_name n).congr (by simp)
    | matrix m =>
      rw [shape, Shape.words]
      exact pairedIf_matrix m
    | list items =>
      rw [shape, Shape.words, Formula.anyPaired_wordsOf_iff]
      exact (pairedIf_argumentList fun f hf => ih f hf d).between "[" "]" (by decide) (by decide)
    | call callee args =>
      rw [shape, Shape.words, anyPaired_append_iff, Formula.anyPaired_wordsOf_iff]
      exact pairedIf_call (ih callee List.mem_cons_self d) fun f hf =>
        ih f (List.mem_cons_of_mem _ hf) d
    | closure ps body =>
      obtain ⟨ν, ds, floating⟩ := body
      rw [shape, definitionSet, Shape.words, DefinitionSet.words, anyPaired_append_iff]
      -- the formulas of the set that have no name are not written
      refine pairedIf_closure (fun d e he f hf => ?_) ps d
      have hmem : f ∈ (DefinitionSet.node ν ds floating).formulas :=
        DefinitionSet.mem_formulas_of_value he hf
      exact ih f hmem d
    | switch cases =>
      rw [shape, Shape.words]
      exact pairedIf_switch fun c hc f hf => ih f (List.mem_flatMap.mpr ⟨c, hc, hf⟩) (d + 1)

/-- A written program contains a pair exactly if one of its words does. -/
theorem pairedIf_program (set : DefinitionSet ε δ σ) :
    PairedIf (program set) (AnyPaired set.words) := by
  have hlines := pairedIf_join fun (e : Definition ε δ σ) (_ : e ∈ set.definitions) =>
    (pairedIf_definition (e := e) fun f _ => pairedByWords f 0).append
      (pairedIf_of_not_mem (s := "\n") (by decide))
  rw [program, lines_eq, List.map_map]
  obtain ⟨note, ds, floating⟩ := set
  rw [DefinitionSet.words, Definition.anyPaired_wordsOf_iff]
  exact hlines.congr (by simp only [or_false, DefinitionSet.definitions])

end Programs

end Layout

end Formulary
