/-
# Written formulas read back

Whatever a formula is, its text is read as the formula that it says, in every place and at every
depth.  The proof goes by what the first layer is: each of them is written around the texts of
the formulas right below it.
-/
import Formulary.Proofs.Formula.Children
import Formulary.Proofs.Formula.Reread
import Formulary.Proofs.Layout.Pieces

namespace Formulary.Layout

open Text Word Parsing Token Grammar

variable {ε δ σ : Type} {d : Nat} {b : Binding} {cs ds rest : List Char} {ts us : List Token}
  {f g : Formula.Bare} {fr left right : Fragment} {s : String}

/-! ## Atoms -/

lemma bounds_of_isBareName {n : String} (h : isBareName n = true) : Bounds n.toList := by
  obtain ⟨c, cs, hn, hc, -⟩ := exists_of_isBareName h
  rw [hn]
  rintro _ ⟨⟩
  refine ⟨?_, not_isDigit_of_isNameStart hc⟩
  cases hop : isOperatorChar c with
  | false => rfl
  | true =>
    rw [(class_of_operatorChar hop).1] at hc
    cases hc

lemma means_word {w : String} {t : Token} (hw : isBareName w = true) (ht : IsPrimary [t] f)
    (h : ∀ ⦃E p rest⦄, Stops rest → Emits E p w.toList [t] rest) : MeansTightly d w f :=
  ⟨inked_of_isBareName hw, bounds_of_isBareName hw, [t], ht, fun _ _ _ _ _ hrest _ => h hrest⟩

lemma means_null (d : Nat) : MeansTightly d "null" (.node () .null) :=
  means_word (by decide) isPrimary_null fun _ _ _ hrest => emits_null hrest

lemma means_bool (d : Nat) (v : Bool) : MeansTightly d (bool v) (.node () (.bool v)) := by
  have hbare : isBareName (bool v) = true := by cases v <;> decide
  exact means_word hbare (isPrimary_bool v) fun _ _ _ hrest => emits_bool v hrest

lemma means_text {v : String} (hv : '"' ∉ v.toList) : MeansTightly d (text v) (.node () (.text v)) := by
  have hhead : (text v).toList = '"' :: (doubleBackslashes v.toList ++ ['"']) := toList_text v
  refine ⟨?_, ?_, [Token.text v], isPrimary_text v, fun _ _ _ _ _ _ _ => emits_text hv⟩
  · rw [hhead]
    exact ⟨'"', rfl, by decide⟩
  · rw [hhead]
    rintro c ⟨⟩
    decide

lemma bounds_name (n : String) : Bounds (name n).toList := by
  rw [toList_name]
  split
  · rintro c ⟨⟩
    decide
  · rename_i h
    simp only [isQuoted, Bool.not_eq_true, Bool.not_eq_false', Bool.and_eq_true] at h
    exact bounds_of_isBareName h.1

lemma means_name (d : Nat) (n : String) : MeansTightly d (name n) (.node () (.name n)) :=
  ⟨inked_name n, bounds_name n, _, (isCallee_name (isName_isQuoted n)).isPrimary, lexes_name n⟩

/-! ## Minus signs and numbers -/

lemma MeansTightly.minus (h : MeansTightly d s f) : Inked ('-' :: s.toList) ∧
    ∃ ts, IsOperand ts f.minus ∧ Lexes d .atomic ('-' :: s.toList) ts := by
  obtain ⟨ts, hts, hlex⟩ := h.reads
  refine ⟨⟨'-', rfl, by decide⟩, _, hts.negation, ?_⟩
  intro E p rest hE hp hrest hleaves
  have hminus : Emits E p ['-'] [operator "-"] (s.toList ++ rest) := by
    refine emits_symbol (s := "-") (List.all_eq_true.mp (by decide)) (by decide) ?_
    obtain ⟨c, hc, -⟩ := h.inked
    rw [List.head?_append, hc]
    rintro _ ⟨⟩
    exact h.bounds c hc
  have hopens : Opens (some '-') := by
    rintro c ⟨⟩
    decide
  exact hminus.append (hlex hE hopens hrest hleaves)

/-- A numeral is read as the number that it stands for. -/
lemma means_numeral {n : Numeral} (hs : s.toList = n.text) (h : n.value.isFinite = true)
    (hb : b = .sign ∨ b = .atomic) : Means d ⟨s, b⟩ (.node () (.number n.value)) := by
  have hoperand := (isPrimary_numeral n h).isOperand
  refine ⟨?_, [ofNumeral n], ?_, ?_⟩
  · rw [hs]
    exact inked_numeral n
  · rcases hb with rfl | rfl <;> exact hoperand
  · have hlex : Lexes d b n.text [ofNumeral n] := fun _ _ _ _ hp hrest _ => emits_numeral n hp hrest
    rw [hs]
    rcases hb with rfl | rfl <;> exact hlex

/-- Whether a number is written with a sign or a digit in front. -/
def isSigned (x : Binary64) : Bool := x.isFinite || x.negative && !x.isNaN

lemma means_bareName {n : String} (hn : name n = n) : MeansTightly d n (.node () (.name n)) := by
  have hmeans := means_name d n
  rwa [hn] at hmeans

/-- What is neither finite nor has a sign is written as a name. -/
lemma means_unsigned (d : Nat) {x : Binary64} (h : isSigned x = false) :
    MeansTightly d (number x) x.reread := by
  obtain ⟨hfinite, hsign⟩ := Bool.or_eq_false_iff.mp h
  simp only [number, Binary64.write, Binary64.reread, hfinite, Bool.false_eq_true, if_false]
  split
  · exact means_bareName (by decide +kernel)
  · rename_i hnan
    have hpositive : x.negative = false := by simpa [hnan] using hsign
    simp only [hpositive, Bool.false_eq_true, if_false]
    exact means_bareName (by decide +kernel)

lemma means_number (d : Nat) (x : Binary64) : Means d (atom (number x)) x.reread := by
  cases hsigned : isSigned x with
  | false => exact (means_unsigned d hsigned).means
  | true =>
    cases hfinite : x.isFinite with
    | true =>
      obtain ⟨n, htext, rfl⟩ := Binary64.exists_numeral hfinite
      rw [Binary64.reread, if_pos hfinite]
      exact means_numeral htext hfinite (.inr rfl)
    | false =>
      rw [isSigned, hfinite, Bool.false_or, Bool.and_eq_true, Bool.not_eq_true'] at hsigned
      have hinf : MeansTightly d "inf" (.node () (.name "inf")) :=
        means_bareName (by decide +kernel)
      obtain ⟨hinked, ts, hts, hlex⟩ := hinf.minus
      simp only [number, Binary64.write, Binary64.reread, hfinite, hsigned.1, hsigned.2,
        Bool.false_eq_true, if_false, if_true]
      refine ⟨hinked, ts, hts, ?_⟩
      simpa [atom, trail] using hlex

/-- Whether a formula is written as a number with a sign or a digit in front. -/
def isNumeral : Formula ε δ σ → Bool
  | .node _ (.number x) => isSigned x
  | .node _ (.matrix (.number x)) => isSigned x
  | _ => false

/-- The text of a formula is read as the formula that it says, also right after a minus if it is
an atom that has neither a sign nor a digit in front. -/
structure Restores (d : Nat) (f : Formula ε δ σ) : Prop where
  means : Means d (formula f d) f.reread
  tightly : isNumeral f = false → (formula f d).binding = .atomic →
    MeansTightly d (formula f d).text f.reread

lemma restores_of_tightly {note : ε} {shape : Shape (Formula ε δ σ) (DefinitionSet ε δ σ)}
    (hshape : Layout.shape shape d = atom s) (h : MeansTightly d s (Shape.reread shape)) :
    Restores d (.node note shape) := by
  have hformula : formula (.node note shape) d = atom s := by rw [formula, hshape]
  refine ⟨?_, fun _ _ => ?_⟩
  · rw [hformula, Formula.reread]
    exact h.means
  · rw [hformula, Formula.reread]
    exact h

lemma restores_of_means {note : ε} {shape : Shape (Formula ε δ σ) (DefinitionSet ε δ σ)}
    (h : Means d (Layout.shape shape d) (Shape.reread shape))
    (hatomic : isNumeral (.node note shape : Formula ε δ σ) = true ∨
      (Layout.shape shape d).binding ≠ .atomic) : Restores d (.node note shape) := by
  have hformula : formula (.node note shape) d = Layout.shape shape d := by rw [formula]
  refine ⟨?_, fun hnumeral hbinding => ?_⟩
  · rw [hformula, Formula.reread]
    exact h
  · rw [hformula] at hbinding
    rcases hatomic with htrue | hne
    · rw [htrue] at hnumeral
      cases hnumeral
    · exact absurd hbinding hne

lemma restores_number {note : ε} {shape : Shape (Formula ε δ σ) (DefinitionSet ε δ σ)}
    {x : Binary64} (hshape : Layout.shape shape d = atom (number x))
    (hreread : Shape.reread shape = x.reread)
    (hnumeral : isNumeral (.node note shape : Formula ε δ σ) = isSigned x) :
    Restores d (.node note shape) := by
  cases hsigned : isSigned x with
  | false =>
    refine restores_of_tightly hshape ?_
    rw [hreread]
    exact means_unsigned d hsigned
  | true =>
    refine restores_of_means ?_ (.inl (hnumeral.trans hsigned))
    rw [hshape, hreread]
    exact means_number d x

/-! ## Matrices and lists -/

lemma MeansTightly.stands (h : MeansTightly d s f) : Stands IsFormula d s f := by
  have hmeans := h.means.within_argument
  have hwithin : (atom s).within .argument = s := rfl
  rwa [hwithin] at hmeans

lemma toList_bracketed (s : String) : s!"[{s}]".toList = '[' :: s.toList ++ [']'] := by
  simp [toString]

/-- Items in brackets. -/
lemma means_items {texts : List String} {fs : List Formula.Bare}
    (h : List.Forall₂ (Stands IsFormula d) texts fs) :
    MeansTightly d s!"[{commaSeparated texts}]" (Formula.ofItems () fs) := by
  obtain ⟨-, ts, hts, hlex⟩ := lexes_commaSeparated h
  have hbrackets : Lexes d .atomic _ _ := lexes_of_emits fun _ _ _ => hlex.brackets
  rw [← toList_bracketed] at hbrackets
  refine ⟨?_, ?_, _, AreItems.isPrimary_list hts, hbrackets⟩
  · rw [toList_bracketed]
    exact ⟨'[', rfl, by decide⟩
  · rw [toList_bracketed]
    rintro c ⟨⟩
    decide

mutual

/-- A value that is written out in full is read as the formula that it says. -/
theorem stands_matrix (d : Nat) : ∀ m : Matrix, (∀ v ∈ m.texts, '"' ∉ v.toList) →
    Stands IsFormula d (matrix m) m.reread
  | .null => by
    intro _
    rw [matrix, Matrix.reread]
    exact (means_null d).stands
  | .bool v => by
    intro _
    rw [matrix, Matrix.reread]
    exact (means_bool d v).stands
  | .number x => by
    intro _
    rw [matrix, Matrix.reread]
    exact (means_number d x).within_argument
  | .text v => by
    intro h
    rw [Matrix.texts, List.forall_mem_singleton] at h
    rw [matrix, Matrix.reread]
    exact (means_text h).stands
  | .array entries => by
    intro h
    rw [Matrix.texts] at h
    rw [matrix, Matrix.reread]
    exact (means_items (stands_matrices d entries h)).stands

theorem stands_matrices (d : Nat) : ∀ ms : List Matrix, (∀ v ∈ Matrix.textsOf ms, '"' ∉ v.toList) →
    List.Forall₂ (Stands IsFormula d) (matrices ms) (Matrix.rereads ms)
  | [] => by
    intro _
    rw [matrices, Matrix.rereads]
    exact .nil
  | m :: ms => by
    intro h
    rw [Matrix.textsOf, List.forall_mem_append] at h
    rw [matrices, Matrix.rereads]
    exact .cons (stands_matrix d m h.1) (stands_matrices d ms h.2)

end

lemma restores_matrix {note : ε} {m : Matrix} (h : ∀ v ∈ m.texts, '"' ∉ v.toList) :
    Restores d (.node note (.matrix m) : Formula ε δ σ) := by
  have hshape : shape (.matrix m : Shape (Formula ε δ σ) (DefinitionSet ε δ σ)) d =
      atom (matrix m) := by rw [shape]
  have hreread : Shape.reread (.matrix m : Shape (Formula ε δ σ) (DefinitionSet ε δ σ)) =
      m.reread := by rw [Shape.reread]
  cases m with
  | null =>
    refine restores_of_tightly hshape ?_
    rw [hreread, matrix, Matrix.reread]
    exact means_null d
  | bool v =>
    refine restores_of_tightly hshape ?_
    rw [hreread, matrix, Matrix.reread]
    exact means_bool d v
  | number x =>
    rw [matrix] at hshape
    rw [Matrix.reread] at hreread
    exact restores_number hshape hreread rfl
  | text v =>
    rw [Matrix.texts, List.forall_mem_singleton] at h
    refine restores_of_tightly hshape ?_
    rw [hreread, matrix, Matrix.reread]
    exact means_text h
  | array entries =>
    rw [Matrix.texts] at h
    refine restores_of_tightly hshape ?_
    rw [hreread, matrix, Matrix.reread]
    exact means_items (stands_matrices d entries h)

variable {fs : List (Formula ε δ σ)}

lemma formulas_eq_map (fs : List (Formula ε δ σ)) (d : Nat) :
    formulas fs d = fs.map (formula · d) := by
  induction fs with
  | nil => rw [formulas, List.map_nil]
  | cons f fs ih => rw [formulas, List.map_cons, ← ih]

lemma stands_formulas (h : ∀ f ∈ fs, Restores d f) :
    List.Forall₂ (Stands IsFormula d) ((formulas fs d).map (·.within .argument))
      (Formula.rereads fs) := by
  rw [formulas_eq_map, Formula.rereads_eq_map, List.map_map, List.forall₂_map_left_iff,
    List.forall₂_map_right_iff, List.forall₂_same]
  exact fun f hf => (h f hf).means.within_argument

lemma restores_list {note : ε} (h : ∀ f ∈ fs, Restores d f) :
    Restores d (.node note (.list fs) : Formula ε δ σ) := by
  refine restores_of_tightly (s := s!"[{argumentList (formulas fs d)}]") (by rw [shape]) ?_
  rw [Shape.reread]
  exact means_items (stands_formulas h)

/-! ## Calls -/

/-- A callee in front of its arguments in parentheses. -/
lemma means_applied {t : Token} {texts : List String} {gs : List Formula.Bare} (ht : IsCallee t f)
    (hinked : Inked cs) (hbounds : Bounds cs) (hlex : Lexes d .atomic cs [t])
    (h : List.Forall₂ (Stands IsFormula d) texts gs)
    (hs : s.toList = cs ++ ('(' :: (commaSeparated texts).toList ++ [')'])) :
    MeansTightly d s (.node () (.call f gs)) := by
  obtain ⟨-, ts, hts, hlist⟩ := lexes_commaSeparated h
  refine ⟨?_, ?_, _, ht.isPrimary_call hts, ?_⟩
  · rw [hs]
    exact hinked.append _
  · rw [hs]
    obtain ⟨c, hc, -⟩ := hinked
    rw [Bounds, List.head?_append, hc]
    rintro _ ⟨⟩
    exact hbounds c hc
  · rw [hs]
    intro E p rest hE hp hrest hleaves
    have hfirst : Emits E p cs [t] ('(' :: (commaSeparated texts).toList ++ [')'] ++ rest) :=
      hlex hE hp (stops_cons (by decide)) fun hb => by cases hb
    exact hfirst.append hlist.parens

lemma means_callOfName_atom {texts : List String} {gs : List Formula.Bare} (n : String)
    (h : List.Forall₂ (Stands IsFormula d) texts gs) :
    MeansTightly d s!"{name n}({commaSeparated texts})"
      (.node () (.call (.node () (.name n)) gs)) :=
  means_applied (isCallee_name (isName_isQuoted n)) (inked_name n) (bounds_name n) (lexes_name n) h
    (by simp [toString])

lemma toList_operation (n : String) (left right : Fragment) :
    (operation n left right).text.toList =
      (left.within (.operation (Tier.ofOperator n))).toList ++ ' ' :: (n.toList ++
        ' ' :: (right.within (rightRequirement (Tier.ofOperator n))).toList) := by
  simp [operation, toString]

/-- Two operands with an operator between them. -/
lemma means_operation {n : String} (hn : Word.isOperator n = true) (hleft : Means d left f)
    (hright : Means d right g) : Means d (operation n left right)
      (.node () (.call (.node () (.name n)) [f, g])) := by
  have hchars : (∀ c ∈ n.toList, isOperatorChar c = true) ∧ n.toList ≠ [] := by
    simp only [Word.isOperator, Bool.and_eq_true, decide_eq_true_eq, List.all_eq_true] at hn
    exact ⟨hn.1.2, fun hnil => hn.1.1 (String.toList_eq_nil_iff.mp hnil)⟩
  obtain ⟨hinked, ts, ⟨x, hx, hxgrouped, hxtight, rfl⟩, hlex⟩ :=
    hleft.within_operation (Tier.ofOperator n)
  obtain ⟨hinked', us, ⟨y, hy, hygrouped, hytight, rfl⟩, hlex'⟩ :=
    hright.within_right (Tier.ofOperator n)
  have htext := toList_operation n left right
  have hlinks : AreLinks (ts ++ spaced n us) (Operation.apply ⟨n, {}⟩ x y).links :=
    hx.append hn hy
  refine ⟨?_, ts ++ spaced n us, ?_, ?_⟩
  · rw [htext]
    exact hinked.append _
  · have htier := Operation.tightness_ofOperator n
    rw [htier] at hxtight hytight
    exact ⟨.apply ⟨n, {}⟩ x y, hlinks, ⟨hxtight, hytight, hxgrouped, hygrouped⟩, Nat.le_of_eq htier, rfl⟩
  · rw [htext]
    have hspaced := hlex.spaced hchars.1 hchars.2 hinked' hlex'
    simpa [operation, trail] using hspaced.tighten (by simp) (.operation (Tier.ofOperator n))

/-- Whether a formula is a number among the matrices that is written with a minus in front. -/
def isNegativeScalar : Formula ε δ σ → Bool
  | .node _ (.matrix (.number x)) => x.negative && !x.isNaN
  | _ => false

/-- Whether a minus in front of an operand stays apart from the operand's own: a number among the
matrices stands in no parentheses, so two minus signs would meet. -/
def Apart : Formula ε δ σ → Prop
  | .node _ (.call callee arguments) =>
    Formula.isNegation callee arguments = true → ∀ a ∈ arguments.tail, isNegativeScalar a = false
  | _ => True

instance : DecidablePred (Apart : Formula ε δ σ → Prop)
  | .node _ (.call callee arguments) => inferInstanceAs (Decidable (Formula.isNegation callee
      arguments = true → ∀ a ∈ arguments.tail, isNegativeScalar a = false))
  | .node _ .null | .node _ (.bool _) | .node _ (.number _) | .node _ (.text _)
  | .node _ (.name _) | .node _ (.list _) | .node _ (.matrix _) | .node _ (.closure _ _)
  | .node _ (.switch _) => .isTrue trivial

/-- A minus that is glued to a number. -/
lemma means_glued {note : ε} {x : Binary64} (hfinite : x.isFinite = true)
    (hpositive : x.negative = false) :
    Means d (negation (.node note (.matrix (.number x)) : Formula ε δ σ) (atom (number x)))
      (.node () (.number x.opposite)) := by
  obtain ⟨n, htext, hvalue⟩ := Binary64.exists_numeral hfinite
  have hsign : n.negative = false := by
    rw [← hpositive, ← hvalue]
    rfl
  let m : Numeral := { n with negative := true }
  have hopposite : m.value = x.opposite := by
    rw [← hvalue]
    simp only [Numeral.value, Binary64.opposite, Decimal.nearest, Binary64.ofRank, hsign, m]
    rfl
  have hminus : m.value.isFinite = true := by
    rw [hopposite, ← hfinite]
    rfl
  rw [← hopposite]
  refine means_numeral ?_ hminus (.inl rfl)
  have hplain : (atom (number x)).within .atomic = number x := rfl
  have hnumber : (number x).toList = n.whole ++ n.tail := by
    rw [number, htext, Numeral.text, Numeral.sign, hsign]
    rfl
  simp [isNumber, hplain, toString, hnumber, Numeral.text, Numeral.sign, Numeral.tail, m]

/-- A minus in front of an operand. -/
lemma means_negation {a : Formula ε δ σ} (h : Restores d a)
    (hapart : isNumeral a = true → isNumber a = true) :
    Means d (negation a (formula a d)) a.reread.minus := by
  have htight : MeansTightly d
      (if isNumber a then s!"({(formula a d).text})" else (formula a d).within .atomic)
      a.reread := by
    split
    · exact h.means.parens
    · rename_i hnumber
      rcases h.means.within_cases .atomic with htight | ⟨htext, hle⟩
      · exact htight
      · rw [htext]
        refine h.tightly ?_ ?_
        · rw [← Bool.not_eq_true]
          exact fun hnumeral => hnumber (hapart hnumeral)
        · revert hle
          cases (formula a d).binding with
          | operation tier => cases tier <;> decide
          | _ => decide
  obtain ⟨hinked, ts, hts, hlex⟩ := htight.minus
  have htext : (negation a (formula a d)).text.toList = '-' ::
      (if isNumber a then s!"({(formula a d).text})" else (formula a d).within .atomic).toList := by
    simp [negation, toString]
  refine ⟨?_, ts, hts, ?_⟩
  · rw [htext]
    exact hinked
  · rw [htext]
    simpa [negation, trail] using hlex.tighten (by simp) .sign

/-- An operand that a minus is not glued to has neither a sign nor a digit in front, unless it is
a number in parentheses. -/
lemma isNumber_of_not_glued {ν : ε} {n : String} {first second : Formula ε δ σ}
    (hneg : (n == "-" && isZero first) = true) (hapart : isNegativeScalar second = false)
    (hglued : Formula.glued? (.node ν (.name n)) [first, second] = none)
    (hnumeral : isNumeral second = true) : isNumber second = true := by
  obtain ⟨note, shape⟩ := second
  cases shape with
  | number x => rfl
  | matrix m =>
    cases m with
    | number x =>
      have hsign : (x.negative && !x.isNaN) = false := hapart
      have hfinite : x.isFinite = true := by
        have hsigned : (x.isFinite || x.negative && !x.isNaN) = true := hnumeral
        rwa [hsign, Bool.or_false] at hsigned
      have hnan : x.isNaN = false :=
        decide_eq_false (Nat.not_lt.mpr (Nat.le_of_lt (of_decide_eq_true hfinite)))
      have hpositive : x.negative = false := by simpa [hnan] using hsign
      simp [Formula.glued?, hneg, hfinite, hpositive] at hglued
    | _ => cases hnumeral
  | _ => cases hnumeral

/-- An operand that a minus is glued to. -/
lemma eq_of_glued {ν : ε} {n : String} {first second : Formula ε δ σ} {x : Binary64}
    (h : Formula.glued? (.node ν (.name n)) [first, second] = some x) :
    ∃ note, second = .node note (.matrix (.number x)) ∧ x.isFinite = true ∧ x.negative = false := by
  unfold Formula.glued? at h
  split at h
  · rename_i heq
    split at h
    · rename_i hcond
      cases h
      cases heq
      simp only [Bool.and_eq_true, Bool.not_eq_true'] at hcond
      exact ⟨_, rfl, hcond.1.2, hcond.2⟩
    · cases h
  · cases h

lemma not_isNegation_of_length {callee : Formula ε δ σ} {args : List (Formula ε δ σ)}
    (h : args.length ≠ 2) : Formula.isNegation callee args = false := by
  unfold Formula.isNegation
  split
  · exact absurd rfl h
  · rfl

/-- A call of minus with zero in front is written as a sign. -/
lemma restores_negation {note ν : ε} {first second : Formula ε δ σ} (hsecond : Restores d second)
    (hzero : isZero first = true)
    (hapart : Apart (.node note (.call (.node ν (.name "-")) [first, second]))) :
    Restores d (.node note (.call (.node ν (.name "-")) [first, second])) := by
  have hneg : ("-" == "-" && isZero first) = true := hzero
  have hnegation : Formula.isNegation (.node ν (.name "-")) [first, second] = true := hneg
  have hshape : shape (.call (.node ν (.name "-")) [first, second]) d =
      negation second (formula second d) := by
    simp only [shape, call, formulas, callOfName]
    rw [if_pos (by simpa using hzero)]
  refine restores_of_means ?_ (.inr ?_)
  · have hpositive := hapart hnegation second (by simp)
    rw [hshape, Shape.reread]
    cases hglued : Formula.glued? (.node ν (.name "-")) [first, second] with
    | some x =>
      obtain ⟨μ, rfl, hfinite, hsign⟩ := eq_of_glued hglued
      have hformula : formula (.node μ (.matrix (.number x)) : Formula ε δ σ) d =
          atom (number x) := by rw [formula, shape, matrix]
      rw [hformula]
      exact means_glued hfinite hsign
    | none =>
      simp only [Formula.reread, Shape.reread, hnegation, Formula.rereads, Formula.rereadArguments]
      exact means_negation hsecond (isNumber_of_not_glued hneg hpositive hglued)
  · rw [hshape]
    simp [negation]

/-- A call of an operator with two arguments is written with the operator between them. -/
lemma restores_operation {note ν : ε} {n : String} {first second : Formula ε δ σ}
    (hfirst : Restores d first) (hsecond : Restores d second)
    (hnegation : Formula.isNegation (.node ν (.name n)) [first, second] = false)
    (hop : Word.isOperator n = true) :
    Restores d (.node note (.call (.node ν (.name n)) [first, second])) := by
  have hshape : shape (.call (.node ν (.name n)) [first, second]) d =
      operation n (formula first d) (formula second d) := by
    have hno : ¬ (decide (n = "-") && isZero first) = true := by
      simpa [Formula.isNegation] using hnegation
    simp only [shape, call, formulas, callOfName]
    rw [if_neg hno, if_pos hop]
  refine restores_of_means ?_ (.inr ?_)
  · rw [hshape]
    simp only [Shape.reread, Formula.glued?_eq_none hnegation, Formula.reread, hnegation,
      Formula.rereads, Formula.rereadArguments]
    exact means_operation hop hfirst.means hsecond.means
  · rw [hshape]
    simp [operation]

lemma restores_callOfName {note ν : ε} {n : String} {args : List (Formula ε δ σ)}
    (h : ∀ a ∈ args, Restores d a) (hapart : Apart (.node note (.call (.node ν (.name n)) args))) :
    Restores d (.node note (.call (.node ν (.name n)) args)) := by
  have hargs := stands_formulas h
  -- a call without an operator, or with another number of arguments than an operator has
  have hplain (hnegation : Formula.isNegation (.node ν (.name n)) args = false)
      (hatom : callOfName n args (formulas args d) =
        atom s!"{name n}({argumentList (formulas args d)})") :
      Restores d (.node note (.call (.node ν (.name n)) args)) := by
    have hshape : shape (.call (.node ν (.name n)) args) d =
        callOfName n args (formulas args d) := by simp only [shape, call]
    rw [hatom] at hshape
    refine restores_of_tightly hshape ?_
    simp only [Shape.reread, Formula.glued?_eq_none hnegation, Formula.reread, hnegation]
    exact means_callOfName_atom n hargs
  match args, hapart with
  | [first, second], hapart =>
    have hfirst := h first (by simp)
    have hsecond := h second (by simp)
    cases hneg : n == "-" && isZero first with
    | true =>
      obtain ⟨hn, hzero⟩ := Bool.and_eq_true_iff.mp hneg
      obtain rfl := beq_iff_eq.mp hn
      exact restores_negation hsecond hzero hapart
    | false =>
      by_cases hop : Word.isOperator n = true
      · exact restores_operation hfirst hsecond hneg hop
      · refine hplain hneg ?_
        have hno : ¬ (decide (n = "-") && isZero first) = true := by
          simpa using hneg
        simp only [formulas, callOfName]
        rw [if_neg hno, if_neg hop]
  | [], _ => exact hplain (not_isNegation_of_length (by simp)) (by simp only [callOfName])
  | [_], _ => exact hplain (not_isNegation_of_length (by simp)) (by simp only [callOfName])
  | _ :: _ :: _ :: _, _ =>
    exact hplain (not_isNegation_of_length (by simp)) (by simp only [callOfName])

lemma restores_call {note : ε} {callee : Formula ε δ σ} {args : List (Formula ε δ σ)}
    (hcallee : Restores d callee) (hargs : ∀ a ∈ args, Restores d a)
    (hapart : Apart (.node note (.call callee args))) :
    Restores d (.node note (.call callee args)) := by
  have hparens (hshape : shape (.call callee args) d =
      atom s!"({(formula callee d).text})({argumentList (formulas args d)})")
      (hnegation : Formula.isNegation callee args = false) :
      Restores d (.node note (.call callee args)) := by
    obtain ⟨t, ht, hlex⟩ := hcallee.means.callee
    have htight := hcallee.means.parens
    refine restores_of_tightly hshape ?_
    simp only [Shape.reread, Formula.glued?_eq_none hnegation, hnegation]
    have hinked := htight.inked
    have hbounds := htight.bounds
    rw [toList_parenthesized] at hinked hbounds
    exact means_applied ht hinked hbounds hlex (stands_formulas hargs)
      (by simp [toString, argumentList])
  obtain ⟨ν, calleeShape⟩ := callee
  cases calleeShape with
  | name n => exact restores_callOfName hargs hapart
  | _ => exact hparens (by simp only [shape, call]) rfl

/-! ## Closures -/

lemma means_parameters (d : Nat) (ps : List String) : Inked (parameterList ps).toList ∧
    ∃ ts, IsParameters ts ps ∧ Lexes d .atomic (parameterList ps).toList ts := by
  have hlist : Inked s!"({commaSeparated (ps.map name)})".toList ∧
      ∃ ts, IsParameters ts ps ∧
        Lexes d .atomic s!"({commaSeparated (ps.map name)})".toList ts := by
    have hnames : List.Forall₂ (Stands AreName d) (ps.map name) ps := by
      rw [List.forall₂_map_left_iff, List.forall₂_same]
      exact fun n _ => ⟨inked_name n, _, ⟨_, rfl, _, rfl, isName_isQuoted n⟩, lexes_name n⟩
    obtain ⟨-, ts, hts, hlex⟩ := lexes_commaSeparated hnames
    rw [toList_parenthesized]
    exact ⟨⟨'(', rfl, by decide⟩, _, .list hts, lexes_of_emits fun _ _ _ => hlex.parens⟩
  match ps with
  | [n] => exact ⟨inked_name n, _, .name (isName_isQuoted n), lexes_name n⟩
  | [] => exact hlist
  | _ :: _ :: _ => exact hlist

/-- A name and the formula that it stands for, on a line. -/
lemma standsInLine_definition (h : Means d fr f) (n : String) :
    StandsInLine IsDefinition d (name n ++ " = " ++ fr.text) (.node () n (some f)) := by
  obtain ⟨ts, hts, hlex⟩ := h.reads
  have htext : (name n ++ " = " ++ fr.text).toList =
      (name n).toList ++ ' ' :: (equalsSign.toList ++ ' ' :: fr.text.toList) := by
    simp [equalsSign]
  refine ⟨?_, _, trail fr.binding, .intro (isName_isQuoted n) hts.isFormula, trails_trail _, ?_⟩
  · rw [htext]
    exact (inked_name n).append _
  · rw [htext]
    exact ((lexes_name n).spaced (List.all_eq_true.mp (by decide)) (by decide) h.inked hlex).loosen

lemma toList_arrow (head tail : String) : (s!"{head} -> " ++ tail).toList =
    head.toList ++ ' ' :: (arrow.toList ++ ' ' :: tail.toList) := by
  simp [toString, arrow]

lemma trail_looser (b : Binding) : trail (b.looser .argument) = trail b := by
  cases b with
  | operation tier => cases tier <;> rfl
  | _ => rfl

lemma looser_ne_atomic (b : Binding) : b.looser .argument ≠ .atomic := by
  cases b with
  | operation tier => cases tier <;> decide
  | _ => decide

lemma fits_looser (h : IsFormula ts f) (b : Binding) : Fits (b.looser .argument) ts f := by
  unfold Binding.looser
  split
  · rename_i hle
    cases b with
    | multiline => exact h
    | argument => exact h
    | operation tier => simp [Binding.tightness] at hle
    | sign => simp [Binding.tightness] at hle
    | atomic => simp [Binding.tightness] at hle
  · exact h

lemma Lexes.looser (h : Lexes d b cs ts) : Lexes d (b.looser .argument) cs ts := by
  by_cases hb : b = .multiline
  · subst hb
    exact h
  · exact h.tighten hb _

/-- A closure without further definitions. -/
lemma means_closure (h : Means d fr f) (ps : List String) :
    Means d ⟨s!"{parameterList ps} -> " ++ fr.text, fr.binding.looser .argument⟩
      (.node () (.closure ps (.node () [.node () resultName (some f)] []))) := by
  obtain ⟨hinked, us, hus, hparameters⟩ := means_parameters d ps
  obtain ⟨ts, hts, hlex⟩ := h.reads
  refine ⟨?_, us ++ spaced arrow ts, fits_looser (hts.isFormula.closure hus) _, ?_⟩
  · rw [toList_arrow]
    exact hinked.append _
  · rw [toList_arrow, trail_looser]
    have hall := (hparameters.spaced (s := arrow) (List.all_eq_true.mp (by decide)) (by decide)
      h.inked hlex).looser
    simpa [spaced] using hall

/-- What is on lines below is a line break and the lines. -/
lemma toList_join_lines {lines : List String} (hne : lines ≠ []) :
    (String.join (lines.map (newLine d ++ ·))).toList = (newLine d).toList ++ stacked d lines := by
  cases lines with
  | nil => exact absurd rfl hne
  | cons s l => simp [String.toList_join, stacked, List.flatMap_map]

/-- Pieces with a space between them. -/
lemma Lexes.append_space (h : Lexes d .atomic cs ts) (hds : Inked ds) (h' : Lexes d b ds us) :
    Lexes d b (cs ++ ' ' :: ds) (ts ++ Token.space :: us) := by
  intro E p rest hE hp hrest hleaves
  have hfirst : Emits E p cs ts (' ' :: ds ++ rest) := h hE hp stops_space fun hb => by cases hb
  have hspace : Emits E (lastOf p cs) [' '] [Token.space] (ds ++ rest) :=
    emits_space (hds.append rest)
  exact hfirst.append (hspace.append (h' hE opens_space hrest hleaves))

/-- A closure with further definitions on the lines below. -/
lemma means_closure_where (h : Means d fr f) (ps : List String) {lines : List String}
    {ds : List Definition.Bare} (hne : lines ≠ [])
    (hlines : List.Forall₂ (StandsInLine IsDefinition (d + 1)) lines ds) :
    Means d ⟨s!"{parameterList ps} -> " ++ fr.within (.operation .custom) ++ " where" ++
        String.join (lines.map (newLine (d + 1) ++ ·)), .multiline⟩
      (.node () (.closure ps (.node () (.node () resultName (some f) :: ds) []))) := by
  obtain ⟨hinked, us, hus, hparameters⟩ := means_parameters d ps
  obtain ⟨hresult, ts, ⟨x, hx, hxgrouped, -, rfl⟩, hlex⟩ := h.within_operation .custom
  obtain ⟨hstacked, vs, hvs, hblock⟩ := lexes_stacked hlines
  have htext : (s!"{parameterList ps} -> " ++ fr.within (.operation .custom) ++ " where" ++
      String.join (lines.map (newLine (d + 1) ++ ·))).toList = (parameterList ps).toList ++
        ' ' :: (arrow.toList ++ ' ' :: ((fr.within (.operation .custom)).toList ++
          ' ' :: ("where".toList ++ ((newLine (d + 1)).toList ++ stacked (d + 1) lines)))) := by
    rw [← toList_join_lines hne]
    simp [toString, arrow]
  have hopened := lexes_opened (w := "where") (by decide) (hstacked hne) hblock
  have hwhere := hlex.append_space (inked_of_isBareName (n := "where") (by decide) |>.append _)
    hopened
  have hall := hparameters.spaced (s := arrow) (List.all_eq_true.mp (by decide)) (by decide)
    (hresult.append _) hwhere
  refine ⟨?_, _, hx.closure hxgrouped hus (.inl rfl) hvs, ?_⟩
  · rw [htext]
    exact hinked.append _
  · rw [htext]
    simpa [spaced, trail] using hall

lemma definitions_eq_map (ds : List (Definition ε δ σ)) :
    definitions ds = ds.map fun e => (e.name, e.value.map formula) := by
  induction ds with
  | nil => rw [definitions, List.map_nil]
  | cons e ds ih =>
    obtain ⟨note, n, _ | value⟩ := e <;> rw [definitions, List.map_cons, ih] <;> rfl

lemma splitResult_eq (ws : List Written) : splitResult ws =
    (ws.find? (·.1 == resultName), ws.eraseP (·.1 == resultName)) := by
  induction ws with
  | nil => rfl
  | cons w ws ih =>
    rw [splitResult, ih, List.find?_cons, List.eraseP_cons]
    by_cases hw : w.1 = resultName
    · simp [hw]
    · have hbeq : (w.1 == resultName) = false := beq_false_of_ne hw
      rw [if_neg hw, hbeq]
      rfl

/-- The result among definitions, and the others. -/
lemma splitResult_definitions (ds : List (Definition ε δ σ)) : splitResult (definitions ds) =
    ((ds.find? (·.name == resultName)).map fun e => (e.name, e.value.map formula),
      (ds.eraseP (·.name == resultName)).map fun e => (e.name, e.value.map formula)) := by
  rw [splitResult_eq, definitions_eq_map, List.find?_map, List.eraseP_map]
  rfl

lemma resultFirst_rereads (ds : List (Definition ε δ σ)) :
    Definition.resultFirst (Definition.rereads ds) =
      .node () resultName (some ((((ds.find? (·.name == resultName)).bind Definition.value).map
        Formula.reread).getD (.node () .null))) ::
          (ds.eraseP (·.name == resultName)).map Definition.reread := by
  have hname : (fun e : Definition.Bare => e.name == resultName) ∘ Definition.reread =
      fun e : Definition ε δ σ => e.name == resultName := by
    funext e
    cases e
    rfl
  rw [Definition.resultFirst, Definition.rereads_eq_map, List.find?_map, List.eraseP_map, hname]
  cases hfind : ds.find? (·.name == resultName) with
  | none => rfl
  | some e =>
    obtain ⟨note, n, value⟩ := e
    have hresult := List.find?_some hfind
    obtain rfl := beq_iff_eq.mp hresult
    rfl

/-- A formula or, for want of one, null. -/
lemma means_value {value : Option (Formula ε δ σ)} (h : ∀ f ∈ value, Restores d f) :
    Means d ((value.map (formula · d)).getD (atom "null"))
      ((value.map Formula.reread).getD (.node () .null)) := by
  cases value with
  | none => exact (means_null d).means
  | some f => exact (h f rfl).means

lemma definitionLine_eq (n : String) (value : Option Fragment) :
    definitionLine n value = name n ++ " = " ++ (value.getD (atom "null")).text := by
  cases value <;> rfl

lemma standsInLine_definitions {ds : List (Definition ε δ σ)}
    (h : ∀ e ∈ ds, ∀ f ∈ e.value, Restores d f) :
    List.Forall₂ (StandsInLine IsDefinition d)
      (ds.map fun e => definitionLine e.name (e.value.map (formula · d)))
      (ds.map Definition.reread) := by
  rw [List.forall₂_map_left_iff, List.forall₂_map_right_iff, List.forall₂_same]
  intro e he
  obtain ⟨note, n, value⟩ := e
  rw [definitionLine_eq]
  exact standsInLine_definition (means_value (h _ he)) n

/-- What a closure is written as, whether there is a result among its definitions or not. -/
lemma closure_eq (ps : List String) (ds : List (Definition ε δ σ)) (d : Nat) :
    closure ps (definitions ds) d =
      let fr := (((ds.find? (·.name == resultName)).bind Definition.value).map
        (formula · d)).getD (atom "null")
      let lines := (ds.eraseP (·.name == resultName)).map fun e =>
        definitionLine e.name (e.value.map (formula · (d + 1)))
      if lines = [] then ⟨s!"{parameterList ps} -> " ++ fr.text, fr.binding.looser .argument⟩
      else ⟨s!"{parameterList ps} -> " ++ fr.within (.operation .custom) ++ " where" ++
        String.join (lines.map (newLine (d + 1) ++ ·)), .multiline⟩ := by
  unfold closure
  rw [splitResult_definitions]
  dsimp only
  -- the result is the value of the first definition with its name
  have hresult : ((((ds.find? (·.name == resultName)).map fun e =>
      (e.name, e.value.map formula)).bind (·.2)).map (· d)) =
        (((ds.find? (·.name == resultName)).bind Definition.value).map (formula · d)) := by
    cases ds.find? (·.name == resultName) with
    | none => rfl
    | some e =>
      obtain ⟨note, n, _ | value⟩ := e <;> rfl
  rw [hresult]
  cases hothers : ds.eraseP (·.name == resultName) with
  | nil =>
    cases ((ds.find? (·.name == resultName)).bind Definition.value).map (formula · d) with
    | none => rfl
    | some fr => rfl
  | cons e es =>
    have hlines : (e :: es).map (fun e : Definition ε δ σ =>
        definitionLine e.name (e.value.map (formula · (d + 1)))) ≠ [] := by simp
    rw [if_neg (by simp), if_neg hlines, List.map_map, List.map_map]
    congr 2
    · cases ((ds.find? (·.name == resultName)).bind Definition.value).map (formula · d) <;> rfl
    · congr 1
      refine List.map_congr_left fun e _ => ?_
      obtain ⟨note, n, _ | value⟩ := e <;> rfl

lemma restores_closure {note : ε} {ps : List String} {body : DefinitionSet ε δ σ}
    (h : ∀ d, ∀ f ∈ body.formulas, Restores d f) (d : Nat) :
    Restores d (.node note (.closure ps body) : Formula ε δ σ) := by
  obtain ⟨ν, ds, floating⟩ := body
  have hdefinition (d : Nat) {e : Definition ε δ σ} (he : e ∈ ds) : ∀ f ∈ e.value, Restores d f :=
    fun f hf => h d f (DefinitionSet.mem_formulas_of_value he hf)
  have hresult : ∀ f ∈ (ds.find? (·.name == resultName)).bind Definition.value, Restores d f := by
    intro f hf
    obtain ⟨e, he, hvalue⟩ := Option.bind_eq_some_iff.mp hf
    exact hdefinition d (List.mem_of_find?_eq_some he) f hvalue
  -- the other definitions stand below the result, one step deeper
  have hlines := @standsInLine_definitions _ _ _ (d + 1) (ds.eraseP (·.name == resultName))
    fun e he => hdefinition (d + 1) (List.mem_of_mem_eraseP he)
  have hshape : shape (.closure ps (.node ν ds floating)) d = closure ps (definitions ds) d := by
    simp only [shape, definitionSet]
  have hreread : Shape.reread (.closure ps (.node ν ds floating)) =
      .node () (.closure ps (.node () (Definition.resultFirst (Definition.rereads ds)) [])) := by
    simp only [Shape.reread, DefinitionSet.rereads]
  rw [resultFirst_rereads] at hreread
  rw [closure_eq] at hshape
  refine restores_of_means ?_ (.inr ?_)
  · rw [hshape, hreread]
    dsimp only
    split
    · rename_i hnil
      rw [List.map_eq_nil_iff.mp hnil, List.map_nil]
      exact means_closure (means_value hresult) ps
    · rename_i hne
      exact means_closure_where (means_value hresult) ps hne hlines
  · rw [hshape]
    dsimp only
    split
    · exact looser_ne_atomic _
    · simp

/-! ## Switches -/

/-- The line of a case. -/
def caseLine (d : Nat) : Case (Formula ε δ σ) → String
  | .when condition value =>
    s!"{(formula condition d).within .argument} => {(formula value d).text}"
  | .otherwise value => s!"otherwise {(formula value d).text}"

lemma caseLines_eq_map (cs : List (Case (Formula ε δ σ))) (d : Nat) :
    caseLines cs d = (Case.upToOtherwise cs).map (caseLine d) := by
  induction cs with
  | nil => rw [caseLines, Case.upToOtherwise, List.map_nil]
  | cons c cs ih =>
    cases c with
    | when condition value => rw [caseLines, Case.upToOtherwise, List.map_cons, ← ih]; rfl
    | otherwise value => rw [caseLines, Case.upToOtherwise, List.map_singleton]; rfl

lemma standsInLine_case {c : Case (Formula ε δ σ)} (h : ∀ f ∈ c.parts, Restores d f) :
    StandsInLine IsCase d (caseLine d c) (c.map Formula.reread) := by
  cases c with
  | when condition value =>
    obtain ⟨hinked, ts, hts, hlex⟩ := (h condition (by simp [Case.parts])).means.within_argument
    have hvalue := (h value (by simp [Case.parts])).means
    obtain ⟨us, hus, hlex'⟩ := hvalue.reads
    have htext : (caseLine d (.when condition value)).toList =
        ((formula condition d).within .argument).toList ++ ' ' :: (doubleArrow.toList ++
          ' ' :: (formula value d).text.toList) := by
      simp [caseLine, toString, doubleArrow]
    rw [StandsInLine, htext, Case.map]
    refine ⟨hinked.append _, _, trail (formula value d).binding, .when hts hus.isFormula,
      trails_trail _, ?_⟩
    have hall := (hlex.spaced (s := doubleArrow) (List.all_eq_true.mp (by decide)) (by decide)
      hvalue.inked hlex').loosen
    simpa [spaced] using hall
  | otherwise value =>
    have hvalue := (h value (by simp [Case.parts])).means
    obtain ⟨us, hus, hlex⟩ := hvalue.reads
    have htext : (caseLine d (.otherwise value)).toList =
        "otherwise".toList ++ ' ' :: (formula value d).text.toList := by
      simp [caseLine, toString]
    -- `otherwise` is read as a name like any other
    have hword : Lexes d .atomic "otherwise".toList [ident "otherwise" false] := by
      intro E p rest _ _ hrest _
      refine emits_token (by decide) (any_blockEnds_of_head E ?_) rfl ?_
      · exact ((inked_of_isBareName (n := "otherwise") (by decide)).append rest).head
      · exact (accepts_readToken_bareName (by decide) (by decide) hrest).mono
          fun t r i hr => ⟨by rw [hr.1, bare], hr.2⟩
    rw [StandsInLine, htext, Case.map]
    refine ⟨(inked_of_isBareName (n := "otherwise") (by decide)).append _, _,
      trail (formula value d).binding, .otherwise hus.isFormula, trails_trail _, ?_⟩
    simpa using (hword.append_space hvalue.inked hlex).loosen

lemma restores_switch {note : ε} {cs : List (Case (Formula ε δ σ))}
    (h : ∀ d, ∀ f ∈ cs.flatMap Case.parts, Restores d f) (d : Nat) :
    Restores d (.node note (.switch cs) : Formula ε δ σ) := by
  have hlines : List.Forall₂ (StandsInLine IsCase (d + 1))
      ((Case.upToOtherwise cs).map (caseLine (d + 1)))
      ((Case.upToOtherwise cs).map (Case.map Formula.reread)) := by
    rw [List.forall₂_map_left_iff, List.forall₂_map_right_iff, List.forall₂_same]
    exact fun c hc => standsInLine_case fun f hf =>
      h _ f (List.mem_flatMap.mpr ⟨c, Case.mem_of_mem_upToOtherwise hc, hf⟩)
  have hshape : shape (.switch cs) d = switch ((Case.upToOtherwise cs).map (caseLine (d + 1))) d := by
    simp only [shape, caseLines_eq_map]
  have hreread : Shape.reread (.switch cs) =
      .node () (.switch ((Case.upToOtherwise cs).map (Case.map Formula.reread))) := by
    simp only [Shape.reread, Case.rereads_eq_map]
  cases hcases : Case.upToOtherwise cs with
  | nil =>
    rw [hcases] at hshape hreread
    refine restores_of_tightly hshape ?_
    rw [hreread]
    -- without a case there is only the word
    refine ⟨⟨'s', rfl, by decide⟩, ?_, _, isPrimary_switch (.inr rfl) .nil,
      lexes_of_emits fun _ _ _ => emits_emptySwitch⟩
    rintro c ⟨⟩
    decide
  | cons c cs' =>
    rw [hcases] at hshape hreread hlines
    have hne : (c :: cs').map (caseLine (d + 1)) ≠ [] := by simp
    obtain ⟨hstacked, ts, hts, hlex⟩ := lexes_stacked hlines
    have htext : (switch ((c :: cs').map (caseLine (d + 1))) d).text.toList =
        "switch".toList ++ ((newLine (d + 1)).toList ++
          stacked (d + 1) ((c :: cs').map (caseLine (d + 1)))) := by
      rw [← toList_join_lines hne]
      simp [switch]
    have hprimary := isPrimary_switch (.inl rfl) hts
    refine restores_of_means ⟨?_, ?_⟩ (.inr ?_)
    · rw [hshape, htext]
      exact (inked_of_isBareName (n := "switch") (by decide)).append _
    · rw [hshape, htext, hreread]
      exact ⟨_, (isChain_of_isOperand hprimary.isOperand (Nat.zero_le _)).isFormula,
        lexes_opened (w := "switch") (by decide) (hstacked hne) hlex⟩
    · rw [hshape]
      simp [switch]

/-! ## All formulas -/

/-- A formula that is written so that its text can be read back: no text in it contains a quote,
and no minus is glued to a number. -/
def Safe (f : Formula ε δ σ) : Prop := f.Unquoted ∧ Apart f

theorem restores {f : Formula ε δ σ} (h : f.Throughout Safe) (d : Nat) : Restores d f := by
  induction h generalizing d with
  | @intro note shape here below ih =>
    obtain ⟨hunquoted, hapart⟩ := here
    cases shape with
    | null => exact restores_of_tightly (by rw [Layout.shape]) (by rw [Shape.reread]; exact means_null d)
    | bool v =>
      exact restores_of_tightly (by rw [Layout.shape]) (by rw [Shape.reread]; exact means_bool d v)
    | number x =>
      exact restores_number (by rw [Layout.shape]) (by rw [Shape.reread]) rfl
    | text v =>
      refine restores_of_tightly (by rw [Layout.shape]) ?_
      rw [Shape.reread]
      exact means_text (hunquoted v (by simp [Formula.texts]))
    | name n =>
      exact restores_of_tightly (by rw [Layout.shape]) (by rw [Shape.reread]; exact means_name d n)
    | matrix m => exact restores_matrix hunquoted
    | list items => exact restores_list fun f hf => ih f hf d
    | call callee args =>
      exact restores_call (ih callee List.mem_cons_self d)
        (fun a ha => ih a (List.mem_cons_of_mem _ ha) d) hapart
    | closure ps body => exact restores_closure (fun d f hf => ih f hf d) d
    | switch cs => exact restores_switch (fun d f hf => ih f hf d) d

end Formulary.Layout
