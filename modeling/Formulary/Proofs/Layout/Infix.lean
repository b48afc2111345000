/-
# Parentheses around operations

A formula that is built of names and operators alone can be written in many ways, which differ in
their parentheses.  A phrase is such a text together with the way it is read: it is proper if every
operand that has no parentheses binds as tight as its place requires.  Proper phrases are read as
the formulas that they stand for.

Without one matching pair of parentheses the text of a proper phrase is again the text of a proper
phrase.  What stood in the pair is now among the operators around it, so the operations are put
together anew, the loosest operator outermost.  Written formulas have as few parentheses as any
phrase for them, so the phrase that is left stands for another formula.
-/
import Formulary.Proofs.Store.RoundTrip
import Formulary.Proofs.Text.Parentheses

namespace Formulary

open Word

variable {ε δ σ : Type}

/-- A formula that is built of bare names and operators between two operands. -/
inductive Formula.Infix : Formula ε δ σ → Prop
  | name (note : ε) {n : String} (hbare : isBareName n = true) (hfree : isReserved n = false) :
      Infix (.node note (.name n))
  | operation (note ν : ε) {n : String} {left right : Formula ε δ σ} (hn : isOperator n = true)
      (hleft : Infix left) (hright : Infix right) :
      Infix (.node note (.call (.node ν (.name n)) [left, right]))

lemma Formula.Infix.isZero_eq {f : Formula ε δ σ} (hf : f.Infix) : Layout.isZero f = false := by
  cases hf <;> rfl

namespace Layout

open Text

lemma name_eq_self {n : String} (hbare : isBareName n = true) (hfree : isReserved n = false) :
    name n = n := by
  simp [name, hbare, hfree]

/-- Nothing binds looser than several lines. -/
lemma within_multiline (fr : Fragment) : fr.within .multiline = fr.text :=
  if_neg (Nat.not_lt_zero _)

/-- An operation on two operands that is not written as a minus. -/
lemma formula_operation {note ν : ε} {n : String} {left right : Formula ε δ σ}
    (hn : isOperator n = true) (hzero : isZero left = false) (d : Nat) :
    formula (.node note (.call (.node ν (.name n)) [left, right])) d =
      operation n (formula left d) (formula right d) := by
  simp [formula, shape, call, formulas, callOfName, hzero, hn]

/-- A text for a formula of names and operators, and how it is read. -/
inductive Phrase where
  | name (n : String)
  | operation (n : String) (left right : Phrase)
  | parens (inner : Phrase)

namespace Phrase

variable {p q : Phrase} {b : Binding} {n : String} {d : Nat} {t : List Char}

/-- The text of a phrase. -/
def text : Phrase → String
  | name n => n
  | operation n left right => left.text ++ " " ++ n ++ " " ++ right.text
  | parens inner => "(" ++ inner.text ++ ")"

/-- How tightly a phrase binds. -/
def binding : Phrase → Binding
  | operation n _ _ => .operation (Tier.ofOperator n)
  | name _ | parens _ => .atomic

/-- The fragment that a phrase is. -/
def fragment (p : Phrase) : Fragment := ⟨p.text, p.binding⟩

/-- The formula that a phrase stands for. -/
def value : Phrase → Formula.Bare
  | name n => .node () (.name n)
  | operation n left right => .node () (.call (.node () (.name n)) [left.value, right.value])
  | parens inner => inner.value

/-- The phrase binds at least as tight as its place requires, so it needs no parentheses there. -/
def Suits (p : Phrase) (required : Binding) : Prop := required.tightness ≤ p.binding.tightness

/-- The names are bare, the operators stand between two operands, and the operands suit their
places. -/
def Proper : Phrase → Prop
  | name n => isBareName n = true ∧ isReserved n = false
  | operation n left right => isOperator n = true ∧ left.Suits (.operation (Tier.ofOperator n)) ∧
      right.Suits (rightRequirement (Tier.ofOperator n)) ∧ left.Proper ∧ right.Proper
  | parens inner => inner.Proper

/-! ## Places -/

lemma tightness_rightRequirement (tier : Tier) :
    (rightRequirement tier).tightness = (Binding.operation tier).tightness + 1 := by
  cases tier <;> rfl

lemma tightness_le_atomic (b : Binding) : b.tightness ≤ Binding.atomic.tightness := by
  cases b with
  | operation tier => cases tier <;> decide
  | _ => decide

/-- What binds looser than an atom is an operation. -/
lemma exists_operation (h : p.binding.tightness < Binding.atomic.tightness) :
    ∃ n left right, p = operation n left right := by
  cases p with
  | operation n left right => exact ⟨n, left, right, rfl⟩
  | name n => exact absurd h (Nat.lt_irrefl _)
  | parens inner => exact absurd h (Nat.lt_irrefl _)

lemma suits_of_atomic (h : p.binding = .atomic) (required : Binding) : p.Suits required := by
  rw [Suits, h]
  exact tightness_le_atomic required

/-! ## Reading -/

/-- A fragment that suits its place has no parentheses there. -/
lemma within_of_suits (h : p.Suits b) : p.fragment.within b = p.text :=
  if_neg (Nat.not_lt.mpr h)

lemma fragment_operation {left right : Phrase} (hp : (operation n left right).Proper) :
    (operation n left right).fragment = Layout.operation n left.fragment right.fragment := by
  obtain ⟨-, hleft, hright, -, -⟩ := hp
  rw [Layout.operation, within_of_suits hleft, within_of_suits hright]
  simp [fragment, text, binding, toString]

/-- The text of a proper phrase is read as the formula that it stands for. -/
theorem Proper.means (hp : p.Proper) (d : Nat) : Means d p.fragment p.value := by
  induction p with
  | name n => exact (means_bareName (name_eq_self hp.1 hp.2)).means
  | operation n left right ihleft ihright =>
    rw [fragment_operation hp]
    obtain ⟨hn, -, -, hl, hr⟩ := hp
    exact means_operation hn (ihleft hl) (ihright hr)
  | parens inner ih =>
    have hparens := (ih hp).parens.means
    have hfragment : (parens inner).fragment = atom s!"({inner.fragment.text})" := by
      simp [fragment, text, binding, atom, toString]
    rwa [hfragment]

/-! ## Regrouping -/

lemma tightness_operation_lt (n : String) (p q : Phrase) :
    (operation n p q).binding.tightness < Binding.atomic.tightness := by
  cases htier : Tier.ofOperator n <;> rw [binding, htier] <;> decide

/-- Two phrases are the operands of an operator between them, unless one of them is an operation
whose operator has to go outermost. -/
lemma outermost_cases (n : String) (p q : Phrase) :
    (p.Suits (.operation (Tier.ofOperator n)) ∧ q.Suits (rightRequirement (Tier.ofOperator n))) ∨
      (∃ m left right, q = operation m left right ∧ p.Suits q.binding ∧
        (operation n p q).Suits q.binding) ∨
      ∃ m left right, p = operation m left right ∧
        q.Suits (rightRequirement (Tier.ofOperator m)) ∧
        (operation n p q).Suits (rightRequirement (Tier.ofOperator m)) := by
  have hatomic := tightness_operation_lt n p q
  by_cases hright : q.binding.tightness ≤ p.binding.tightness ∧
      q.binding.tightness ≤ (operation n p q).binding.tightness
  · obtain ⟨m, left, right, rfl⟩ := exists_operation (Nat.lt_of_le_of_lt hright.2 hatomic)
    exact .inr (.inl ⟨m, left, right, rfl, hright⟩)
  by_cases hleft : p.binding.tightness < q.binding.tightness ∧
      p.binding.tightness < (operation n p q).binding.tightness
  · obtain ⟨m, left, right, rfl⟩ := exists_operation (Nat.lt_trans hleft.2 hatomic)
    refine .inr (.inr ⟨m, left, right, rfl, ?_⟩)
    rw [Suits, Suits, tightness_rightRequirement]
    exact hleft
  · left
    rw [Suits, Suits, tightness_rightRequirement]
    rw [binding] at hleft hright
    omega

/-- The text of two phrases with an operator between them is the text of one proper phrase.  That
suits every place that the two phrases and an operation of the operator suit. -/
lemma exists_join (hn : isOperator n = true) (hp : p.Proper) (hq : q.Proper) :
    ∃ x : Phrase, x.Proper ∧ x.text = p.text ++ " " ++ n ++ " " ++ q.text ∧
      ∀ b, p.Suits b → q.Suits b → (operation n p q).Suits b → x.Suits b := by
  induction hsize : sizeOf p + sizeOf q using Nat.strong_induction_on generalizing p q with
  | _ size ih =>
    subst hsize
    rcases outermost_cases n p q with ⟨hfit, hfit'⟩ | ⟨m, left, right, rfl, hfit, hfit'⟩ |
      ⟨m, left, right, rfl, hfit, hfit'⟩
    · exact ⟨operation n p q, ⟨hn, hfit, hfit', hp, hq⟩, rfl, fun b _ _ hb => hb⟩
    · -- the operator of the right phrase goes outermost, so its left operand is joined
      obtain ⟨hm, hleft, hright, hl, hr⟩ := hq
      have hless : sizeOf p + sizeOf left < sizeOf p + sizeOf (operation m left right) := by
        simp only [operation.sizeOf_spec]
        omega
      obtain ⟨x, hx, htext, hsuits⟩ := ih _ hless hp hl rfl
      refine ⟨operation m x right, ⟨hm, hsuits _ hfit hleft hfit', hright, hx, hr⟩, ?_, ?_⟩
      · simp [text, htext, String.append_assoc]
      · exact fun b _ hb _ => hb
    · -- the operator of the left phrase goes outermost, so its right operand is joined
      obtain ⟨hm, hleft, hright, hl, hr⟩ := hp
      have hless : sizeOf right + sizeOf q < sizeOf (operation m left right) + sizeOf q := by
        simp only [operation.sizeOf_spec]
        omega
      obtain ⟨x, hx, htext, hsuits⟩ := ih _ hless hr hq rfl
      refine ⟨operation m left x, ⟨hm, hleft, hsuits _ hright hfit hfit', hl, hx⟩, ?_, ?_⟩
      · simp [text, htext, String.append_assoc]
      · exact fun b hb _ _ => hb

/-! ## Without a pair of parentheses -/

lemma toList_text_operation (n : String) (p q : Phrase) : (operation n p q).text.toList =
    p.text.toList ++ (' ' :: (n.toList ++ [' ']) ++ q.text.toList) := by
  simp [text]

lemma toList_text_parens (p : Phrase) : (parens p).text.toList = '(' :: p.text.toList ++ [')'] := by
  simp [text]

lemma plain_of_isBareName (h : isBareName n = true) : Plain n.toList := by
  obtain ⟨c, cs, hn, hc, hcs⟩ := Token.exists_of_isBareName h
  have hpart : ∀ d ∈ n.toList, isNamePart d = true := by
    rw [hn, List.forall_mem_cons]
    exact ⟨Token.isNamePart_of_isNameStart hc, hcs⟩
  exact fun d hd => not_mem_of_class (hpart d hd) (List.all_iff_forall_prop.mp (by decide))

lemma plain_of_isOperator (h : isOperator n = true) : Plain (' ' :: (n.toList ++ [' '])) := by
  have hchars : ∀ c ∈ n.toList, isOperatorChar c = true := by
    simp only [isOperator, Bool.and_eq_true, List.all_eq_true] at h
    exact h.1.2
  have hspace : ' ' ∉ ['(', ')'] := by decide
  simp only [Plain, List.forall_mem_cons, List.forall_mem_append, List.not_mem_nil, false_implies,
    implies_true, and_true]
  exact ⟨hspace, fun c hc =>
    not_mem_of_class (hchars c hc) (List.all_iff_forall_prop.mp (by decide)), hspace⟩

lemma Proper.balanced (hp : p.Proper) : Balanced p.text.toList := by
  induction p with
  | name n => exact (plain_of_isBareName hp.1).balanced
  | operation n left right ihleft ihright =>
    obtain ⟨hn, -, -, hl, hr⟩ := hp
    rw [toList_text_operation]
    exact (ihleft hl).append ((plain_of_isOperator hn).balanced.append (ihright hr))
  | parens inner ih =>
    rw [toList_text_parens]
    exact (ih hp).parens

/-- Without a pair of parentheses the text of a proper phrase is the text of a proper phrase. -/
lemma Proper.exists_of_dropsPair (hp : p.Proper) (h : DropsPair p.text.toList t) :
    ∃ q : Phrase, q.Proper ∧ q.text.toList = t := by
  induction p generalizing t with
  | name n => exact absurd h (plain_of_isBareName hp.1).not_dropsPair
  | operation n left right ihleft ihright =>
    obtain ⟨hn, -, -, hl, hr⟩ := hp
    have hplain := plain_of_isOperator hn
    rw [toList_text_operation] at h
    -- an operand that lost a pair may bind looser than before, so the two are joined anew
    rcases h.of_append hl.balanced with ⟨cs, hcs, rfl⟩ | ⟨ds, hds, rfl⟩
    · obtain ⟨x, hx, rfl⟩ := ihleft hl hcs
      obtain ⟨y, hy, htext, -⟩ := exists_join hn hx hr
      exact ⟨y, hy, by rw [htext]; simp⟩
    · rcases hds.of_append hplain.balanced with ⟨cs, hcs, -⟩ | ⟨cs, hcs, rfl⟩
      · exact absurd hcs hplain.not_dropsPair
      · obtain ⟨x, hx, rfl⟩ := ihright hr hcs
        obtain ⟨y, hy, htext, -⟩ := exists_join hn hl hx
        exact ⟨y, hy, by rw [htext]; simp⟩
  | parens inner ih =>
    rw [toList_text_parens] at h
    have hinner : inner.Proper := hp
    rcases h.of_parens hinner.balanced with rfl | ⟨cs, hcs, rfl⟩
    · exact ⟨inner, hp, rfl⟩
    · obtain ⟨x, hx, rfl⟩ := ih hp hcs
      exact ⟨parens x, hx, toList_text_parens x⟩

/-! ## Written formulas -/

lemma Proper.infix_value (hp : p.Proper) : p.value.Infix := by
  induction p with
  | name n => exact .name () hp.1 hp.2
  | operation n left right ihleft ihright =>
    obtain ⟨hn, -, -, hl, hr⟩ := hp
    exact .operation () () hn (ihleft hl) (ihright hr)
  | parens inner ih => exact ih hp

/-- What is written of a formula has as few parentheses as every proper phrase for it that suits
the same place. -/
lemma Proper.count_le (hp : p.Proper) (hb : p.Suits b) :
    ((formula p.value 0).within b).toList.count '(' ≤ p.text.toList.count '(' := by
  induction p generalizing b with
  | name n =>
    have hformula : (formula (value (name n)) 0).within b = n := by
      rw [value, formula, shape, name_eq_self hp.1 hp.2]
      exact within_of_suits hb
    rw [hformula]
    exact Nat.le_refl _
  | operation n left right ihleft ihright =>
    obtain ⟨hn, hleft, hright, hl, hr⟩ := hp
    have hwithin : (formula (operation n left right).value 0).within b =
        (Layout.operation n (formula left.value 0) (formula right.value 0)).text := by
      rw [value, formula_operation hn hl.infix_value.isZero_eq]
      exact if_neg (Nat.not_lt.mpr hb)
    have hcountleft := ihleft hl hleft
    have hcountright := ihright hr hright
    rw [hwithin, toList_operation, toList_text_operation]
    simp only [List.cons_append, List.append_assoc, List.nil_append, List.count_append,
      List.count_cons]
    omega
  | parens inner ih =>
    have hinner := ih (b := .multiline) hp (Nat.zero_le _)
    rw [within_multiline] at hinner
    -- the parentheses are written as well, or they are not needed
    rw [toList_text_parens, value, Fragment.within]
    split
    · rw [toList_parenthesized]
      simp only [List.cons_append, List.count_cons_self, List.count_append]
      omega
    · simp only [List.cons_append, List.count_cons_self, List.count_append]
      omega

/-- In every place a proper phrase is one that suits the place, in parentheses if it has to be. -/
lemma Proper.exists_within (hp : p.Proper) (required : Binding) : ∃ q : Phrase,
    q.Proper ∧ q.Suits required ∧ q.text = p.fragment.within required ∧ q.value = p.value := by
  by_cases h : p.fragment.binding.tightness < required.tightness
  · refine ⟨parens p, hp, suits_of_atomic rfl required, ?_, rfl⟩
    rw [Fragment.within, if_pos h]
    simp [text, fragment, toString]
  · have hsuits : p.Suits required := Nat.not_lt.mp h
    exact ⟨p, hp, hsuits, (within_of_suits hsuits).symm, rfl⟩

end Phrase

/-- A formula of names and operators is written as a proper phrase that stands for it. -/
lemma exists_phrase {f : Formula ε δ σ} (hf : f.Infix) :
    ∃ p : Phrase, p.Proper ∧ p.fragment = formula f 0 ∧ p.value = f.bare := by
  induction hf with
  | @name note n hbare hfree =>
    refine ⟨.name n, ⟨hbare, hfree⟩, ?_, ?_⟩
    · rw [formula, shape, name_eq_self hbare hfree]
      rfl
    · simp [Phrase.value, Formula.bare, Shape.bare]
  | @operation note ν n left right hn hleft _ ihleft ihright =>
    obtain ⟨p, hp, hpf, hpv⟩ := ihleft
    obtain ⟨q, hq, hqf, hqv⟩ := ihright
    obtain ⟨x, hx, hxsuits, hxtext, hxv⟩ := hp.exists_within (.operation (Tier.ofOperator n))
    obtain ⟨y, hy, hysuits, hytext, hyv⟩ := hq.exists_within (rightRequirement (Tier.ofOperator n))
    refine ⟨.operation n x y, ⟨hn, hxsuits, hysuits, hx, hy⟩, ?_, ?_⟩
    · rw [formula_operation hn hleft.isZero_eq, ← hpf, ← hqf, Layout.operation, ← hxtext,
        ← hytext]
      simp [Phrase.fragment, Phrase.text, Phrase.binding, toString]
    · simp [Phrase.value, Formula.bare, Shape.bare, Formula.bares, hxv, hyv, hpv, hqv]

/-- Of all proper phrases for a formula none has fewer parentheses than what is written of it. -/
lemma count_standalone_le {f : Formula ε δ σ} {p : Phrase} (hp : p.Proper) (hv : p.value = f.bare) :
    (standalone f).toList.count '(' ≤ p.text.toList.count '(' := by
  have hcount := hp.count_le (b := .multiline) (Nat.zero_le _)
  rwa [within_multiline, hv, ← (same_bare f).formula_eq] at hcount

/-- As what a definition of `x` stands for, the text is read as the formula. -/
def ReadAs (t : List Char) (f : Formula.Bare) : Prop :=
  ∃ p, DefinitionSet.ofText ("x = ".toList ++ t) = .ok p ∧
    p.bare = .node () [.node () "x" (some f)] []

lemma Phrase.Proper.readAs {p : Phrase} (hp : p.Proper) : ReadAs p.text.toList p.value := by
  have hread := (hp.means 0).exists_ofText "x"
  have hname : Layout.name "x" = "x" := name_eq_self (by decide) (by decide)
  rw [hname, String.toList_append, String.toList_append, List.append_assoc] at hread
  exact hread

end Layout

namespace Store

open Layout Text Word

/-- What is written of a formula of names and operators is read as that formula, and without any
matching pair of its parentheses it is read as another one. -/
theorem parentheses_needed {s : Store} {key : FormulaKey} {v : FormulaView}
    (hview : s.viewFormula .whole key = .ok v) (hv : v.Infix) :
    ∃ text, s.writeFormula key = .ok text ∧ ReadAs text.toList v.bare ∧
      ∀ t, DropsPair text.toList t → ∃ f, ReadAs t f ∧ f ≠ v.bare := by
  obtain ⟨p, hp, hfragment, hvalue⟩ := exists_phrase hv
  have htext : p.text = standalone v := congrArg Fragment.text hfragment
  refine ⟨standalone v, writeFormula_eq hview, ?_, fun t hdrops => ?_⟩
  · rw [← htext, ← hvalue]
    exact hp.readAs
  · have hcount := hdrops.count_eq
    rw [← htext] at hdrops
    obtain ⟨q, hq, rfl⟩ := hp.exists_of_dropsPair hdrops
    refine ⟨q.value, hq.readAs, fun heq => ?_⟩
    have hle := count_standalone_le hq heq
    omega

/-- A sum as the left operand of a product. -/
theorem parentheses_needed_of_sum :
    let s := afterAll [.addFormula (.name "a"), .addFormula (.name "b"), .addFormula (.name "+"),
      .addFormula (.call ⟨3, 1⟩ [⟨1, 1⟩, ⟨2, 1⟩]), .addFormula (.name "c"),
      .addFormula (.name "*"), .addFormula (.call ⟨6, 1⟩ [⟨4, 1⟩, ⟨5, 1⟩])]
    ∃ v, s.viewFormula .whole ⟨7, 1⟩ = .ok v ∧ v.Infix ∧
      s.writeFormula ⟨7, 1⟩ = .ok "(a + b) * c" ∧ ReadAs "(a + b) * c".toList v.bare ∧
      DropsPair "(a + b) * c".toList "a + b * c".toList ∧
      ∃ f, ReadAs "a + b * c".toList f ∧ f ≠ v.bare := by
  intro s
  let v : FormulaView := .node ⟨7, 1⟩ (.call (.node ⟨6, 1⟩ (.name "*"))
    [.node ⟨4, 1⟩ (.call (.node ⟨3, 1⟩ (.name "+"))
      [.node ⟨1, 1⟩ (.name "a"), .node ⟨2, 1⟩ (.name "b")]), .node ⟨5, 1⟩ (.name "c")])
  have hview : s.viewFormula .whole ⟨7, 1⟩ = .ok v := rfl
  have hleaf (k : FormulaKey) {n : String} (hn : n ∈ ["a", "b", "c"]) :
      (Formula.node k (.name n) : FormulaView).Infix := by
    have hall : ∀ n ∈ ["a", "b", "c"], isBareName n = true ∧ isReserved n = false := by
      decide +kernel
    exact .name k (hall n hn).1 (hall n hn).2
  have hv : v.Infix := .operation _ _ (by decide)
    (.operation _ _ (by decide) (hleaf _ (by simp)) (hleaf _ (by simp))) (hleaf _ (by simp))
  have hdrops : DropsPair "(a + b) * c".toList "a + b * c".toList := by
    refine ⟨[], "a + b".toList, " * c".toList, Plain.balanced ?_, by decide, by decide⟩
    exact List.all_iff_forall_prop.mp (by decide)
  have hwrite : s.writeFormula ⟨7, 1⟩ = .ok "(a + b) * c" := by
    rw [writeFormula_eq hview]
    decide +kernel
  obtain ⟨text, htext, hread, hneeded⟩ := parentheses_needed hview hv
  obtain rfl := Except.ok.inj (hwrite.symm.trans htext)
  exact ⟨v, hview, hv, hwrite, hread, hdrops, hneeded _ hdrops⟩

end Store

end Formulary
