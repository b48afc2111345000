/-
# Accepting chains

Operands with operators between them are accepted as a flat chain, and what the chain is folded
to is the operation whose links it has, if that operation is grouped as its operators demand.
-/
import Formulary.Proofs.Grammar.Operands
import Formulary.Proofs.Operator.Folding

namespace Formulary

open Text

/-- How bare formulas are put together. -/
def Formula.bareJoining : Joining Formula.Bare :=
  ⟨fun symbol left right => .node () (.call (.node () (.name symbol.value)) [left, right]),
    fun _ => {}⟩

/-- A formula and the same without its notes. -/
def Formula.Shows (f : Formula.Placed) (g : Formula.Bare) : Prop := f.bare = g

lemma Operation.Alike.value_bare {x : Operation Formula.Placed} {y : Operation Formula.Bare}
    (h : Operation.Alike Formula.Shows Operation.SameSymbol x y) :
    (x.value Formula.joining).bare = y.value Formula.bareJoining := by
  induction h with
  | operand h => exact h
  | apply hs _ _ ihl ihr =>
    show (Formula.operation _ _ _).bare = _
    rw [Formula.operation, Formula.bare, Shape.bare, Formula.bare, Shape.bare, Formula.bares,
      Formula.bares, Formula.bares, ihl, ihr, hs]
    rfl

end Formulary

namespace Formulary.Grammar

open Text Word Parsing Token

variable {ts us k : List Token} {f : Formula.Bare} {s : String} {ls ms : List (Link Formula.Bare)}
  {x : Operation Formula.Bare}

/-- Operands with operators between them. -/
inductive AreLinks : List Token → List (Link Formula.Bare) → Prop
  | single {ts : List Token} {f : Formula.Bare} (h : IsOperand ts f) : AreLinks ts [.operand f]
  | cons {ts us : List Token} {f : Formula.Bare} {s : String} {ls : List (Link Formula.Bare)}
      (h : IsOperand ts f) (hs : Word.isOperator s = true) (rest : AreLinks us ls) :
      AreLinks (ts ++ Token.space :: operator s :: Token.space :: us)
        (.operand f :: .operator ⟨s, {}⟩ :: ls)

lemma AreLinks.append (h : AreLinks ts ls) (hs : Word.isOperator s = true) (h' : AreLinks us ms) :
    AreLinks (ts ++ Token.space :: operator s :: Token.space :: us)
      (ls ++ .operator ⟨s, {}⟩ :: ms) := by
  induction h with
  | single h => exact .cons h hs h'
  | cons h hs' _ ih =>
    have hcons := AreLinks.cons h hs' ih
    simpa using hcons

lemma AreLinks.begins (h : AreLinks ts ls) : Begins ts := by
  cases h with
  | single h => exact h.begins
  | cons h _ _ => exact h.begins.append _

lemma AreLinks.otherwise_ne (h : AreLinks ts ls) : ts.head? ≠ some (ident "otherwise" false) := by
  cases h with
  | single h => exact h.otherwise_ne
  | cons h _ _ =>
    rw [h.begins.head?_append]
    exact h.otherwise_ne

lemma noArguments_operator : NoArguments (Token.space :: operator s :: us) := fun _ h => by cases h

lemma noArrow_operator (hs : Word.isOperator s = true) :
    NoArrow (Token.space :: operator s :: us) := by
  intro hhead
  cases hhead
  revert hs
  decide

/-- A chain does not look like a closure. -/
lemma AreLinks.rejects_closure (h : AreLinks ts ls) (hk : NoArrow k) :
    Rejects (Ahead (ts ++ k)) (closure formula) := by
  cases h with
  | single h => exact h.noClosure hk
  | @cons ts us f s ls h hs _ =>
    have hclosure := h.noClosure (@noArrow_operator (Token.space :: us ++ k) s hs)
    simpa using hclosure

lemma accepts_operation (hs : Word.isOperator s = true) (h : IsOperand ts f) (hk : NoArguments k) :
    Accepts (Ahead (Token.space :: operator s :: Token.space :: (ts ++ k))) (operation formula)
      fun ls r i => List.Forall₂ (Operation.Matches Formula.Shows Operation.SameSymbol) ls
        [.operator ⟨s, {}⟩, .operand f] ∧ Ahead k r i := by
  refine accepts_bind (accepts_space _) fun _ => ?_
  refine accepts_bind (accepts_infixOperator hs) fun o => accepts_and fun ho => ?_
  have hgap := accepts_gap (Token.space :: (ts ++ k))
  have hdrop : (Token.space :: (ts ++ k)).dropWhile isGap = ts ++ k :=
    (h.begins.append k).dropWhile_isGap
  rw [hdrop] at hgap
  refine accepts_bind hgap fun _ => accepts_bind (h.takes hk) fun a => accepts_and fun ha => ?_
  refine accepts_pure fun r i hr => ⟨?_, hr⟩
  exact .cons (.operator ho) (.cons (.operand ha) .nil)

/-- Operators with their right operands are accepted one after the other. -/
lemma AreLinks.accepts_operations (h : AreLinks us ls) (hs : Word.isOperator s = true)
    (hk : EndsChain k) :
    Accepts (Ahead (Token.space :: operator s :: Token.space :: (us ++ k)))
      (many (operation formula)) fun as r i =>
        List.Forall₂ (Operation.Matches Formula.Shows Operation.SameSymbol) as.flatten
          (.operator ⟨s, {}⟩ :: ls) ∧ Ahead k r i := by
  have hless {t t' t'' : Token} {us k : List Token} {P : List (Link Formula.Placed) → Prop}
      (a : List (Link Formula.Placed)) (r i r' i') (hr : Ahead (t :: t' :: t'' :: (us ++ k)) r i)
      (hr' : P a ∧ Ahead k r' i') : r'.length < r.length :=
    have hlong : Ahead ((t :: t' :: t'' :: us) ++ k) r i := hr
    length_lt_of_ahead (by simp) hlong hr'.2
  induction h generalizing s with
  | single h =>
    refine (accepts_many_cons (accepts_operation hs h hk.noArguments) hless fun a =>
      accepts_and fun ha => (accepts_many_nil hk.noOperator.rejects).mono
        fun as r i hr => And.intro (And.intro ha hr.1) hr.2).mono ?_
    rintro _ r i ⟨a, as, rfl, ⟨ha, rfl⟩, hr⟩
    rw [List.flatten_cons, List.flatten_nil, List.append_nil]
    exact ⟨ha, hr⟩
  | @cons ts us f s' ls h hs' hrest ih =>
    have hfirst := accepts_operation hs h
      (@noArguments_operator (Token.space :: (us ++ k)) s')
    rw [List.append_assoc]
    refine (accepts_many_cons hfirst hless fun a => accepts_and fun ha =>
      (ih hs').mono fun as r i hr => And.intro (And.intro ha hr.1) hr.2).mono ?_
    rintro _ r i ⟨a, as, rfl, ⟨ha, has⟩, hr⟩
    rw [List.flatten_cons]
    exact ⟨List.rel_append ha has, hr⟩

/-- A chain begins with an operand, after which any further ones are accepted. -/
lemma AreLinks.exists_first (h : AreLinks ts ls) (hk : EndsChain k) :
    ∃ ts₁ us f ms, ts = ts₁ ++ us ∧ ls = .operand f :: ms ∧ IsOperand ts₁ f ∧
      NoArguments (us ++ k) ∧ Accepts (Ahead (us ++ k)) (many (operation formula)) fun as r i =>
        List.Forall₂ (Operation.Matches Formula.Shows Operation.SameSymbol) as.flatten ms ∧
          Ahead k r i := by
  cases h with
  | @single ts f h =>
    refine ⟨ts, [], f, [], (List.append_nil ts).symm, rfl, h, hk.noArguments, ?_⟩
    refine (accepts_many_nil hk.noOperator.rejects).mono ?_
    rintro as r i ⟨rfl, hr⟩
    exact ⟨.nil, hr⟩
  | @cons ts us f s ls h hs hrest =>
    exact ⟨ts, Token.space :: operator s :: Token.space :: us, f, .operator ⟨s, {}⟩ :: ls, rfl, rfl,
      h, noArguments_operator, hrest.accepts_operations hs hk⟩

/-- A chain is folded to the operation that it has the links of. -/
lemma AreLinks.accepts_chain (h : AreLinks ts x.links) (hx : x.Grouped) :
    Takes (chain formula) EndsChain ts fun a => a.bare = x.value Formula.bareJoining := by
  intro k hk
  obtain ⟨ts, us, f, ms, rfl, hlinks, hfirst, harguments, hmany⟩ := h.exists_first hk
  have hfold (a : Formula.Placed) (as : List (Link Formula.Placed)) (ha : a.bare = f)
      (has : List.Forall₂ (Operation.Matches Formula.Shows Operation.SameSymbol) as ms) :
      ∃ b, Formula.joining.fold (.operand a :: as) = .ok b ∧
        b.bare = x.value Formula.bareJoining := by
    have hall : List.Forall₂ (Operation.Matches Formula.Shows Operation.SameSymbol)
        (.operand a :: as) x.links := by
      rw [hlinks]
      exact .cons (.operand ha) has
    obtain ⟨y, hy, hyx⟩ := Operation.exists_alike hall
    refine ⟨y.value Formula.joining, ?_, hyx.value_bare⟩
    rw [← hy]
    exact Operation.fold_links (hyx.grouped (fun _ _ => id) hx)
  rw [List.append_assoc]
  refine accepts_bind (hfirst.takes harguments) fun a => accepts_and fun ha =>
    accepts_bind hmany fun as => accepts_and fun has => ?_
  obtain ⟨b, hb, hbare⟩ := hfold a as.flatten ha has
  cases as with
  | nil =>
    -- a single operand is not folded, but folding would not change it
    have hab : a = b := by
      cases hb
      rfl
    exact accepts_pure fun r i hr => ⟨hab ▸ hbare, hr⟩
  | cons l as =>
    show Accepts _ (chain.liftExcept (Formula.joining.fold (.operand a :: (l :: as).flatten))) _
    rw [hb]
    exact accepts_pure fun r i hr => ⟨hbare, hr⟩

/-- A chain is a formula, also in front of a `where`. -/
lemma AreLinks.takes (h : AreLinks ts x.links) (hx : x.Grouped) :
    Takes formula EndsChain ts fun a => a.bare = x.value Formula.bareJoining := by
  intro k hk
  rw [formula_eq]
  exact accepts_choice_of_rejects (h.rejects_closure hk.noArrow)
    (accepts_choice_cons (h.accepts_chain hx hk))

lemma AreLinks.isFormula (h : AreLinks ts x.links) (hx : x.Grouped) :
    IsFormula ts (x.value Formula.bareJoining) :=
  ⟨h.begins, h.otherwise_ne, fun _ hk => h.takes hx hk.toEndsChain⟩

end Formulary.Grammar
