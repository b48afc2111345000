/-
# Accepting operands

What may follow a formula decides where it ends: an argument list, an operator, an arrow or a
`where` would go on with it.  An operand is accepted up to where no argument list follows, and
neither its first token nor the tokens after it make it look like a closure.
-/
import Formulary.Proofs.Formula.Bare
import Formulary.Proofs.Grammar.Recursion
import Formulary.Proofs.Grammar.Tokens

namespace Formulary.Grammar

open Text Word Parsing Token

variable {α : Type} {t : Token} {ts us k : List Token} {f g : Formula.Bare}

/-! ## What may follow -/

/-- No argument list follows. -/
def NoArguments (k : List Token) : Prop :=
  ∀ us, (k.dropWhile isSpace).head? ≠ some (grouped .parens us)

/-- No operator follows that can stand between operands. -/
def NoOperator (k : List Token) : Prop :=
  ∀ s, (k.dropWhile isSpace).head? = some (operator s) → Word.isOperator s = false

/-- No arrow follows, not even on another line. -/
def NoArrow (k : List Token) : Prop := (k.dropWhile isGap).head? ≠ some (operator arrow)

/-- No `where` follows. -/
def NoWhere (k : List Token) : Prop := (k.dropWhile isSpace).head? ≠ some (ident "where" false)

/-- A chain of operands ends in front of these tokens. -/
structure EndsChain (k : List Token) : Prop where
  noArguments : NoArguments k
  noOperator : NoOperator k
  noArrow : NoArrow k

/-- A formula ends in front of these tokens. -/
structure EndsFormula (k : List Token) : Prop extends EndsChain k where
  noWhere : NoWhere k

lemma NoArguments.rejects (h : NoArguments k) : Rejects (Ahead k)
    (do Grammar.space; arguments formula : Parser Token (List Formula.Placed)) :=
  rejects_bind (accepts_space k) fun _ => rejects_bind_left (rejects_parens h)

lemma NoOperator.rejects (h : NoOperator k) : Rejects (Ahead k) (operation formula) :=
  rejects_bind (accepts_space k) fun _ => rejects_bind_left (rejects_infixOperator h)

lemma NoWhere.rejects (h : NoWhere k) : Rejects (Ahead k) (whereClause formula) :=
  rejects_bind (accepts_space k) fun _ => rejects_bind_left (rejects_word h)

/-! ## Literals -/

/-- Whether a token is a literal by itself. -/
def isLiteral : Token → Bool
  | .null | .bool _ | .number _ _ | .text _ => true
  | _ => false

lemma literalShape?_eq_none {token : Located Token} (h : isLiteral token.value.bare = false) :
    literalShape? token = none := by
  obtain ⟨token, span⟩ := token
  cases token <;> simp [bare, isLiteral] at h <;> rfl

lemma rejects_literal_token (h : ∀ t ∈ ts.head?, isLiteral t = false) :
    Rejects (Ahead ts) Grammar.literal := by
  intro c hc
  cases hrest : c.rest with
  | nil =>
    refine ⟨Failure.endOfInput c.span, c, ?_, rfl⟩
    show EStateM.bind peek _ c = _
    rw [EStateM.bind, peek, hrest]
  | cons item rest =>
    have hhead : ts.head? = some item.value.bare := by
      rw [← hc.1, hrest, bares_cons]
      rfl
    have hnone := literalShape?_eq_none (h _ hhead)
    have hpeek : Accepts (fun r _ => r = item :: rest) (peek : Parser Token _) fun a r _ =>
        a = item ∧ r = item :: rest := by
      rintro d ⟨hd, hcalm⟩
      exact ⟨item, d, by rw [peek, hd], ⟨⟨rfl, hd⟩, hcalm⟩⟩
    refine rejects_bind hpeek (fun a => rejects_and fun ha => ?_) ⟨hrest, hc.2⟩
    rw [ha, hnone]
    exact rejects_expected _

/-- A literal is accepted as the formula that its token stands for. -/
lemma accepts_literal_token {shape : Shape Formula.Placed DefinitionSet.Placed}
    (h : ∀ item : Located Token, item.value.bare = t → literalShape? item = some (.ok shape)) :
    Accepts (Ahead (t :: k)) Grammar.literal fun a r i =>
      a.bare = .node () (Shape.bare shape) ∧ Ahead k r i := by
  intro c hc
  obtain ⟨item, rest, hrest, hitem, hk⟩ := bares_eq_cons hc.1
  refine ⟨.node item.span shape, c.pass item rest, ?_, Cursor.Meets.pass ⟨?_, hk⟩⟩
  · show EStateM.bind peek _ c = _
    rw [EStateM.bind, peek, hrest]
    dsimp only
    rw [h item hitem]
    show EStateM.bind next _ c = _
    rw [EStateM.bind, next, hrest]
    rfl
  · rw [Formula.bare]

/-! ## Rules that do not apply -/

lemma rejects_switch (h : ts.head? ≠ some (ident "switch" false)) :
    Rejects (Ahead ts) (switch formula) :=
  rejects_get fun _ _ => rejects_bind_left (rejects_word h)

lemma rejects_parenthesized (h : ∀ us, ts.head? ≠ some (grouped .parens us)) :
    Rejects (Ahead ts) (parenthesized formula) :=
  rejects_bind_left (rejects_parens h)

lemma rejects_reference
    (h : ∀ n raw, ts.head? = some (ident n raw) → raw = false ∧ isReserved n = true) :
    Rejects (Ahead ts) reference :=
  rejects_get fun _ _ => rejects_bind_left (rejects_name h)

lemma rejects_call
    (hname : ∀ n raw, ts.head? = some (ident n raw) → raw = false ∧ isReserved n = true)
    (hparens : ∀ us, ts.head? ≠ some (grouped .parens us)) :
    Rejects (Ahead ts) (call formula) := by
  refine rejects_get fun _ _ => rejects_bind_left (rejects_choice (forall_mem_pair ?_ ?_))
  · exact rejects_reference hname
  · exact rejects_parenthesized hparens

lemma rejects_list (h : ∀ us, ts.head? ≠ some (grouped .brackets us)) :
    Rejects (Ahead ts) (list formula) := by
  refine rejects_get fun _ _ => rejects_bind_left (rejects_groupOf fun kind us hhead => ?_)
  cases kind with
  | brackets => exact absurd hhead (h us)
  | _ => rfl

lemma rejects_parameters
    (hname : ∀ n raw, ts.head? = some (ident n raw) → raw = false ∧ isReserved n = true)
    (hparens : ∀ us, ts.head? ≠ some (grouped .parens us)) :
    Rejects (Ahead ts) parameters := by
  refine rejects_choice (forall_mem_pair ?_ ?_)
  · exact rejects_bind_left (rejects_name hname)
  · exact rejects_bind_left (rejects_parens hparens)

lemma rejects_closure_of_parameters (h : Rejects (Ahead ts) parameters) :
    Rejects (Ahead ts) (closure formula) :=
  rejects_get fun _ _ => rejects_bind_left h

/-- After what may be parameters there has to be an arrow. -/
lemma rejects_closure_of_noArrow (h : Attempts (Ahead ts) parameters fun _ => Ahead k)
    (hk : NoArrow k) : Rejects (Ahead ts) (closure formula) := by
  refine rejects_get fun _ _ => rejects_bind_of_attempts h fun _ => ?_
  exact rejects_bind (accepts_gap k) fun _ => rejects_bind_left (rejects_symbol hk)

lemma mild_name : Mild name := by
  intro c hc
  unfold name
  split
  · split
    · exact .inr ⟨_, c, rfl, rfl⟩
    · exact .inl ⟨_, _, rfl, fun f hf => by cases hf⟩
  · exact .inr ⟨_, c, rfl, rfl⟩

lemma mild_gap : Mild gap := mild_bind (mild_many (mild_satisfying _ _)) fun _ => mild_pure _

lemma mild_commaList_name : Mild (commaList name) := by
  have hcomma : Mild comma :=
    mild_bind mild_gap fun _ => mild_bind (mild_satisfying _ _) fun _ => mild_gap
  refine mild_bind mild_gap fun _ => mild_bind (mild_collect ?_) fun _ =>
    mild_bind mild_gap fun _ => mild_pure _
  refine mild_bind (mild_optional mild_name) ?_
  rintro (_ | n)
  · exact mild_pure _
  · exact mild_bind (mild_optional hcomma) fun _ => mild_pure _

/-- A name may be a parameter. -/
lemma attempts_parameters_name {n : String} {raw : Bool} (h : raw = true ∨ isReserved n = false) :
    Attempts (Ahead (ident n raw :: k)) parameters fun _ => Ahead k := by
  have haccepts : Accepts (Ahead (ident n raw :: k)) parameters fun _ => Ahead k :=
    accepts_choice_cons (accepts_bind (accepts_name h) fun _ => accepts_pure fun _ _ hr => hr.2)
  exact haccepts.attempts

/-- A group in parentheses may be a list of parameters. -/
lemma attempts_parameters_group (us k : List Token) :
    Attempts (Ahead (grouped .parens us :: k)) parameters fun _ => Ahead k := by
  refine attempts_choice (forall_mem_pair ?_ ?_)
  · refine (rejects_bind_left (rejects_name ?_)).attempts
    intro n raw hhead
    cases hhead
  · refine attempts_bind accepts_parens fun inner c hc => ?_
    exact attempts_within mild_commaList_name hc.1.1.2 (hc.mono fun _ _ h => h.2)

/-! ## Formulas and operands -/

/-- Whether a row may begin with a token: it is neither white space nor a comma nor an arrow. -/
def leads : Token → Bool
  | .space | .lineBreak | .comma => false
  | .operator s => s != arrow
  | _ => true

/-- The tokens begin with one that a formula may begin with. -/
def Begins (ts : List Token) : Prop := ∃ t us, ts = t :: us ∧ leads t = true

lemma begins_cons (h : leads t = true) : Begins (t :: ts) := ⟨t, ts, rfl, h⟩

lemma Begins.append (h : Begins ts) (k : List Token) : Begins (ts ++ k) := by
  obtain ⟨t, us, rfl, ht⟩ := h
  exact begins_cons ht

lemma Begins.ne_nil (h : Begins ts) : ts ≠ [] := by
  obtain ⟨t, us, rfl, -⟩ := h
  simp

lemma Begins.head?_append (h : Begins ts) (k : List Token) : (ts ++ k).head? = ts.head? := by
  obtain ⟨t, us, rfl, -⟩ := h
  rfl

lemma Begins.dropWhile_isGap (h : Begins ts) : ts.dropWhile isGap = ts := by
  obtain ⟨t, us, rfl, ht⟩ := h
  have hgap : isGap t = false := by cases t <;> first | rfl | cases ht
  rw [List.dropWhile_cons, hgap, if_neg Bool.false_ne_true]

lemma Begins.noArrow (h : Begins ts) : NoArrow ts := by
  rw [NoArrow, h.dropWhile_isGap]
  obtain ⟨t, us, rfl, ht⟩ := h
  intro hhead
  cases hhead
  cases ht

/-- The tokens are accepted as the formula. -/
structure IsFormula (ts : List Token) (f : Formula.Bare) : Prop where
  begins : Begins ts
  otherwise_ne : ts.head? ≠ some (ident "otherwise" false)
  takes : Takes formula EndsFormula ts fun a => a.bare = f

/-- The tokens are accepted as an operand. -/
structure IsOperand (ts : List Token) (f : Formula.Bare) : Prop where
  begins : Begins ts
  otherwise_ne : ts.head? ≠ some (ident "otherwise" false)
  noClosure : ∀ ⦃k⦄, NoArrow k → Rejects (Ahead (ts ++ k)) (closure formula)
  takes : Takes (operand formula) NoArguments ts fun a => a.bare = f

/-- The tokens are accepted as an operand without a minus in front of it. -/
structure IsPrimary (ts : List Token) (f : Formula.Bare) : Prop where
  begins : Begins ts
  otherwise_ne : ts.head? ≠ some (ident "otherwise" false)
  minus_ne : ts.head? ≠ some (operator "-")
  noClosure : ∀ ⦃k⦄, NoArrow k → Rejects (Ahead (ts ++ k)) (closure formula)
  takes : Takes (primary formula) NoArguments ts fun a => a.bare = f

lemma IsPrimary.isOperand (h : IsPrimary ts f) : IsOperand ts f := by
  refine ⟨h.begins, h.otherwise_ne, h.noClosure, fun k hk => ?_⟩
  have hminus : Rejects (Ahead (ts ++ k)) (negation formula) :=
    rejects_bind_left (rejects_symbol (by rw [h.begins.head?_append]; exact h.minus_ne))
  exact accepts_choice_of_rejects hminus (accepts_choice_cons (h.takes hk))

/-- A minus in front of an operand subtracts it from zero. -/
lemma IsPrimary.negation (h : IsPrimary ts f) : IsOperand (operator "-" :: ts)
    (.node () (.call (.node () (.name "-")) [.node () (.number Binary64.zero), f])) := by
  refine ⟨begins_cons rfl, by simp, fun k _ => ?_, fun k hk => ?_⟩
  · refine rejects_closure_of_parameters (rejects_parameters ?_ ?_)
    · intro n raw hhead
      cases hhead
    · intro us hhead
      cases hhead
  · refine accepts_choice_cons (accepts_bind (accepts_satisfying_token (placeless_isOperator "-")
      (by simp [Token.isOperator])) fun minus => accepts_and fun _ => ?_)
    refine accepts_bind (h.takes hk) fun a => accepts_and fun ha => accepts_pure fun r i hr => ?_
    refine ⟨?_, hr⟩
    rw [Formula.negation, Formula.operation]
    simp only [Formula.bare, Shape.bare, Formula.bares, ha]

end Formulary.Grammar
