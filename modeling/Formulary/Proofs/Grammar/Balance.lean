/-
# The rules of the grammar lose nothing

What a formula holds is what the tokens hold that it was read from, and the same goes for
definitions and programs.
-/
import Mathlib.Algebra.BigOperators.Group.List.Basic
import Formulary.Proofs.Grammar.Accounts
import Formulary.Proofs.Grammar.Recursion

namespace Formulary

open Text Word Parsing Token

/-- The formula is not a number without extent. -/
def Formula.Solid : Formula.Placed → Prop
  | .node span (.number _) => span.isEmpty = false
  | _ => True

/-- What formulas hold together. -/
def Formula.held (fs : List Formula.Placed) : Multiset Mark :=
  (fs.map fun f => (f.marks : Multiset Mark)).sum

/-! ## What is put together -/

@[simp] lemma Formula.held_nil : Formula.held [] = 0 := rfl

@[simp] lemma Formula.held_cons (f : Formula.Placed) (fs : List Formula.Placed) :
    Formula.held (f :: fs) = f.marks + Formula.held fs := rfl

lemma Formula.coe_listMarks (fs : List Formula.Placed) :
    (Formula.listMarks fs : Multiset Mark) = Formula.held fs := by
  induction fs with
  | nil => rw [Formula.listMarks, held_nil, Multiset.coe_nil]
  | cons f fs ih => rw [Formula.listMarks, ← Multiset.coe_add, ih, held_cons]

lemma Case.coe_listMarks (cs : List (Case Formula.Placed)) :
    (Case.listMarks cs : Multiset Mark) = (cs.map fun c => Formula.held c.parts).sum := by
  induction cs with
  | nil => rw [Case.listMarks, List.map_nil, List.sum_nil, Multiset.coe_nil]
  | cons c cs ih =>
    rw [List.map_cons, List.sum_cons]
    cases c with
    | when condition value =>
      rw [Case.listMarks, ← Multiset.coe_add, ← Multiset.coe_add, ih]
      simp [Case.parts]
    | otherwise value =>
      rw [Case.listMarks, ← Multiset.coe_add, ih]
      simp [Case.parts]

/-- What a definition holds. -/
def Definition.held (d : Definition.Placed) : Multiset Mark := Definition.listMarks [d]

lemma Definition.held_node (span : Span) (n : String) (f : Formula.Placed) :
    Definition.held (.node span n (some f)) = {Mark.name n} + (f.marks : Multiset Mark) := by
  simp [Definition.held, Definition.listMarks]

lemma Definition.coe_listMarks (ds : List Definition.Placed) :
    (Definition.listMarks ds : Multiset Mark) = (ds.map Definition.held).sum := by
  induction ds with
  | nil => rw [Definition.listMarks, List.map_nil, List.sum_nil, Multiset.coe_nil]
  | cons d ds ih =>
    rw [List.map_cons, List.sum_cons, ← ih, Definition.held]
    obtain ⟨span, n, _ | value⟩ := d <;> simp [Definition.listMarks]

lemma DefinitionSet.coe_marks (ds : List Definition.Placed) :
    ((DefinitionSet.ofDefinitions ds).marks : Multiset Mark) = (ds.map Definition.held).sum := by
  rw [DefinitionSet.ofDefinitions, DefinitionSet.marks, Formula.listMarks, List.append_nil,
    Definition.coe_listMarks]

lemma Formula.marks_of_matrix? {f : Formula.Placed} (h : f.Solid) {m : Matrix}
    (hm : f.matrix? = some m) : f.marks = m.scalars.map fun m => .literal (some m) := by
  obtain ⟨span, shape⟩ := f
  cases shape with
  | number value =>
    cases hm
    have hspan : span.isEmpty = false := h
    simp [Formula.marks, Shape.marks, hspan, Matrix.scalars]
  | null =>
    cases hm
    simp [Formula.marks, Shape.marks, Matrix.scalars]
  | bool value =>
    cases hm
    simp [Formula.marks, Shape.marks, Matrix.scalars]
  | text value =>
    cases hm
    simp [Formula.marks, Shape.marks, Matrix.scalars]
  | matrix value =>
    cases hm
    rw [Formula.marks, Shape.marks]
  | _ => cases hm

/-- Writing a list out in full loses nothing of it. -/
lemma Formula.listMarks_of_mapM {items : List Formula.Placed} (h : ∀ f ∈ items, f.Solid)
    {entries : List Matrix} (hm : items.mapM Formula.matrix? = some entries) :
    Formula.listMarks items = (Matrix.scalarsOf entries).map fun m => .literal (some m) := by
  induction items generalizing entries with
  | nil =>
    rw [List.mapM_nil] at hm
    cases hm
    rw [Formula.listMarks, Matrix.scalarsOf, List.map_nil]
  | cons f items ih =>
    rw [List.forall_mem_cons] at h
    rw [List.mapM_cons] at hm
    obtain ⟨m, hf, hrest⟩ := Option.bind_eq_some_iff.mp hm
    obtain ⟨ms, hms, heq⟩ := Option.bind_eq_some_iff.mp hrest
    cases heq
    rw [Formula.listMarks, Matrix.scalarsOf, List.map_append, ih h.2 hms,
      Formula.marks_of_matrix? h.1 hf]

lemma Formula.marks_ofItems {items : List Formula.Placed} (h : ∀ f ∈ items, f.Solid) (span : Span) :
    (Formula.ofItems span items).marks = Formula.listMarks items := by
  unfold Formula.ofItems
  cases hm : items.mapM Formula.matrix? with
  | some entries =>
    dsimp only
    rw [Formula.marks, Shape.marks, Matrix.scalars, Formula.listMarks_of_mapM h hm]
  | none =>
    dsimp only
    rw [Formula.marks, Shape.marks]

lemma Formula.solid_ofItems (span : Span) (items : List Formula.Placed) :
    (Formula.ofItems span items).Solid := by
  unfold Formula.ofItems
  split <;> trivial

lemma Formula.coe_marks_call (span : Span) (callee : Formula.Placed) (args : List Formula.Placed) :
    ((Formula.node span (.call callee args) : Formula.Placed).marks : Multiset Mark) =
      callee.marks + Formula.held args := by
  rw [Formula.marks, Shape.marks, ← Multiset.coe_add, Formula.coe_listMarks]

lemma Formula.coe_marks_operation (s : Located String) (a b : Formula.Placed) :
    ((Formula.operation s a b).marks : Multiset Mark) =
      {Mark.name s.value} + (a.marks + b.marks : Multiset Mark) := by
  rw [Formula.operation, Formula.coe_marks_call]
  simp [Formula.marks, Shape.marks]

lemma Formula.coe_marks_negation (minus : Span) (f : Formula.Placed) :
    ((Formula.negation minus f).marks : Multiset Mark) = {Mark.name "-"} + (f.marks : Multiset Mark) := by
  rw [Formula.negation, Formula.coe_marks_operation]
  simp [Formula.marks, Shape.marks, Span.point, Span.isEmpty]

/-- What a link holds. -/
def Link.held : Link Formula.Placed → Multiset Mark
  | .operand f => f.marks
  | .operator s => {.name s.value}

/-- What a folded chain holds is what its links hold. -/
lemma Operation.coe_marks_value (x : Operation Formula.Placed) :
    ((x.value Formula.joining).marks : Multiset Mark) = (x.links.map Link.held).sum := by
  induction x with
  | operand f => simp [Operation.value, Operation.links, Link.held]
  | apply s left right ihl ihr =>
    rw [Operation.value, Operation.links, List.map_append, List.map_cons, List.sum_append,
      List.sum_cons]
    show ((Formula.operation s _ _).marks : Multiset Mark) = _
    rw [Formula.coe_marks_operation, ihl, ihr, Link.held]
    abel

lemma solid_fold {first : Formula.Placed} (hfirst : first.Solid) {links : List (Link Formula.Placed)}
    {f : Formula.Placed} (h : Formula.joining.fold (.operand first :: links) = .ok f) : f.Solid := by
  obtain ⟨x, -, hlinks, rfl⟩ := Joining.exists_of_fold_eq_ok h
  cases x with
  | operand g =>
    cases hlinks
    exact hfirst
  | apply s left right => trivial

namespace Grammar

/-! ## Tokens -/

lemma accounts_word {w : String} (hw : w ∈ structuralWords) :
    Accounts (word w) 0 (fun _ => 0) fun _ => True := by
  refine (accounts_satisfying (v := fun _ => 0) fun t ht => ?_).mono fun _ _ => trivial
  obtain ⟨token, span⟩ := t
  cases token with
  | ident n raw =>
    obtain ⟨hn, hraw⟩ := Bool.and_eq_true_iff.mp ht
    obtain rfl := beq_iff_eq.mp hn
    have hcontains : structuralWords.contains n = true := List.contains_iff_mem.mpr hw
    exact ⟨nofun, by simp [marks, isArrow, name?, literal?, hraw, hw]⟩
  | _ => cases ht

lemma accounts_symbol (s : String) :
    Accounts (symbol s) 0 (fun _ => marks ⟨.operator s, {}⟩) fun _ => True := by
  refine (accounts_satisfying (v := fun _ => marks ⟨.operator s, {}⟩) fun t ht => ?_).mono
    fun _ _ => trivial
  obtain ⟨token, span⟩ := t
  cases token with
  | operator s' =>
    obtain rfl := beq_iff_eq.mp ht
    exact ⟨nofun, rfl⟩
  | _ => cases ht

/-- White space holds nothing. -/
lemma accounts_blanks {what : String} {holds : Token → Bool}
    (h : ∀ t, holds t = true → t = .space ∨ t = .lineBreak ∨ t = .comma) :
    Accounts (satisfying what holds) 0 (fun _ => 0) fun _ => True := by
  refine (accounts_satisfying (v := fun _ => 0) fun t ht => ?_).mono fun _ _ => trivial
  obtain ⟨token, span⟩ := t
  rcases h token ht with rfl | rfl | rfl <;>
    exact ⟨nofun, by simp [marks, isArrow, name?, literal?]⟩

lemma accounts_manyBlanks {what : String} {holds : Token → Bool}
    (h : ∀ t, holds t = true → t = .space ∨ t = .lineBreak ∨ t = .comma) :
    Accounts (do let _ ← many (satisfying what holds)) 0 (fun _ => 0) fun _ => True := by
  refine accounts_bind (accounts_many (accounts_blanks h)) fun ts _ => accounts_pure ?_ trivial
  rw [List.sum_map_zero, add_zero]

lemma accounts_space : Accounts Grammar.space 0 (fun _ => 0) fun _ => True :=
  accounts_manyBlanks fun t ht => by cases t <;> first | exact .inl rfl | cases ht

lemma accounts_gap : Accounts gap 0 (fun _ => 0) fun _ => True :=
  accounts_manyBlanks fun t ht => by
    cases t <;> first | exact .inl rfl | exact .inr (.inl rfl) | cases ht

lemma accounts_lineBreak : Accounts lineBreak 0 (fun _ => 0) fun _ => True :=
  accounts_skip accounts_space fun _ => accounts_skip (accounts_blanks fun t ht => by
    cases t <;> first | exact .inr (.inl rfl) | cases ht) fun _ => accounts_gap

lemma accounts_comma : Accounts comma 0 (fun _ => 0) fun _ => True :=
  accounts_skip accounts_gap fun _ => accounts_skip (accounts_blanks fun t ht => by
    cases t <;> first | exact .inr (.inr rfl) | cases ht) fun _ => accounts_gap

lemma accounts_groupOf (what : String) (accepts : GroupKind → Bool) :
    Accounts (groupOf what accepts) 0 (fun inner => tally inner.rest) fun _ => True := by
  intro c inner c' _ hrun
  obtain ⟨kind, tokens, span, rest, -, hrest, rfl, rfl⟩ := groupOf_inv hrun
  rw [hrest, tally_group, zero_add]
  exact ⟨rfl, trivial⟩

section

variable {α : Type} {m : Parser Token α} {v : α → Multiset Mark} {Q : α → Prop}

lemma accounts_inGroup {group : Parser Token (Cursor Token)}
    (hgroup : Accounts group 0 (fun inner => tally inner.rest) fun _ => True)
    (hm : Accounts m 0 v Q) : Accounts (do within (← group) m) 0 v Q :=
  accounts_bind hgroup fun inner _ => by
    rw [zero_add]
    exact accounts_within hm

lemma accounts_inBlock (hm : Accounts m 0 v Q) : Accounts (do within (← block) m) 0 v Q :=
  accounts_inGroup (accounts_skip accounts_space fun _ => accounts_groupOf _ _) hm

lemma accounts_commaList (hm : Accounts m 0 v Q) :
    Accounts (commaList m) 0 (fun as => (as.map v).sum) fun as => ∀ a ∈ as, Q a :=
  accounts_skip accounts_gap fun _ => accounts_bind
    (accounts_separated (accounts_optional hm) accounts_comma) fun _ has =>
      accounts_skip accounts_gap fun _ => accounts_pure (zero_add _) has

end

/-! ## Names and literals -/

lemma accounts_name : Accounts name 0 (fun n => {.name n}) fun _ => True := by
  intro c n c' _ hrun
  obtain ⟨raw, span, rest, hrest, hallowed, rfl⟩ := name_inv hrun
  have hname : (!raw && structuralWords.contains n) = false := by
    have hall : ∀ w ∈ structuralWords, isReserved w = true := by decide
    rcases hallowed with rfl | hreserved
    · rfl
    · rw [Bool.eq_false_iff]
      intro h
      have hmem := (Bool.and_eq_true_iff.mp h).2
      rw [hall n (List.contains_iff_mem.mp hmem)] at hreserved
      cases hreserved
  rw [hrest, tally_cons fun _ _ h => by cases h]
  refine ⟨?_, trivial⟩
  simp only [marks, isArrow, Token.name?, hname, literal?]
  simp [Cursor.pass]

/-- A number is the value that its digits stand for. -/
lemma numberMatrix?_eq {span : Span} {whole : String} {fraction : Option String} {x : Binary64}
    (h : numberValue span whole fraction = .ok x) :
    numberMatrix? whole fraction = some (.number x) := by
  rw [numberMatrix?, (numberValue_eq_ok_iff.mp h).1]
  rfl

/-- A group is no literal. -/
lemma not_group_of_literalShape? {t : Located Token}
    {result : Except Failure (Shape Formula.Placed DefinitionSet.Placed)}
    (h : literalShape? t = some result) : ∀ kind tokens, t.value ≠ .group kind tokens := by
  intro kind tokens heq
  rw [literalShape?, heq] at h
  cases h

/-- What a literal token holds is what the formula holds that it is a literal for. -/
lemma marks_of_literalShape? {t : Located Token} {shape : Shape Formula.Placed DefinitionSet.Placed}
    (h : literalShape? t = some (.ok shape)) (hplaced : Mark.unplaced ∉ marks t) :
    marks t = (Formula.node t.span shape).marks ∧ Formula.Solid (.node t.span shape) := by
  obtain ⟨token, span⟩ := t
  cases token with
  | null =>
    cases h
    exact ⟨by simp [marks, isArrow, Token.name?, literal?, Formula.marks, Shape.marks], trivial⟩
  | bool value =>
    cases h
    exact ⟨by simp [marks, isArrow, Token.name?, literal?, Formula.marks, Shape.marks], trivial⟩
  | text value =>
    cases h
    exact ⟨by simp [marks, isArrow, Token.name?, literal?, Formula.marks, Shape.marks], trivial⟩
  | number whole fraction =>
    have hshape : (Shape.number <$> numberValue span whole fraction) = .ok shape := Option.some.inj h
    cases hvalue : numberValue span whole fraction with
    | error f =>
      rw [hvalue] at hshape
      cases hshape
    | ok x =>
      rw [hvalue] at hshape
      cases hshape
      -- a number without a place would have been marked as such
      have hspan : span.isEmpty = false := by
        cases hempty : span.isEmpty with
        | false => rfl
        | true => simp [marks, isArrow, hempty] at hplaced
      refine ⟨?_, hspan⟩
      simp [marks, isArrow, Token.name?, literal?, Formula.marks, Shape.marks, hspan,
        numberMatrix?_eq hvalue]
  | _ => cases h

lemma accounts_literal :
    Accounts Grammar.literal 0 (fun f => (f.marks : Multiset Mark)) Formula.Solid := by
  intro c f c' hfree hrun
  obtain ⟨t, rest, shape, hrest, hshape, rfl, rfl⟩ := literal_inv hrun
  have hgroup := not_group_of_literalShape? hshape
  rw [hrest, tally_cons hgroup, zero_add, Multiset.mem_add, not_or, Multiset.mem_coe] at hfree
  obtain ⟨hmarks, hsolid⟩ := marks_of_literalShape? hshape hfree.1
  refine ⟨?_, hsolid⟩
  rw [hrest, tally_cons hgroup, hmarks, zero_add]
  rfl

lemma accounts_reference :
    Accounts reference 0 (fun f => (f.marks : Multiset Mark)) Formula.Solid :=
  accounts_get fun _ => accounts_bind accounts_name fun n _ => accounts_pure (by
    simp [Formula.marks, Shape.marks]) trivial

lemma accounts_infixOperator : Accounts infixOperator 0 (fun s => {.name s.value}) fun _ => True := by
  intro c s c' _ hrun
  obtain ⟨rest, hrest, hoperator, rfl⟩ := infixOperator_inv hrun
  have hstructural : ¬ structuralSymbols.contains s.value = true := by
    intro h
    simp [Word.isOperator, structuralSymbols] at hoperator h
    grind
  have harrow : (s.value == arrow) = false := by
    rw [beq_eq_false_iff_ne]
    intro heq
    rw [heq] at hstructural
    exact hstructural (by decide)
  rw [hrest, tally_cons fun _ _ h => by cases h]
  refine ⟨?_, trivial⟩
  simp only [marks, isArrow, harrow, Token.name?, if_neg hstructural, literal?]
  simp [Cursor.pass]

lemma accounts_parameters :
    Accounts parameters 0 (fun ps => ((ps.map Mark.name : List Mark) : Multiset Mark)) fun _ => True := by
  have hsum (ps : List String) : (ps.map fun n => ({Mark.name n} : Multiset Mark)).sum =
      ((ps.map Mark.name : List Mark) : Multiset Mark) := by
    induction ps with
    | nil => rfl
    | cons n ps ih =>
      rw [List.map_cons, List.sum_cons, ih, List.map_cons]
      rfl
  refine accounts_choice (forall_mem_pair ?_ ?_)
  · exact accounts_bind accounts_name fun n _ => accounts_pure (by simp) trivial
  · have hnames := accounts_inGroup (accounts_groupOf "`(...)`" (· == .parens))
      (accounts_commaList accounts_name)
    simp only [hsum] at hnames
    exact hnames.mono fun _ _ => trivial

/-! ## Rules that refer to formulas -/

/-- The parser accounts for tokens by a formula that is not a number without extent. -/
abbrev Balanced (m : Parser Token Formula.Placed) : Prop :=
  Accounts m 0 (fun f => (f.marks : Multiset Mark)) Formula.Solid

section Rules

variable {formula : Parser Token Formula.Placed} (h : Balanced formula)

include h

lemma accounts_arguments :
    Accounts (arguments formula) 0 Formula.held fun fs => ∀ f ∈ fs, f.Solid :=
  accounts_inGroup (accounts_groupOf _ _) (accounts_commaList h)

lemma balanced_parenthesized : Balanced (parenthesized formula) :=
  accounts_inGroup (accounts_groupOf _ _) (accounts_skip accounts_gap fun _ => accounts_bind h
    fun _ hf => accounts_skip accounts_gap fun _ => accounts_pure (zero_add _) hf)

lemma accounts_application : Accounts (application formula) 0
    (fun o => o.elim 0 fun b => Formula.held b.1.1) fun _ => True := by
  refine accounts_bind (accounts_optional
    (accounts_skip accounts_space fun _ => accounts_arguments h)) ?_
  rintro (_ | list) -
  · exact accounts_pure (by simp) trivial
  · exact accounts_get fun _ => accounts_pure (by simp) trivial

lemma balanced_call : Balanced (call formula) := by
  have hcallee : Balanced (choice [reference, parenthesized formula]) := by
    refine accounts_choice (forall_mem_pair ?_ ?_)
    · exact accounts_reference
    · exact balanced_parenthesized h
  have hlists := accounts_collect (v := fun l : List Formula.Placed × Position => Formula.held l.1)
    (Q := fun _ => True) ((accounts_application h).mono fun _ _ _ _ => trivial)
  refine accounts_get fun c => accounts_bind hcallee fun callee hsolid =>
    accounts_bind hlists fun lists _ => ?_
  -- every argument list makes a call of what was read before it
  induction lists generalizing callee with
  | nil => exact accounts_pure (by simp) hsolid
  | cons l lists ih =>
    have hmore := ih (.node ⟨c.position, l.2⟩ (.call callee l.1)) trivial fun _ _ => trivial
    rw [Formula.coe_marks_call, ← add_assoc] at hmore
    rw [List.map_cons, List.sum_cons, ← add_assoc]
    exact hmore

lemma balanced_list : Balanced (list formula) :=
  accounts_get fun _ => accounts_bind (accounts_groupOf _ _) fun inner _ => by
    rw [zero_add]
    refine accounts_seq (accounts_within (accounts_commaList h)) fun items hsolid =>
      accounts_get fun _ => accounts_pure ?_ (Formula.solid_ofItems _ _)
    rw [Formula.marks_ofItems hsolid, Formula.coe_listMarks]
    rfl

/-- What a case holds. -/
def heldByCase (c : Case Formula.Placed) : Multiset Mark := Formula.held c.parts

lemma accounts_otherwiseCase : Accounts (otherwiseCase formula) 0 heldByCase fun _ => True :=
  accounts_skip (accounts_word (by decide)) fun _ => accounts_skip accounts_gap fun _ =>
    accounts_bind h fun f _ => accounts_pure (by simp [heldByCase, Case.parts]) trivial

lemma accounts_whenCase : Accounts (whenCase formula) 0 heldByCase fun _ => True := by
  have hsymbol : ((marks ⟨.operator doubleArrow, {}⟩ : List Mark) : Multiset Mark) = 0 := by
    simp [marks, isArrow, arrow, doubleArrow, Token.name?, structuralSymbols, literal?]
  have hskip := accounts_symbol doubleArrow
  rw [hsymbol] at hskip
  exact accounts_bind (accounts_notAhead h) fun condition _ => accounts_skip accounts_gap fun _ =>
    accounts_skip hskip fun _ => accounts_skip accounts_gap fun _ =>
      accounts_bind h fun value _ => accounts_pure (by simp [heldByCase, Case.parts]) trivial

lemma accounts_cases : Accounts (cases formula) 0 (fun cs => (cs.map heldByCase).sum) fun _ => True := by
  have hnext : Accounts (nextCase formula) 0 (fun o => o.elim 0 heldByCase)
      fun o => ∀ c ∈ o, True := by
    refine accounts_get fun c => ?_
    split
    · exact accounts_pure rfl fun _ _ => trivial
    · refine accounts_bind (v := heldByCase) (Q := fun _ => True)
        (accounts_choice (forall_mem_pair ?_ ?_)) fun c _ => accounts_pure (zero_add _) fun _ _ => trivial
      · exact accounts_otherwiseCase h
      · exact accounts_whenCase h
  have hseparator : Accounts (choice [comma, lineBreak]) 0 (fun _ => 0) fun _ => True := by
    refine accounts_choice (forall_mem_pair ?_ ?_)
    · exact accounts_comma
    · exact accounts_lineBreak
  exact accounts_skip accounts_gap fun _ => accounts_bind (accounts_separated hnext hseparator)
    fun _ _ => accounts_skip accounts_gap fun _ => accounts_pure (zero_add _) trivial

lemma balanced_switch : Balanced (switch formula) := by
  refine accounts_get fun span => accounts_skip (accounts_word (by decide)) fun _ =>
    accounts_bind (v := fun cs => (cs.map heldByCase).sum) (Q := fun _ => True)
      (accounts_choice (forall_mem_pair ?_ ?_)) fun cs _ => accounts_get fun _ =>
        accounts_pure ?_ trivial
  · exact accounts_inBlock (accounts_cases h)
  · exact accounts_skip accounts_space fun _ => accounts_bind (accounts_otherwiseCase h)
      fun c _ => accounts_pure (by simp) trivial
  · rw [Formula.marks, Shape.marks, Case.coe_listMarks, zero_add]
    rfl

lemma balanced_primary : Balanced (primary formula) := by
  refine accounts_choice fun m hm => ?_
  simp only [List.mem_cons, List.not_mem_nil, or_false] at hm
  rcases hm with rfl | rfl | rfl | rfl
  · exact accounts_literal
  · exact balanced_switch h
  · exact balanced_call h
  · exact balanced_list h

lemma balanced_negation : Balanced (negation formula) := by
  have hminus : ((marks ⟨.operator "-", {}⟩ : List Mark) : Multiset Mark) = {.name "-"} := by
    simp [marks, isArrow, arrow, equalsSign, doubleArrow, Token.name?, structuralSymbols, literal?]
  have hsymbol := accounts_symbol "-"
  rw [hminus] at hsymbol
  exact accounts_bind hsymbol fun minus _ => accounts_bind (balanced_primary h) fun f _ =>
    accounts_pure (by rw [Formula.coe_marks_negation, zero_add]) trivial

lemma balanced_operand : Balanced (operand formula) := by
  refine accounts_choice (forall_mem_pair ?_ ?_)
  · exact balanced_negation h
  · exact balanced_primary h

lemma accounts_operation : Accounts (operation formula) 0 (fun ls => (ls.map Link.held).sum)
    fun _ => True :=
  accounts_skip accounts_space fun _ => accounts_bind accounts_infixOperator fun _ _ =>
    accounts_skip accounts_gap fun _ => accounts_bind (balanced_operand h) fun _ _ =>
      accounts_pure (by simp [Link.held]) trivial

omit h in
lemma sum_held_flatten (rows : List (List (Link Formula.Placed))) :
    (rows.map fun ls => (ls.map Link.held).sum).sum = (rows.flatten.map Link.held).sum := by
  induction rows with
  | nil => rfl
  | cons ls rows ih => rw [List.map_cons, List.sum_cons, ih, List.flatten_cons, List.map_append,
      List.sum_append]

lemma balanced_chain : Balanced (chain formula) := by
  refine accounts_bind (balanced_operand h) fun first hfirst =>
    accounts_bind (accounts_many (accounts_operation h)) fun rows _ => ?_
  rw [sum_held_flatten, zero_add]
  cases rows with
  | nil => exact accounts_pure (by simp) hfirst
  | cons ls rows =>
    show Accounts (chain.liftExcept (Formula.joining.fold (.operand first :: (ls :: rows).flatten)))
      _ _ _
    cases hfold : Formula.joining.fold (.operand first :: (ls :: rows).flatten) with
    | error f => exact accounts_throw f
    | ok f =>
      refine accounts_pure ?_ (solid_fold hfirst hfold)
      obtain ⟨x, -, hlinks, rfl⟩ := Joining.exists_of_fold_eq_ok hfold
      rw [Operation.coe_marks_value, hlinks, List.map_cons, List.sum_cons]
      rfl

/-! ## Closures and definitions -/

lemma accounts_definition : Accounts (definition formula) 0 Definition.held fun _ => True := by
  have hsymbol : ((marks ⟨.operator equalsSign, {}⟩ : List Mark) : Multiset Mark) = 0 := by
    simp [marks, isArrow, arrow, equalsSign, Token.name?, structuralSymbols, literal?]
  have hskip := accounts_symbol equalsSign
  rw [hsymbol] at hskip
  exact accounts_get fun _ => accounts_bind accounts_name fun n _ => accounts_skip accounts_gap
    fun _ => accounts_skip hskip fun _ => accounts_skip accounts_gap fun _ =>
      accounts_bind h fun f _ => accounts_get fun _ =>
        accounts_pure (by rw [Definition.held_node, zero_add]) trivial

lemma accounts_definitions :
    Accounts (definitions formula) 0 (fun ds => (ds.map Definition.held).sum) fun _ => True :=
  accounts_skip accounts_gap fun _ => accounts_bind
    (accounts_separated (accounts_optional (accounts_definition h)) accounts_lineBreak) fun _ _ =>
      accounts_skip accounts_gap fun _ => accounts_pure (zero_add _) trivial

lemma accounts_whereClause :
    Accounts (whereClause formula) 0 (fun ds => (ds.map Definition.held).sum) fun _ => True := by
  refine accounts_skip accounts_space fun _ => accounts_skip (accounts_word (by decide)) fun _ =>
    accounts_choice (forall_mem_pair ?_ ?_)
  · exact accounts_inBlock (accounts_definitions h)
  · exact accounts_skip accounts_space fun _ => accounts_bind (accounts_definition h)
      fun _ _ => accounts_pure (by simp) trivial

/-- The arrow stands for the closure and for the name of its result. -/
lemma balanced_closure : Balanced (closure formula) := by
  have harrow : ((marks ⟨.operator arrow, {}⟩ : List Mark) : Multiset Mark) =
      {.closure} + {.name resultName} := by
    simp [marks, isArrow]
    rfl
  have hsymbol := accounts_symbol arrow
  rw [harrow] at hsymbol
  refine accounts_get fun _ => accounts_bind accounts_parameters fun ps _ =>
    accounts_skip accounts_gap fun _ => accounts_bind hsymbol fun _ _ =>
      accounts_skip accounts_gap fun _ => accounts_bind h fun result _ =>
        accounts_bind (accounts_optional (accounts_whereClause h)) fun locals _ =>
          accounts_get fun _ => accounts_pure ?_ trivial
  rw [Formula.marks, Shape.marks, ← Multiset.coe_add, ← Multiset.cons_coe, DefinitionSet.coe_marks,
    List.map_cons, List.sum_cons, Definition.held_node, ← Multiset.singleton_add]
  cases locals with
  | none =>
    simp only [Option.elim_none, Option.getD_none, List.map_nil, List.sum_nil]
    abel
  | some ds =>
    simp only [Option.elim_some, Option.getD_some]
    abel

lemma balanced_closureOrChain : Balanced (closureOrChain formula) := by
  refine accounts_choice (forall_mem_pair ?_ ?_)
  · exact balanced_closure h
  · exact balanced_chain h

end Rules

/-- Every formula that is read holds what its tokens hold. -/
theorem balanced_formula : Balanced formula :=
  accounts_fix (fun _ hg _ => balanced_closureOrChain (hg ())) ()

end Grammar

/-- A program that is read holds what its tokens hold. -/
theorem DefinitionSet.coe_marks_of_ofTokens {tokens : List (Located Token)}
    {p : DefinitionSet.Placed} (h : DefinitionSet.ofTokens tokens = .ok p)
    (hplaced : Mark.unplaced ∉ tally tokens) : (p.marks : Multiset Mark) = tally tokens := by
  obtain ⟨ds, c, hrun, hend, rfl⟩ := ofTokens_inv h
  obtain ⟨heq, -⟩ := Grammar.accounts_definitions Grammar.balanced_formula
    (by rwa [zero_add]) hrun
  rw [DefinitionSet.coe_marks]
  rw [zero_add, hend, tally_nil, add_zero] at heq
  exact heq.symm

end Formulary
