/-
# Accepting literals, names, calls and lists

The contents of a group are accepted to their end, formulas separated by commas among them.  So a
literal, a name, a group in parentheses and a name or a group followed by an argument list are
each accepted as what they stand for.
-/
import Formulary.Proofs.Grammar.Operands
import Formulary.Proofs.Token.Single

namespace Formulary.Grammar

open Text Word Parsing Token

variable {α : Type} {t : Token} {ts us vs k : List Token} {f g : Formula.Bare}
  {fs gs : List Formula.Bare} {n : String} {raw : Bool}

/-! ## Ends of formulas -/

lemma endsFormula_nil : EndsFormula [] where
  noArguments := fun _ h => by cases h
  noOperator := fun _ h => by cases h
  noArrow := fun h => by cases h
  noWhere := fun h => by cases h

lemma endsFormula_comma : EndsFormula (Token.comma :: k) where
  noArguments := fun _ h => by cases h
  noOperator := fun _ h => by cases h
  noArrow := fun h => by cases h
  noWhere := fun h => by cases h

/-- A formula ends with its line, if the next line does not begin with an arrow. -/
lemma endsFormula_lineBreak (h : NoArrow k) : EndsFormula (Token.lineBreak :: k) where
  noArguments := fun _ h => by cases h
  noOperator := fun _ h => by cases h
  noArrow := h
  noWhere := fun h => by cases h

/-- Line breaks and nothing else. -/
def Trails (ts : List Token) : Prop := ∀ t ∈ ts, t = Token.lineBreak

lemma Trails.dropWhile_isGap_append (h : Trails ts) (k : List Token) :
    (ts ++ k).dropWhile isGap = k.dropWhile isGap := by
  refine List.dropWhile_append_of_pos fun t ht => ?_
  rw [h t ht]
  rfl

lemma Trails.dropWhile_isGap (h : Trails ts) : ts.dropWhile isGap = [] := by
  have happend := h.dropWhile_isGap_append []
  rwa [List.append_nil] at happend

lemma Trails.endsFormula (h : Trails ts) : EndsFormula ts := by
  cases ts with
  | nil => exact endsFormula_nil
  | cons t us =>
    obtain rfl := h t List.mem_cons_self
    refine endsFormula_lineBreak fun hhead => ?_
    have hus : Trails us := fun u hu => h u (List.mem_cons_of_mem _ hu)
    rw [hus.dropWhile_isGap] at hhead
    cases hhead

/-! ## Nothing is no formula -/

lemma rejects_formula_nil : Rejects (Ahead []) formula := by
  have hparens : ∀ us, ([] : List Token).head? ≠ some (grouped .parens us) := fun _ h => by cases h
  have hname : ∀ n raw, ([] : List Token).head? = some (ident n raw) →
      raw = false ∧ isReserved n = true := fun _ _ h => by cases h
  have hprimary : Rejects (Ahead []) (primary formula) := by
    refine rejects_choice fun m hm => ?_
    simp only [List.mem_cons, List.not_mem_nil, or_false] at hm
    rcases hm with rfl | rfl | rfl | rfl
    · exact rejects_literal_token fun _ h => by cases h
    · exact rejects_switch fun h => by cases h
    · exact rejects_call hname hparens
    · exact rejects_list fun _ h => by cases h
  rw [formula_eq]
  refine rejects_choice (forall_mem_pair ?_ ?_)
  · exact rejects_closure_of_parameters (rejects_parameters hname hparens)
  · refine rejects_bind_left (rejects_choice (forall_mem_pair ?_ ?_))
    · exact rejects_bind_left (rejects_symbol fun h => by cases h)
    · exact hprimary

/-! ## Lists of elements -/

/-- Rows that are separated by commas, each of them related to an element. -/
inductive Separated (R : List Token → α → Prop) : List Token → List α → Prop
  | nil : Separated R [] []
  | single {ts : List Token} {a : α} (h : R ts a) : Separated R ts [a]
  | cons {ts us : List Token} {a b : α} {bs : List α} (h : R ts a) (rest : Separated R us (b :: bs)) :
      Separated R (ts ++ Token.comma :: Token.space :: us) (a :: b :: bs)

lemma accepts_comma (h : Begins us) :
    Accepts (Ahead (Token.comma :: Token.space :: us)) Grammar.comma fun _ => Ahead us := by
  refine accepts_bind (accepts_gap _) fun _ => ?_
  refine accepts_bind (accepts_satisfying_token placeless_isComma rfl) fun _ =>
    accepts_and fun _ => ?_
  have hdrop : (Token.space :: us).dropWhile isGap = us := h.dropWhile_isGap
  exact (accepts_gap _).mono fun _ _ _ hr => by rwa [hdrop] at hr

lemma rejects_comma (h : (ts.dropWhile isGap).head? ≠ some Token.comma) :
    Rejects (Ahead ts) Grammar.comma := by
  refine rejects_bind (accepts_gap ts) fun _ => rejects_bind_left ?_
  refine rejects_satisfying_token placeless_isComma fun t ht => ?_
  cases t with
  | comma => exact absurd ht h
  | _ => rfl

lemma Separated.begins {R : List Token → α → Prop} {as : List α} (hR : ∀ ts a, R ts a → Begins ts)
    (h : Separated R ts as) (hne : as ≠ []) : Begins ts := by
  cases h with
  | nil => exact absurd rfl hne
  | single h => exact hR _ _ h
  | cons h _ => exact (hR _ _ h).append _

section Elements

variable {β : Type} {element : Parser Token α} {R : List Token → β → Prop} {of : α → β}
  {bs : List β}

/-- Elements are accepted one after the other, up to the end of their row. -/
lemma Separated.accepts (hnil : Rejects (Ahead []) element) (hbegins : ∀ ts b, R ts b → Begins ts)
    (htakes : ∀ ts b, R ts b → Takes element (fun k => k = [] ∨ ∃ us, k = Token.comma :: us) ts
      fun a => of a = b)
    (h : Separated R ts bs) :
    Accepts (Ahead ts) (separated (optional element) Grammar.comma) fun as r i =>
      as.map of = bs ∧ Ahead [] r i := by
  induction h with
  | nil =>
    have hnone : Accepts (Ahead []) (optional element) fun o r i => o = none ∧ Ahead [] r i :=
      accepts_optional_none hnil
    refine (accepts_separated_none hnone).mono ?_
    rintro as r i ⟨rfl, hr⟩
    exact ⟨rfl, hr⟩
  | @single ts b h =>
    have helement := htakes ts b h (.inl rfl)
    rw [List.append_nil] at helement
    have hend : Rejects (Ahead []) Grammar.comma := rejects_comma fun h => by cases h
    refine (accepts_separated_last (accepts_optional_some helement)
      fun a => rejects_and fun _ => hend).mono ?_
    rintro as r i ⟨a, rfl, ha, hr⟩
    exact ⟨by rw [List.map_singleton, ha], hr⟩
  | @cons ts us b b' bs h hrest ih =>
    -- an element in front of a comma, behind which the row goes on
    have helement := htakes ts b h (.inr ⟨Token.space :: us, rfl⟩)
    have hcomma := accepts_comma (hrest.begins hbegins (by simp))
    have hseparator (a : α) : Accepts
        (fun r i => of a = b ∧ Ahead (Token.comma :: Token.space :: us) r i) Grammar.comma
        fun _ r i => of a = b ∧ Ahead us r i :=
      accepts_and fun ha => hcomma.mono fun _ _ _ hr => ⟨ha, hr⟩
    have hmore (a : α) : Accepts (fun r i => of a = b ∧ Ahead us r i)
        (separated (optional element) Grammar.comma) fun as r i =>
          (of a = b ∧ as.map of = b' :: bs) ∧ Ahead [] r i :=
      accepts_and fun ha => ih.mono fun as r i hr => ⟨⟨ha, hr.1⟩, hr.2⟩
    refine (accepts_separated_cons (accepts_optional_some helement) hseparator ?_ hmore).mono ?_
    · intro a r i r' i' hr hr'
      have hlong : Ahead ((ts ++ [Token.comma, Token.space]) ++ us) r i := by
        rwa [List.append_assoc]
      exact length_lt_of_ahead (by simp) hlong hr'.2
    · rintro _ r i ⟨a, as, rfl, ⟨ha, has⟩, hr⟩
      exact ⟨by rw [List.map_cons, ha, has], hr⟩

lemma Separated.accepts_commaList (hnil : Rejects (Ahead []) element)
    (hbegins : ∀ ts b, R ts b → Begins ts)
    (htakes : ∀ ts b, R ts b → Takes element (fun k => k = [] ∨ ∃ us, k = Token.comma :: us) ts
      fun a => of a = b)
    (h : Separated R ts bs) :
    Accepts (Ahead ts) (commaList element) fun as r _ => r = [] ∧ as.map of = bs := by
  have hgap : ts.dropWhile isGap = ts := by
    cases h with
    | nil => rfl
    | single h => exact (hbegins _ _ h).dropWhile_isGap
    | cons h _ => exact ((hbegins _ _ h).append _).dropWhile_isGap
  have hfirst := accepts_gap ts
  rw [hgap] at hfirst
  refine accepts_bind hfirst fun _ =>
    accepts_bind (h.accepts hnil hbegins htakes) fun as => accepts_and fun has => ?_
  refine accepts_bind (accepts_gap []) fun _ => accepts_pure fun r i hr => ⟨?_, has⟩
  exact bares_eq_nil.mp hr

end Elements

/-- Formulas separated by commas. -/
abbrev AreItems : List Token → List Formula.Bare → Prop := Separated IsFormula

lemma AreItems.accepts (h : AreItems ts fs) :
    Accepts (Ahead ts) (commaList formula) fun as r _ => r = [] ∧ as.map Formula.bare = fs := by
  refine Separated.accepts_commaList rejects_formula_nil (fun _ _ h => h.begins) ?_ h
  rintro ts f h k (rfl | ⟨us, rfl⟩)
  · exact h.takes endsFormula_nil
  · exact h.takes endsFormula_comma

/-- Whether a token is an identifier that can be a name. -/
def IsName (t : Token) (n : String) : Prop :=
  ∃ raw, t = ident n raw ∧ (raw = true ∨ isReserved n = false)

/-- A row that is a name. -/
def AreName (ts : List Token) (n : String) : Prop := ∃ t, ts = [t] ∧ IsName t n

lemma Separated.accepts_names {ns : List String} (h : Separated AreName ts ns) :
    Accepts (Ahead ts) (commaList name) fun as r _ => r = [] ∧ as = ns := by
  have hnil : Rejects (Ahead []) name := rejects_name fun _ _ h => by cases h
  have hlist : Accepts (Ahead ts) (commaList name) fun as r _ => r = [] ∧ as.map id = ns := by
    refine Separated.accepts_commaList hnil ?_ ?_ h
    · rintro _ n ⟨t, rfl, raw, rfl, -⟩
      exact begins_cons rfl
    · rintro _ n ⟨t, rfl, raw, rfl, hraw⟩ k -
      exact accepts_name hraw
  simpa only [List.map_id] using hlist

/-! ## Literals -/

lemma isPrimary_literal {shape : Shape Formula.Placed DefinitionSet.Placed}
    (ht : isLiteral t = true)
    (h : ∀ item : Located Token, item.value.bare = t → literalShape? item = some (.ok shape)) :
    IsPrimary [t] (.node () (Shape.bare shape)) where
  begins := begins_cons (by cases t <;> first | rfl | cases ht)
  otherwise_ne := by
    rintro hhead
    cases hhead
    cases ht
  minus_ne := by
    rintro hhead
    cases hhead
    cases ht
  noClosure k _ := by
    refine rejects_closure_of_parameters (rejects_parameters ?_ ?_)
    · intro n raw hhead
      cases hhead
      cases ht
    · intro us hhead
      cases hhead
      cases ht
  takes k _ := accepts_choice_cons (accepts_literal_token h)

lemma isPrimary_null : IsPrimary [Token.null] (.node () .null) := by
  have h : IsPrimary [Token.null] (.node () (Shape.bare .null)) :=
      isPrimary_literal rfl fun ⟨token, span⟩ hitem => by
    cases token <;> first | rfl | simp [bare, grouped] at hitem
  rwa [Shape.bare] at h

lemma isPrimary_bool (b : Bool) : IsPrimary [Token.bool b] (.node () (.bool b)) := by
  have h : IsPrimary [Token.bool b] (.node () (Shape.bare (.bool b))) :=
      isPrimary_literal rfl fun ⟨token, span⟩ hitem => by
    cases token <;> simp [bare, grouped] at hitem
    rw [← hitem]
    rfl
  rwa [Shape.bare] at h

lemma isPrimary_text (v : String) : IsPrimary [Token.text v] (.node () (.text v)) := by
  have h : IsPrimary [Token.text v] (.node () (Shape.bare (.text v))) :=
      isPrimary_literal rfl fun ⟨token, span⟩ hitem => by
    cases token <;> simp [bare, grouped] at hitem
    rw [← hitem]
    rfl
  rwa [Shape.bare] at h

/-- A numeral of a finite number is read as that number. -/
lemma numberValue_numeral (span : Span) (n : Numeral) (h : n.value.isFinite = true) :
    numberValue span (String.ofList (n.sign ++ n.whole))
      (if n.fraction = [] then none else some (String.ofList n.fraction)) = .ok n.value := by
  have hfraction : ((if n.fraction = [] then none else some (String.ofList n.fraction)).getD
      "0").toList = n.fullFraction := by
    unfold Numeral.fullFraction
    split <;> simp
  rw [numberValue_eq_ok_iff, hfraction, String.toList_ofList, n.read?_eq]
  exact ⟨rfl, h⟩

lemma isPrimary_numeral (n : Numeral) (h : n.value.isFinite = true) :
    IsPrimary [ofNumeral n] (.node () (.number n.value)) := by
  have hprimary : IsPrimary [ofNumeral n] (.node () (Shape.bare (.number n.value))) :=
    isPrimary_literal rfl fun ⟨token, span⟩ hitem => by
      cases token <;> simp only [bare, grouped, ofNumeral, reduceCtorEq, Token.number.injEq] at hitem
      obtain ⟨rfl, rfl⟩ := hitem
      rw [literalShape?]
      simp only [numberValue_numeral span n h]
      rfl
  rwa [Shape.bare] at hprimary

/-! ## Calls -/

lemma accepts_reference (h : raw = true ∨ isReserved n = false) :
    Accepts (Ahead (ident n raw :: k)) reference fun a r i =>
      a.bare = .node () (.name n) ∧ Ahead k r i := by
  refine accepts_get fun c _ => accepts_bind (accepts_name h) fun m => accepts_and fun hm => ?_
  refine accepts_pure fun r i hr => ⟨?_, hr⟩
  rw [hm, Formula.bare, Shape.bare]

/-- A formula in parentheses, perhaps with a line break before the closing one. -/
lemma IsFormula.accepts_parenthesized (h : IsFormula ts f) (hus : Trails us) :
    Accepts (Ahead (grouped .parens (ts ++ us) :: k)) (parenthesized formula) fun a r i =>
      a.bare = f ∧ Ahead k r i := by
  refine accepts_bind accepts_parens fun inner => accepts_and fun hinner => ?_
  have hgap := accepts_gap (ts ++ us)
  rw [(h.begins.append us).dropWhile_isGap] at hgap
  refine accepts_within hinner (accepts_bind hgap fun _ =>
    accepts_bind (h.takes hus.endsFormula) fun a => accepts_and fun ha => ?_)
  have hend := accepts_gap us
  rw [hus.dropWhile_isGap] at hend
  exact accepts_bind hend fun _ => accepts_pure fun r i hr => ⟨bares_eq_nil.mp hr, ha⟩

/-- The token is accepted as something that can be applied to arguments. -/
structure IsCallee (t : Token) (f : Formula.Bare) : Prop where
  leads : leads t = true
  isLiteral : isLiteral t = false
  otherwise_ne : t ≠ ident "otherwise" false
  switch_ne : t ≠ ident "switch" false
  minus_ne : t ≠ operator "-"
  attempts : ∀ k, Attempts (Ahead (t :: k)) parameters fun _ => Ahead k
  accepts : ∀ k, Accepts (Ahead (t :: k)) (choice [reference, parenthesized formula]) fun a r i =>
    a.bare = f ∧ Ahead k r i

lemma isCallee_name (h : raw = true ∨ isReserved n = false) :
    IsCallee (ident n raw) (.node () (.name n)) where
  leads := rfl
  isLiteral := rfl
  otherwise_ne := by
    rintro ⟨⟩
    revert h
    decide
  switch_ne := by
    rintro ⟨⟩
    revert h
    decide
  minus_ne := by simp
  attempts _ := attempts_parameters_name h
  accepts _ := accepts_choice_cons (accepts_reference h)

lemma IsFormula.isCallee (h : IsFormula ts f) (hus : Trails us) :
    IsCallee (grouped .parens (ts ++ us)) f where
  leads := rfl
  isLiteral := rfl
  otherwise_ne := by simp [grouped]
  switch_ne := by simp [grouped]
  minus_ne := by simp [grouped]
  attempts k := attempts_parameters_group _ k
  accepts k := by
    refine accepts_choice_of_rejects (rejects_reference ?_)
      (accepts_choice_cons (h.accepts_parenthesized hus))
    intro n raw hhead
    cases hhead

lemma accepts_applications_nil (hk : NoArguments k) :
    Accepts (Ahead k) (collect (application formula)) fun ls r i => ls = [] ∧ Ahead k r i := by
  refine accepts_collect_none (accepts_bind (accepts_optional_none hk.rejects) fun o =>
    accepts_and fun ho => ?_)
  rw [ho]
  exact accepts_pure fun r i hr => ⟨rfl, hr⟩

lemma AreItems.accepts_applications (h : AreItems us fs) (hk : NoArguments k) :
    Accepts (Ahead (grouped .parens us :: k)) (collect (application formula)) fun ls r i =>
      (∃ l stop, ls = [(l, stop)] ∧ l.map Formula.bare = fs) ∧ Ahead k r i := by
  have hlist : Accepts (Ahead (grouped .parens us :: k))
      (do Grammar.space; arguments formula : Parser Token (List Formula.Placed))
      fun l r i => l.map Formula.bare = fs ∧ Ahead k r i := by
    refine accepts_bind (accepts_space _) fun _ => ?_
    exact accepts_bind accepts_parens fun inner => accepts_and fun hinner =>
      accepts_within hinner h.accepts
  have hmore (l : List Formula.Placed × Position) :
      Accepts (fun r i => l.1.map Formula.bare = fs ∧ Ahead k r i) (collect (application formula))
        fun ls r i => (l.1.map Formula.bare = fs ∧ ls = []) ∧ Ahead k r i :=
    accepts_and fun hl => (accepts_applications_nil hk).mono fun _ _ _ hr => ⟨⟨hl, hr.1⟩, hr.2⟩
  refine (accepts_collect_cons (accepts_bind (accepts_optional_some hlist) fun o =>
    accepts_exists fun l => accepts_and fun ho => ?_) ?_ hmore).mono ?_
  · rw [ho]
    exact accepts_get fun c _ => accepts_pure fun r i hr => ⟨_, rfl, hr⟩
  · intro l r i r' i' hr hr'
    have hlong : Ahead ([grouped .parens us] ++ k) r i := hr
    exact length_lt_of_ahead (by simp) hlong hr'.2
  · rintro _ r i ⟨⟨l, stop⟩, ls, rfl, ⟨hl, rfl⟩, hr⟩
    exact ⟨⟨l, stop, rfl, hl⟩, hr⟩

/-- What begins with a callee is neither a literal nor a switch. -/
lemma IsCallee.accepts_primary {X : Formula.Placed → View Token} (h : IsCallee t f)
    (hcall : Accepts (Ahead (t :: k)) (call formula) X) :
    Accepts (Ahead (t :: k)) (primary formula) X := by
  refine accepts_choice_of_rejects (rejects_literal_token ?_)
    (accepts_choice_of_rejects (rejects_switch ?_) (accepts_choice_cons hcall))
  · intro u hu
    cases hu
    exact h.isLiteral
  · rintro ⟨⟩
    exact h.switch_ne rfl

/-- A callee without arguments stands for itself. -/
lemma IsCallee.isPrimary (h : IsCallee t f) : IsPrimary [t] f where
  begins := begins_cons h.leads
  otherwise_ne := fun hhead => h.otherwise_ne (Option.some.inj hhead)
  minus_ne := fun hhead => h.minus_ne (Option.some.inj hhead)
  noClosure _ hk := rejects_closure_of_noArrow (h.attempts _) hk
  takes k hk := by
    refine h.accepts_primary (accepts_get fun c _ => ?_)
    refine accepts_bind (h.accepts k) fun a => accepts_and fun ha => ?_
    refine accepts_bind (accepts_applications_nil hk) fun ls => accepts_and fun hls => ?_
    rw [hls]
    exact accepts_pure fun r i hr => ⟨ha, hr⟩

/-- A callee with its arguments. -/
lemma IsCallee.isPrimary_call (h : IsCallee t f) (hus : AreItems us fs) :
    IsPrimary [t, grouped .parens us] (.node () (.call f fs)) where
  begins := begins_cons h.leads
  otherwise_ne := fun hhead => h.otherwise_ne (Option.some.inj hhead)
  minus_ne := fun hhead => h.minus_ne (Option.some.inj hhead)
  noClosure k _ := rejects_closure_of_noArrow (h.attempts _) fun hhead => by cases hhead
  takes k hk := by
    refine h.accepts_primary (accepts_get fun c _ => ?_)
    refine accepts_bind (h.accepts _) fun a => accepts_and fun ha => ?_
    refine accepts_bind (hus.accepts_applications hk) fun ls => accepts_and ?_
    rintro ⟨l, stop, rfl, hl⟩
    refine accepts_pure fun r i hr => ⟨?_, hr⟩
    simp only [List.foldl_cons, List.foldl_nil]
    rw [Formula.bare, Shape.bare, Formula.bares_eq_map, ha, hl]

/-! ## Lists -/

lemma AreItems.isPrimary_list (h : AreItems us fs) :
    IsPrimary [grouped .brackets us] (Formula.ofItems () fs) where
  begins := begins_cons rfl
  otherwise_ne := by simp [grouped]
  minus_ne := by simp [grouped]
  noClosure k _ := by
    refine rejects_closure_of_parameters (rejects_parameters ?_ ?_)
    · intro n raw hhead
      cases hhead
    · intro us hhead
      cases hhead
  takes k _ := by
    refine accepts_choice_of_rejects (rejects_literal_token ?_)
      (accepts_choice_of_rejects (rejects_switch ?_) (accepts_choice_of_rejects (rejects_call ?_ ?_)
        (accepts_choice_cons (accepts_get fun c _ => ?_))))
    · intro u hu
      cases hu
      rfl
    · intro hhead
      cases hhead
    · intro n raw hhead
      cases hhead
    · intro us hhead
      cases hhead
    refine accepts_bind (@accepts_groupOf _ _ _ _ .brackets rfl) fun inner =>
      accepts_and fun hinner => ?_
    refine accepts_bind (accepts_within hinner h.accepts) fun items => accepts_and fun hitems => ?_
    refine accepts_get fun c' _ => accepts_pure fun r i hr => ⟨?_, hr⟩
    show (Formula.ofItems _ items).bare = _
    rw [Formula.ofItems_bare, hitems]

end Formulary.Grammar
