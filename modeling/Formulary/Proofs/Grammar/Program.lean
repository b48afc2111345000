/-
# Accepting closures, switches and programs

A definition is accepted in its row, and so is a case of a switch.  So a closure with its
definitions, a switch and a program are each accepted as what they stand for.
-/
import Formulary.Proofs.Grammar.Chains
import Formulary.Proofs.Grammar.Lines

namespace Formulary.Grammar

open Text Word Parsing Token

variable {ts us vs k : List Token} {f g : Formula.Bare} {n : String} {ps : List String}
  {x : Operation Formula.Bare} {ds : List Definition.Bare} {cs : List (Case Formula.Bare)}

/-- A symbol between spaces, and what comes after it. -/
def spaced (s : String) (ts : List Token) : List Token :=
  Token.space :: operator s :: Token.space :: ts

/-- White space around a symbol is passed with it. -/
lemma accepts_spaced {α : Type} {s : String} {m : Parser Token α} {X : α → View Token}
    (h : Begins ts) (hm : Accepts (Ahead ts) m X) :
    Accepts (Ahead (spaced s ts)) (gap >>= fun _ => symbol s >>= fun _ => gap >>= fun _ => m) X := by
  refine accepts_bind (accepts_gap _) fun _ => accepts_bind (accepts_symbol (s := s)) fun _ => ?_
  have hgap := accepts_gap (Token.space :: ts)
  have hdrop : (Token.space :: ts).dropWhile isGap = ts := h.dropWhile_isGap
  rw [hdrop] at hgap
  exact accepts_bind hgap fun _ => hm

/-! ## Definitions -/

/-- The row of a definition. -/
inductive IsDefinition : List Token → Definition.Bare → Prop
  | intro {ts : List Token} {f : Formula.Bare} {n : String} {raw : Bool}
      (hn : raw = true ∨ isReserved n = false) (h : IsFormula ts f) :
      IsDefinition (ident n raw :: spaced equalsSign ts) (.node () n (some f))

lemma IsDefinition.begins {d : Definition.Bare} (h : IsDefinition ts d) : Begins ts := by
  cases h with
  | intro _ _ => exact begins_cons rfl

lemma IsDefinition.takes {d : Definition.Bare} (h : IsDefinition ts d) :
    Takes (definition formula) EndsFormula ts fun a => a.bare = d := by
  intro k hk
  cases h with
  | @intro ts f n raw hn h =>
    refine accepts_get fun c _ => accepts_bind (accepts_name hn) fun m => accepts_and fun hm => ?_
    refine accepts_spaced (h.begins.append k) (accepts_bind (h.takes hk) fun a =>
      accepts_and fun ha => accepts_get fun c' _ => accepts_pure fun r i hr => ⟨?_, hr⟩)
    show Definition.bare _ = _
    rw [Definition.bare, Definition.toBare, hm, Option.map_some, ha]

lemma accepts_definitions (h : Lines IsDefinition ts ds) :
    Accepts (Ahead ts) (definitions formula) fun as r _ => r = [] ∧ as.map Definition.bare = ds := by
  have hbegins : ∀ ts d, IsDefinition ts d → Begins ts := fun _ _ h => h.begins
  have hnil : Rejects (Ahead []) (definition formula) :=
    rejects_get fun _ _ => rejects_bind_left (rejects_name fun _ _ h => by cases h)
  have hgap := accepts_gap ts
  rw [h.dropWhile_isGap hbegins] at hgap
  refine accepts_bind hgap fun _ => accepts_bind (h.accepts hbegins (accepts_optional_none hnil)
    (fun ts d k hd hk => accepts_optional_some (hd.takes hk.endsFormula)) parts_lineBreak) fun as =>
      accepts_and fun has => ?_
  exact accepts_bind (accepts_gap []) fun _ => accepts_pure fun r i hr => ⟨bares_eq_nil.mp hr, has⟩

/-! ## Closures -/

/-- The parameters of a closure. -/
inductive IsParameters : List Token → List String → Prop
  | name {n : String} {raw : Bool} (hn : raw = true ∨ isReserved n = false) :
      IsParameters [ident n raw] [n]
  | list {us : List Token} {ps : List String} (h : Separated AreName us ps) :
      IsParameters [grouped .parens us] ps

lemma IsParameters.takes (h : IsParameters us ps) :
    Takes parameters (fun _ => True) us fun as => as = ps := by
  intro k _
  cases h with
  | name hn =>
    refine accepts_choice_cons (accepts_bind (accepts_name hn) fun m => accepts_and fun hm => ?_)
    exact accepts_pure fun r i hr => ⟨by rw [hm], hr⟩
  | list h =>
    refine accepts_choice_of_rejects (rejects_bind_left (rejects_name ?_)) (accepts_choice_cons
      (accepts_bind accepts_parens fun inner => accepts_and fun hinner =>
        accepts_within hinner h.accepts_names))
    intro n raw hhead
    cases hhead

lemma IsParameters.begins (h : IsParameters us ps) : Begins us := by
  cases h <;> exact begins_cons rfl

lemma IsParameters.otherwise_ne (h : IsParameters us ps) (k : List Token) :
    (us ++ k).head? ≠ some (ident "otherwise" false) := by
  cases h with
  | name hn =>
    rintro ⟨⟩
    revert hn
    decide
  | list h => simp [grouped]

/-- A closure is accepted with its result and the definitions after the result. -/
lemma accepts_closure (hps : IsParameters us ps) (hts : Begins ts)
    (hresult : Accepts (Ahead ts) formula fun a r i => a.bare = f ∧ Ahead vs r i)
    (hlocals : Accepts (Ahead vs) (optional (whereClause formula)) fun o r i =>
      (o.getD []).map Definition.bare = ds ∧ Ahead k r i) :
    Accepts (Ahead (us ++ spaced arrow ts)) formula fun a r i =>
      a.bare = .node () (.closure ps (.node () (.node () resultName (some f) :: ds) [])) ∧
        Ahead k r i := by
  rw [formula_eq]
  refine accepts_choice_cons (accepts_get fun c _ => accepts_bind (hps.takes trivial) fun as =>
    accepts_and fun has => ?_)
  refine accepts_spaced hts ?_
  refine accepts_bind hresult fun a => accepts_and fun ha => accepts_bind hlocals fun o =>
    accepts_and fun ho => accepts_get fun c' _ => accepts_pure fun r i hr => ⟨?_, hr⟩
  show Formula.bare _ = _
  rw [Formula.bare, Shape.bare, DefinitionSet.ofDefinitions, DefinitionSet.bare,
    Definition.bares_eq_map, List.map_cons, Formula.bares, ho, Definition.bare, Definition.toBare,
    Option.map_some, ha, has]

/-- A closure without further definitions. -/
lemma IsFormula.closure (h : IsFormula ts f) (hps : IsParameters us ps) :
    IsFormula (us ++ spaced arrow ts)
      (.node () (.closure ps (.node () [.node () resultName (some f)] []))) := by
  refine ⟨hps.begins.append _, hps.otherwise_ne _, fun k hk => ?_⟩
  have hlocals : Accepts (Ahead k) (optional (whereClause formula)) fun o r i =>
      (o.getD []).map Definition.bare = [] ∧ Ahead k r i :=
    (accepts_optional_none hk.noWhere.rejects).mono fun o r i hr => ⟨by rw [hr.1]; rfl, hr.2⟩
  have hclosure := accepts_closure hps (h.begins.append k) (h.takes hk) hlocals
  simpa [spaced] using hclosure

lemma endsChain_where : EndsChain (Token.space :: ident "where" false :: k) where
  noArguments := fun _ h => by cases h
  noOperator := fun _ h => by cases h
  noArrow := fun h => by cases h

/-- A group that may hold definitions or cases, perhaps after a space. -/
def IsBlock (ts us : List Token) : Prop :=
  ts = [grouped .indented us] ∨ ts = [Token.space, grouped .braces us]

lemma accepts_block (h : IsBlock ts us) : Accepts (Ahead (ts ++ k)) block fun inner r i =>
    inner.Meets (Ahead us) ∧ Ahead k r i := by
  rcases h with rfl | rfl
  · exact accepts_bind (accepts_space _) fun _ => @accepts_groupOf _ _ _ _ .indented rfl
  · exact accepts_bind (accepts_space _) fun _ => @accepts_groupOf _ _ _ _ .braces rfl

lemma accepts_whereClause (hts : IsBlock ts us) (h : Lines IsDefinition us ds) :
    Accepts (Ahead (Token.space :: ident "where" false :: (ts ++ k))) (whereClause formula)
      fun as r i => as.map Definition.bare = ds ∧ Ahead k r i :=
  accepts_bind (accepts_space _) fun _ => accepts_bind accepts_word fun _ =>
    accepts_choice_cons (accepts_bind (accepts_block hts) fun _ => accepts_and fun hinner =>
      accepts_within hinner (accepts_definitions h))

/-- A closure with further definitions after its result, which is a chain. -/
lemma AreLinks.closure (h : AreLinks ts x.links) (hx : x.Grouped) (hps : IsParameters us ps)
    {bs : List Token} (hbs : IsBlock bs vs) (hvs : Lines IsDefinition vs ds) :
    IsFormula (us ++ spaced arrow (ts ++ Token.space :: ident "where" false :: bs))
      (.node () (.closure ps (.node ()
        (.node () resultName (some (x.value Formula.bareJoining)) :: ds) []))) := by
  refine ⟨hps.begins.append _, hps.otherwise_ne _, fun k _ => ?_⟩
  have hlocals := accepts_optional_some (accepts_whereClause (k := k) hbs hvs)
  have hclosure := accepts_closure hps (h.begins.append _) (h.takes hx endsChain_where)
    (hlocals.mono fun o r i => by
      rintro ⟨as, rfl, has, hr⟩
      exact ⟨has, hr⟩)
  simpa [spaced] using hclosure

/-! ## Switches -/

/-- The row of a case. -/
inductive IsCase : List Token → Case Formula.Bare → Prop
  | when {ts us : List Token} {f g : Formula.Bare} (hf : IsFormula ts f) (hg : IsFormula us g) :
      IsCase (ts ++ spaced doubleArrow us) (.when f g)
  | otherwise {ts : List Token} {f : Formula.Bare} (h : IsFormula ts f) :
      IsCase (ident "otherwise" false :: Token.space :: ts) (.otherwise f)

lemma IsCase.begins {c : Case Formula.Bare} (h : IsCase ts c) : Begins ts := by
  cases h with
  | when hf _ => exact hf.begins.append _
  | otherwise _ => exact begins_cons rfl

lemma endsFormula_doubleArrow : EndsFormula (spaced doubleArrow us) where
  noArguments := fun _ h => by cases h
  noOperator := fun _ h => by
    cases h
    decide
  noArrow := fun h => by
    revert h
    simp [spaced, isGap, isSpace, isLineBreak, doubleArrow, arrow]
  noWhere := fun h => by cases h

lemma accepts_otherwiseCase (h : IsFormula ts f) (hk : EndsFormula k) :
    Accepts (Ahead (ident "otherwise" false :: Token.space :: (ts ++ k))) (otherwiseCase formula)
      fun a r i => a.bare = .otherwise f ∧ Ahead k r i := by
  have hgap := accepts_gap (Token.space :: (ts ++ k))
  have hdrop : (Token.space :: (ts ++ k)).dropWhile isGap = ts ++ k :=
    (h.begins.append k).dropWhile_isGap
  rw [hdrop] at hgap
  refine accepts_bind accepts_word fun _ => accepts_bind hgap fun _ =>
    accepts_bind (h.takes hk) fun a => accepts_and fun ha => accepts_pure fun r i hr => ⟨?_, hr⟩
  show Case.bare _ = _
  rw [Case.bare, Case.map, ha]

lemma accepts_whenCase (hf : IsFormula ts f) (hg : IsFormula us g) (hk : EndsFormula k) :
    Accepts (Ahead (ts ++ (spaced doubleArrow us ++ k))) (whenCase formula) fun a r i =>
      a.bare = .when f g ∧ Ahead k r i := by
  have hno : Rejects (Ahead (ts ++ (spaced doubleArrow us ++ k))) (word "otherwise") :=
    rejects_word (by rw [hf.begins.head?_append]; exact hf.otherwise_ne)
  have hcondition := hf.takes (@endsFormula_doubleArrow (us ++ k))
  refine accepts_bind (accepts_notAhead hno hcondition) fun a => accepts_and fun ha => ?_
  refine accepts_spaced (hg.begins.append k) (accepts_bind (hg.takes hk) fun b =>
    accepts_and fun hb => accepts_pure fun r i hr => ⟨?_, hr⟩)
  show Case.bare _ = _
  rw [Case.bare, Case.map, ha, hb]

lemma rejects_otherwiseCase (h : ts.head? ≠ some (ident "otherwise" false)) :
    Rejects (Ahead ts) (otherwiseCase formula) := rejects_bind_left (rejects_word h)

lemma IsCase.accepts {c : Case Formula.Bare} (h : IsCase ts c) (hk : EndsFormula k) :
    Accepts (Ahead (ts ++ k)) (nextCase formula) fun o r i =>
      ∃ a : Case Formula.Placed, o = some a ∧ a.bare = c ∧ Ahead k r i := by
  have hcase : Accepts (Ahead (ts ++ k)) (choice [otherwiseCase formula, whenCase formula])
      fun a r i => a.bare = c ∧ Ahead k r i := by
    cases h with
    | when hf hg =>
      rw [List.append_assoc]
      refine accepts_choice_of_rejects (rejects_otherwiseCase ?_)
        (accepts_choice_cons (accepts_whenCase hf hg hk))
      rw [hf.begins.head?_append]
      exact hf.otherwise_ne
    | otherwise hf => exact accepts_choice_cons (accepts_otherwiseCase hf hk)
  refine accepts_get fun cur hcur => ?_
  have hend : cur.atEnd = false := by
    have hne := (h.begins.append k).ne_nil
    rw [← hcur.1, Ne, bares_eq_nil] at hne
    simpa [Cursor.atEnd] using hne
  rw [hend]
  exact accepts_bind hcase fun a => accepts_pure fun r i hr => ⟨a, rfl, hr⟩

lemma accepts_cases (h : Lines IsCase ts cs) :
    Accepts (Ahead ts) (cases formula) fun as r _ => r = [] ∧ as.map Case.bare = cs := by
  have hbegins : ∀ ts c, IsCase ts c → Begins ts := fun _ _ h => h.begins
  have hnone : Accepts (Ahead []) (nextCase formula) fun o r i => o = none ∧ Ahead [] r i := by
    refine accepts_get fun cur hcur => ?_
    have hend : cur.atEnd = true := by rw [Cursor.atEnd, bares_eq_nil.mp hcur.1]; rfl
    rw [hend]
    exact accepts_pure fun r i hr => ⟨rfl, hr⟩
  have hgap := accepts_gap ts
  rw [h.dropWhile_isGap hbegins] at hgap
  refine accepts_bind hgap fun _ => accepts_bind (h.accepts hbegins hnone
    (fun ts c k hc hk => hc.accepts hk.endsFormula) parts_commaOrLineBreak) fun as =>
      accepts_and fun has => ?_
  exact accepts_bind (accepts_gap []) fun _ => accepts_pure fun r i hr => ⟨bares_eq_nil.mp hr, has⟩

/-- A switch with its block of cases. -/
lemma isPrimary_switch (hus : IsBlock us ts) (h : Lines IsCase ts cs) :
    IsPrimary (ident "switch" false :: us) (.node () (.switch cs)) where
  begins := begins_cons rfl
  otherwise_ne := by simp
  minus_ne := by simp
  noClosure k _ := by
    refine rejects_closure_of_parameters (rejects_parameters ?_ ?_)
    · rintro n raw ⟨⟩
      decide
    · intro us hhead
      cases hhead
  takes k _ := by
    refine accepts_choice_of_rejects (rejects_literal_token ?_) (accepts_choice_cons
      (accepts_get fun c _ => accepts_bind accepts_word fun _ => ?_))
    · intro t ht
      cases ht
      rfl
    refine accepts_bind (accepts_choice_cons (accepts_bind (accepts_block hus) fun inner =>
      accepts_and fun hinner => accepts_within hinner (accepts_cases h))) fun as =>
        accepts_and fun has => accepts_get fun c' _ => accepts_pure fun r i hr => ⟨?_, hr⟩
    show Formula.bare _ = _
    rw [Formula.bare, Shape.bare, Case.bares_eq_map, has]

/-! ## Programs -/

/-- A program is read from the rows of its definitions. -/
theorem exists_ofTokens {tokens : List (Located Token)} (h : Lines IsDefinition (bares tokens) ds) :
    ∃ p, DefinitionSet.ofTokens tokens = .ok p ∧ p.bare = .node () ds [] := by
  have hc : (Cursor.before tokens (rowSpan tokens)).Meets (Ahead (bares tokens)) :=
    ⟨rfl, fun f hf => by cases hf⟩
  obtain ⟨as, c', hrun, hc'⟩ := accepts_within hc (accepts_definitions h) hc
  refine ⟨DefinitionSet.ofDefinitions as, ?_, ?_⟩
  · unfold DefinitionSet.ofTokens
    dsimp only
    rw [hrun]
  · rw [DefinitionSet.ofDefinitions, DefinitionSet.bare, Definition.bares_eq_map, Formula.bares,
      hc'.1.1]

end Formulary.Grammar
