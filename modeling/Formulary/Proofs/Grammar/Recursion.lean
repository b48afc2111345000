/-
# The grammar as a set of equations

Every rule of the grammar applies the rule for formulas only after a token or inside of a group,
where fewer tokens are to come.  So the rule for formulas is a closure or a chain of formulas,
without any bound.
-/
import Formulary.Grammar
import Formulary.Proofs.Parsing.Recursion

namespace Formulary.Grammar

open Text Word Parsing

/-! ## Weights -/

lemma falls_listWeight : Falls Token.listWeight := by
  rintro ⟨token, span⟩ rest
  have hpos : 0 < token.weight := by
    cases token <;> simp only [Token.weight] <;> omega
  rw [Token.listWeight]
  omega

/-! ## Single tokens -/

/-- A group that is passed is the next token; its contents are read from their beginning. -/
lemma groupOf_inv {what : String} {accepts : GroupKind → Bool} {c inner c' : Cursor Token}
    (h : groupOf what accepts c = .ok inner c') :
    ∃ kind tokens span rest, accepts kind = true ∧ c.rest = ⟨.group kind tokens, span⟩ :: rest ∧
      inner = Cursor.before tokens span ∧ c' = c.pass ⟨.group kind tokens, span⟩ rest := by
  unfold groupOf at h
  split at h
  · rename_i kind tokens span rest hrest
    split at h
    · rename_i hkind
      cases h
      exact ⟨kind, tokens, span, rest, hkind, hrest, rfl, rfl⟩
    · cases h
  · cases h

/-- A name that is read is the next token, and is not reserved unless it is quoted. -/
lemma name_inv {c c' : Cursor Token} {n : String} (h : name c = .ok n c') :
    ∃ raw span rest, c.rest = ⟨.ident n raw, span⟩ :: rest ∧ (raw = true ∨ isReserved n = false) ∧
      c' = c.pass ⟨.ident n raw, span⟩ rest := by
  unfold name at h
  split at h
  · rename_i n' raw span rest hrest
    split at h
    · cases h
    · rename_i hallowed
      cases h
      refine ⟨raw, span, rest, hrest, ?_, rfl⟩
      cases raw <;> simp_all
  · cases h

/-- An infix operator that is read is the next token. -/
lemma infixOperator_inv {c c' : Cursor Token} {s : Located String} (h : infixOperator c = .ok s c') :
    ∃ rest, c.rest = ⟨.operator s.value, s.span⟩ :: rest ∧ Word.isOperator s.value = true ∧
      c' = c.pass ⟨.operator s.value, s.span⟩ rest := by
  unfold infixOperator at h
  split at h
  · rename_i symbol span rest hrest
    split at h
    · rename_i hoperator
      cases h
      exact ⟨rest, hrest, hoperator, rfl⟩
    · cases h
  · cases h

/-- A literal that is read is the next token. -/
lemma literal_inv {c c' : Cursor Token} {f : Formula.Placed} (h : Grammar.literal c = .ok f c') :
    ∃ t rest shape, c.rest = t :: rest ∧ literalShape? t = some (.ok shape) ∧
      f = .node t.span shape ∧ c' = c.pass t rest := by
  obtain ⟨token, c₁, hpeek, hrun⟩ := bind_inv h
  unfold peek at hpeek
  split at hpeek
  · cases hpeek
  · rename_i rest hrest
    cases hpeek
    cases hshape : literalShape? token with
    | none =>
      rw [hshape] at hrun
      cases hrun
    | some result =>
      rw [hshape] at hrun
      cases result with
      | error e => cases hrun
      | ok shape =>
        obtain ⟨item, c₂, hnext, hrun⟩ := bind_inv hrun
        obtain ⟨rfl, rfl⟩ := pure_inv hrun
        rw [Parsing.next, hrest] at hnext
        cases hnext
        exact ⟨_, rest, shape, hrest, hshape, rfl, rfl⟩

/-! ## Rules that do not refer to formulas -/

lemma advances_of_agrees_listWeight {α : Type} {m : Parser Token α}
    (h : ∀ n, Agrees Token.listWeight n m m) : Advances m :=
  fun c _ _ hrun => (h (Token.listWeight c.rest + 1) (Nat.lt_succ_self _)).2 hrun

lemma passes_word (w : String) : Passes (word w) := passes_satisfying _ _

lemma passes_symbol (s : String) : Passes (symbol s) := passes_satisfying _ _

lemma advances_many_satisfying (what : String) (holds : Token → Bool) :
    Advances (many (satisfying what holds)) :=
  advances_of_agrees fun _ => agrees_many falls_length (passes_satisfying _ _).advances.agrees

lemma advances_space : Advances space :=
  advances_bind (advances_many_satisfying _ _) fun _ => advances_pure _

lemma advances_gap : Advances gap :=
  advances_bind (advances_many_satisfying _ _) fun _ => advances_pure _

lemma advances_lineBreak : Advances lineBreak :=
  advances_bind advances_space fun _ =>
    advances_bind (passes_satisfying _ _).advances fun _ => advances_gap

lemma advances_comma : Advances comma :=
  advances_bind advances_gap fun _ =>
    advances_bind (passes_satisfying _ _).advances fun _ => advances_gap

lemma passes_name : Passes name := by
  intro c n c' h
  obtain ⟨raw, span, rest, hrest, -, rfl⟩ := name_inv h
  exact suffix_of_rest_eq hrest

lemma passes_infixOperator : Passes infixOperator := by
  intro c s c' h
  obtain ⟨rest, hrest, -, rfl⟩ := infixOperator_inv h
  exact suffix_of_rest_eq hrest

lemma advances_literal : Advances Grammar.literal := by
  refine advances_bind advances_peek fun token => ?_
  cases literalShape? token with
  | none => exact advances_expected _
  | some result =>
    cases result with
    | error f => exact advances_throw f
    | ok shape => exact advances_bind passes_next.advances fun _ => advances_pure _

lemma advances_reference : Advances reference :=
  fun _ _ _ h => advances_bind passes_name.advances (fun _ => advances_pure _) (get_inv h)

/-- Gives a cursor in front of what a group holds, which weighs less than the row. -/
def Encloses (m : Parser Token (Cursor Token)) : Prop :=
  Passes m ∧ ∀ ⦃c inner c'⦄, m c = .ok inner c' →
    Token.listWeight inner.rest < Token.listWeight c.rest

lemma encloses_groupOf (what : String) (accepts : GroupKind → Bool) :
    Encloses (groupOf what accepts) := by
  refine ⟨fun c inner c' h => ?_, fun c inner c' h => ?_⟩
  · obtain ⟨kind, tokens, span, rest, -, hrest, -, rfl⟩ := groupOf_inv h
    exact suffix_of_rest_eq hrest
  · obtain ⟨kind, tokens, span, rest, -, hrest, rfl, -⟩ := groupOf_inv h
    rw [hrest, Token.listWeight, Token.weight]
    show Token.listWeight tokens < _
    omega

lemma encloses_parens : Encloses parens := encloses_groupOf _ _

lemma encloses_block : Encloses block := by
  have hgroup := encloses_groupOf "an indented block or `\x7b...\x7d`"
    fun kind => kind == .indented || kind == .braces
  refine ⟨fun c inner c' h => ?_, fun c inner c' h => ?_⟩
  · obtain ⟨_, c₁, hspace, hrest⟩ := bind_inv h
    have hfirst := advances_space hspace
    have hsecond := hgroup.1 hrest
    exact ⟨hsecond.1.trans hfirst, Nat.lt_of_lt_of_le hsecond.2 hfirst.length_le⟩
  · obtain ⟨_, c₁, hspace, hrest⟩ := bind_inv h
    exact Nat.lt_of_lt_of_le (hgroup.2 hrest)
      (falls_listWeight.le_of_suffix (advances_space hspace))

variable {α β : Type} {n : Nat}

/-- Inside of a group the bound may be lower by one. -/
lemma agrees_bind_of_encloses {m : Parser Token (Cursor Token)}
    {f f' : Cursor Token → Parser Token β} (hm : Encloses m)
    (hf : ∀ inner, Token.listWeight inner.rest < n →
      Agrees Token.listWeight n (f inner) (f' inner)) :
    Agrees Token.listWeight (n + 1) (m >>= f) (m >>= f') := by
  intro c hc
  have hlater {inner : Cursor Token} {c₁ : Cursor Token} (hrun : m c = .ok inner c₁) :
      Token.listWeight inner.rest < n ∧ Token.listWeight c₁.rest < n := by
    have hinner := hm.2 hrun
    have hrest := falls_listWeight.lt_of_suffix (hm.1 hrun).1 (hm.1 hrun).2
    omega
  refine ⟨bind_eq_of_eq rfl fun inner c₁ hrun =>
    (hf inner (hlater hrun).1 (hlater hrun).2).1, fun b c' hrun => ?_⟩
  obtain ⟨inner, c₁, hfirst, hsecond⟩ := bind_inv hrun
  exact ((hf inner (hlater hfirst).1 (hlater hfirst).2).2 hsecond).trans (hm.1 hfirst).1

lemma agrees_commaList {element element' : Parser Token α}
    (h : Agrees Token.listWeight n element element') :
    Agrees Token.listWeight n (commaList element) (commaList element') :=
  agrees_bind falls_listWeight advances_gap.agrees fun _ =>
    agrees_bind falls_listWeight
      (agrees_separated falls_listWeight (agrees_optional h) advances_comma) fun _ =>
        agrees_bind falls_listWeight advances_gap.agrees fun _ => (advances_pure _).agrees

lemma advances_parens_within (p : Parser Token α) :
    Advances (do within (← parens) p) :=
  advances_bind encloses_parens.1.advances fun inner c a c' h => by
    obtain ⟨rfl, -⟩ := within_inv h
    exact List.suffix_refl _

lemma advances_parameters : Advances parameters := by
  refine advances_of_agrees fun n => ?_
  refine agrees_choice_cons falls_length ?_ (agrees_choice_cons falls_length ?_ agrees_choice_nil)
  · exact (advances_bind passes_name.advances fun _ => advances_pure _).agrees
  · exact (advances_parens_within _).agrees

/-! ## Rules that refer to formulas -/

section Rules

variable {g g' : Parser Token Formula.Placed} (h : Agrees Token.listWeight n g g')

include h

lemma agrees_arguments :
    Agrees Token.listWeight (n + 1) (arguments g) (arguments g') :=
  agrees_bind_of_encloses encloses_parens fun _ hinner =>
    agrees_within (agrees_commaList h) hinner

lemma agrees_parenthesized :
    Agrees Token.listWeight (n + 1) (parenthesized g) (parenthesized g') :=
  agrees_bind_of_encloses encloses_parens fun _ hinner =>
    agrees_within
      (agrees_bind falls_listWeight advances_gap.agrees fun _ =>
        agrees_bind falls_listWeight h fun _ =>
          agrees_bind falls_listWeight advances_gap.agrees fun _ => (advances_pure _).agrees) hinner

lemma agrees_application :
    Agrees Token.listWeight (n + 1) (application g) (application g') := by
  refine agrees_bind falls_listWeight (agrees_optional (agrees_bind falls_listWeight
    advances_space.agrees fun _ => agrees_arguments h)) ?_
  rintro (_ | list)
  · exact (advances_pure _).agrees
  · exact agrees_get fun _ => (advances_pure _).agrees

lemma agrees_call : Agrees Token.listWeight (n + 1) (call g) (call g') := by
  refine agrees_get fun c => ?_
  refine agrees_bind falls_listWeight ?_ fun callee => ?_
  · exact agrees_choice_cons falls_listWeight advances_reference.agrees
      (agrees_choice_cons falls_listWeight (agrees_parenthesized h) agrees_choice_nil)
  · exact agrees_bind falls_listWeight (agrees_collect falls_listWeight (agrees_application h))
      fun lists => (advances_pure _).agrees

lemma agrees_list : Agrees Token.listWeight (n + 1) (list g) (list g') :=
  agrees_get fun _ =>
    agrees_bind_of_encloses (encloses_groupOf _ _) fun _ hinner =>
      agrees_bind falls_listWeight (agrees_within (agrees_commaList h) hinner) fun _ =>
        agrees_get fun _ => (advances_pure _).agrees

lemma agrees_otherwiseCase :
    Agrees Token.listWeight (n + 1) (otherwiseCase g) (otherwiseCase g') :=
  agrees_bind_of_passes falls_listWeight (passes_word _) fun _ =>
    agrees_bind falls_listWeight advances_gap.agrees fun _ =>
      agrees_bind falls_listWeight h fun _ => (advances_pure _).agrees

lemma agrees_whenCase : Agrees Token.listWeight n (whenCase g) (whenCase g') :=
  agrees_bind falls_listWeight (agrees_notAhead h) fun _ =>
    agrees_bind falls_listWeight advances_gap.agrees fun _ =>
      agrees_bind falls_listWeight (passes_symbol _).advances.agrees fun _ =>
        agrees_bind falls_listWeight advances_gap.agrees fun _ =>
          agrees_bind falls_listWeight h fun _ => (advances_pure _).agrees

lemma agrees_nextCase : Agrees Token.listWeight n (nextCase g) (nextCase g') := by
  refine agrees_get fun c => ?_
  split
  · exact (advances_pure _).agrees
  · refine agrees_bind falls_listWeight ?_ fun _ => (advances_pure _).agrees
    exact agrees_choice_cons falls_listWeight ((agrees_otherwiseCase h).mono (Nat.le_succ n))
      (agrees_choice_cons falls_listWeight (agrees_whenCase h) agrees_choice_nil)

lemma agrees_cases : Agrees Token.listWeight n (cases g) (cases g') := by
  have hseparator : Advances (choice [comma, lineBreak]) :=
    advances_of_agrees fun _ => agrees_choice_cons falls_length advances_comma.agrees
      (agrees_choice_cons falls_length advances_lineBreak.agrees agrees_choice_nil)
  exact agrees_bind falls_listWeight advances_gap.agrees fun _ =>
    agrees_bind falls_listWeight
      (agrees_separated falls_listWeight (agrees_nextCase h) hseparator) fun _ =>
        agrees_bind falls_listWeight advances_gap.agrees fun _ => (advances_pure _).agrees

lemma agrees_switch : Agrees Token.listWeight (n + 1) (switch g) (switch g') := by
  refine agrees_get fun c => agrees_bind falls_listWeight (passes_word _).advances.agrees fun _ => ?_
  refine agrees_bind falls_listWeight ?_ fun _ => agrees_get fun _ => (advances_pure _).agrees
  refine agrees_choice_cons falls_listWeight ?_ (agrees_choice_cons falls_listWeight ?_
    agrees_choice_nil)
  · exact agrees_bind_of_encloses encloses_block fun _ hinner =>
      agrees_within (agrees_cases h) hinner
  · exact agrees_bind falls_listWeight advances_space.agrees fun _ =>
      agrees_bind falls_listWeight (agrees_otherwiseCase h) fun _ => (advances_pure _).agrees

lemma agrees_primary : Agrees Token.listWeight (n + 1) (primary g) (primary g') :=
  agrees_choice_cons falls_listWeight advances_literal.agrees
    (agrees_choice_cons falls_listWeight (agrees_switch h)
      (agrees_choice_cons falls_listWeight (agrees_call h)
        (agrees_choice_cons falls_listWeight (agrees_list h) agrees_choice_nil)))

lemma agrees_operand : Agrees Token.listWeight (n + 1) (operand g) (operand g') := by
  refine agrees_choice_cons falls_listWeight ?_
    (agrees_choice_cons falls_listWeight (agrees_primary h) agrees_choice_nil)
  exact agrees_bind falls_listWeight (passes_symbol _).advances.agrees fun _ =>
    agrees_bind falls_listWeight (agrees_primary h) fun _ => (advances_pure _).agrees

lemma agrees_operation : Agrees Token.listWeight (n + 1) (operation g) (operation g') :=
  agrees_bind falls_listWeight advances_space.agrees fun _ =>
    agrees_bind falls_listWeight passes_infixOperator.advances.agrees fun _ =>
      agrees_bind falls_listWeight advances_gap.agrees fun _ =>
        agrees_bind falls_listWeight (agrees_operand h) fun _ => (advances_pure _).agrees

lemma agrees_chain : Agrees Token.listWeight (n + 1) (chain g) (chain g') := by
  refine agrees_bind falls_listWeight (agrees_operand h) fun first => ?_
  refine agrees_bind falls_listWeight (agrees_many falls_listWeight (agrees_operation h)) ?_
  rintro (_ | ⟨link, links⟩)
  · exact (advances_pure _).agrees
  · refine Advances.agrees ?_
    unfold chain.liftExcept
    dsimp only
    split
    · exact advances_pure _
    · exact advances_throw _

lemma agrees_definition : Agrees Token.listWeight (n + 1) (definition g) (definition g') :=
  agrees_get fun _ =>
    agrees_bind_of_passes falls_listWeight passes_name fun _ =>
      agrees_bind falls_listWeight advances_gap.agrees fun _ =>
        agrees_bind falls_listWeight (passes_symbol _).advances.agrees fun _ =>
          agrees_bind falls_listWeight advances_gap.agrees fun _ =>
            agrees_bind falls_listWeight h fun _ => agrees_get fun _ => (advances_pure _).agrees

lemma agrees_definitions : Agrees Token.listWeight n (definitions g) (definitions g') :=
  agrees_bind falls_listWeight advances_gap.agrees fun _ =>
    agrees_bind falls_listWeight (agrees_separated falls_listWeight
      (agrees_optional ((agrees_definition h).mono (Nat.le_succ n))) advances_lineBreak) fun _ =>
        agrees_bind falls_listWeight advances_gap.agrees fun _ => (advances_pure _).agrees

lemma agrees_whereClause : Agrees Token.listWeight (n + 1) (whereClause g) (whereClause g') := by
  refine agrees_bind falls_listWeight advances_space.agrees fun _ =>
    agrees_bind falls_listWeight (passes_word _).advances.agrees fun _ => ?_
  refine agrees_choice_cons falls_listWeight ?_ (agrees_choice_cons falls_listWeight ?_
    agrees_choice_nil)
  · exact agrees_bind_of_encloses encloses_block fun _ hinner =>
      agrees_within (agrees_definitions h) hinner
  · exact agrees_bind falls_listWeight advances_space.agrees fun _ =>
      agrees_bind falls_listWeight (agrees_definition h) fun _ => (advances_pure _).agrees

lemma agrees_closure : Agrees Token.listWeight (n + 1) (closure g) (closure g') := by
  refine agrees_get fun _ => agrees_bind falls_listWeight advances_parameters.agrees fun _ =>
    agrees_bind falls_listWeight advances_gap.agrees fun _ => ?_
  refine agrees_bind_of_passes falls_listWeight (passes_symbol _) fun _ =>
    agrees_bind falls_listWeight advances_gap.agrees fun _ =>
      agrees_bind falls_listWeight h fun result => ?_
  exact agrees_bind falls_listWeight
    (agrees_optional ((agrees_whereClause h).mono (Nat.le_succ n))) fun _ =>
      agrees_get fun _ => (advances_pure _).agrees

lemma agrees_closureOrChain :
    Agrees Token.listWeight (n + 1) (closureOrChain g) (closureOrChain g') :=
  agrees_choice_cons falls_listWeight (agrees_closure h)
    (agrees_choice_cons falls_listWeight (agrees_chain h) agrees_choice_nil)

end Rules

/-- A formula is a closure or a chain of formulas. -/
theorem formula_eq : formula = closureOrChain formula :=
  fix_eq (fun _ _ _ h _ => agrees_closureOrChain (h ())) ()

end Formulary.Grammar

namespace Formulary

open Text Parsing

/-! ## Programs -/

/-- A program is read from the whole row of its tokens. -/
lemma DefinitionSet.ofTokens_inv {tokens : List (Located Token)} {p : DefinitionSet.Placed}
    (h : DefinitionSet.ofTokens tokens = .ok p) :
    ∃ ds c, Grammar.definitions Grammar.formula (Cursor.before tokens (Token.rowSpan tokens)) =
      .ok ds c ∧ c.rest = [] ∧ p = DefinitionSet.ofDefinitions ds := by
  unfold DefinitionSet.ofTokens at h
  dsimp only at h
  split at h
  · rename_i ds c hrun
    cases h
    obtain ⟨-, c₁, hdefinitions, hend⟩ := within_inv hrun
    exact ⟨ds, c₁, hdefinitions, hend, rfl⟩
  · cases h

end Formulary
