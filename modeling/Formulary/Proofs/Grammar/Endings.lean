/-
# What formulas end with

The last token of a formula, or of a row of definitions, that is no white space is a name, a
literal or a group.  So a row that is read as definitions never breaks off after an operator or
another token that white space, even with line breaks, may follow in the midst of a formula.

A parser closes a row if what it passes ends with such a token, and backs one if what it passes
could be put in front of any row without changing its end for the worse.  Both are carried
backwards through sequences, from the tokens to come to those passed.
-/
import Formulary.Proofs.Grammar.Recursion
import Formulary.Proofs.Parsing.Results

namespace Formulary

open Text Word Parsing

namespace Token

/-- The tokens that a formula may end with. -/
def endsFormula : Token → Bool
  | ident name raw => raw || !isReserved name
  | number .. | bool _ | null | text _ | group .. => true
  | operator _ | comma | space | lineBreak => false

/-- The tokens of a row that are no white space. -/
def solids (ts : List (Located Token)) : List (Located Token) := ts.filter fun t => !t.value.isGap

/-- A formula may end with the last token of the row that is no white space. -/
def Finished (ts : List (Located Token)) : Prop :=
  ∃ t, (solids ts).getLast? = some t ∧ t.value.endsFormula = true

/-- The row is finished or nothing but white space. -/
def Ended (ts : List (Located Token)) : Prop := solids ts = [] ∨ Finished ts

variable {ts us : List (Located Token)} {t : Located Token}

lemma solids_append (ts us : List (Located Token)) : solids (ts ++ us) = solids ts ++ solids us :=
  List.filter_append _ _

lemma solids_cons (h : t.value.isGap = false) (ts : List (Located Token)) :
    solids (t :: ts) = t :: solids ts := by
  simp [solids, h]

lemma solids_cons_of_isGap (h : t.value.isGap = true) (ts : List (Located Token)) :
    solids (t :: ts) = solids ts := by
  simp [solids, h]

lemma isGap_of_endsFormula {t : Token} (h : t.endsFormula = true) : t.isGap = false := by
  cases t with
  | space => cases h
  | lineBreak => cases h
  | _ => rfl

lemma ended_nil : Ended [] := .inl rfl

/-- A finished row stays finished with more in front of it. -/
lemma Finished.of_suffix (h : Finished us) (hsuffix : us <:+ ts) : Finished ts := by
  obtain ⟨front, rfl⟩ := hsuffix
  obtain ⟨t, hlast, ht⟩ := h
  refine ⟨t, ?_, ht⟩
  rw [solids_append, List.getLast?_append, hlast]
  rfl

lemma Ended.of_suffix (h : Ended ts) (hsuffix : us <:+ ts) : Ended us := by
  obtain ⟨front, rfl⟩ := hsuffix
  by_cases hus : solids us = []
  · exact .inl hus
  · right
    obtain ⟨u, hu⟩ := Option.ne_none_iff_exists'.mp (mt List.getLast?_eq_none_iff.mp hus)
    rcases h with h | ⟨t, hlast, ht⟩
    · rw [solids_append, List.append_eq_nil_iff] at h
      exact absurd h.2 hus
    · rw [solids_append, List.getLast?_append, hu] at hlast
      exact ⟨u, hu, by cases hlast; exact ht⟩

/-- A token that a formula may end with finishes the row in front of what is ended. -/
lemma Ended.finished_cons (h : Ended ts) (ht : t.value.endsFormula = true) : Finished (t :: ts) := by
  rcases h with h | h
  · exact ⟨t, by rw [solids_cons (isGap_of_endsFormula ht), h]; rfl, ht⟩
  · exact h.of_suffix (List.suffix_cons t ts)

/-- After a token that a formula cannot end with, something is still to come. -/
lemma Ended.solids_ne_nil (h : Ended (t :: ts)) (hgap : t.value.isGap = false)
    (ht : t.value.endsFormula = false) : solids ts ≠ [] := by
  intro hnil
  rw [Ended, Finished, solids_cons hgap, hnil] at h
  rcases h with h | ⟨u, hu, hends⟩
  · cases h
  · obtain rfl : t = u := Option.some.inj hu
    rw [ht] at hends
    cases hends

lemma Ended.cons_of_isGap (h : Ended ts) (ht : t.value.isGap = true) : Ended (t :: ts) := by
  rwa [Ended, Finished, solids_cons_of_isGap ht]

end Token

namespace Grammar

open Token

/-- What the parser passes finishes the row, if what comes after is ended. -/
def Closes {α : Type} (m : Parser Token α) : Prop :=
  ∀ ⦃c a c'⦄, m c = .ok a c' → Ended c'.rest → Finished c.rest

/-- The row is ended if what comes after the parser is. -/
def Backs {α : Type} (m : Parser Token α) : Prop :=
  ∀ ⦃c a c'⦄, m c = .ok a c' → Ended c'.rest → Ended c.rest

variable {α β γ κ : Type} {m : Parser Token α} {f : α → Parser Token β}

/-! ## Steps -/

lemma Closes.backs (h : Closes m) : Backs m := fun _ _ _ hrun hended => .inr (h hrun hended)

lemma backs_pure (a : α) : Backs (pure a : Parser Token α) := by
  intro c b c' hrun hended
  obtain ⟨-, rfl⟩ := pure_inv hrun
  exact hended

lemma closes_throw (f : Failure) : Closes (throw f : Parser Token α) := fun _ _ _ hrun => by
  cases hrun

lemma closes_bind (h : Closes m) (hf : ∀ a, Backs (f a)) : Closes (m >>= f) := by
  intro c b c' hrun hended
  obtain ⟨a, c₁, hm, hrest⟩ := bind_inv hrun
  exact h hm (hf a hrest hended)

/-- What stands in front of a finished row does not matter. -/
lemma closes_bind_of_advances (h : Advances m) (hf : ∀ a, Closes (f a)) : Closes (m >>= f) := by
  intro c b c' hrun hended
  obtain ⟨a, c₁, hm, hrest⟩ := bind_inv hrun
  exact (hf a hrest hended).of_suffix (h hm)

lemma backs_bind (h : Backs m) (hf : ∀ a, Backs (f a)) : Backs (m >>= f) := by
  intro c b c' hrun hended
  obtain ⟨a, c₁, hm, hrest⟩ := bind_inv hrun
  exact h hm (hf a hrest hended)

lemma closes_get {f : Cursor Token → Parser Token α} (h : ∀ c, Closes (f c)) :
    Closes (get >>= f) := fun c _ _ hrun => h c (get_inv hrun)

lemma backs_get {f : Cursor Token → Parser Token α} (h : ∀ c, Backs (f c)) : Backs (get >>= f) :=
  fun c _ _ hrun => h c (get_inv hrun)

/-- Passing a token that a formula may end with. -/
lemma closes_of_cons (h : ∀ ⦃c a c'⦄, m c = .ok a c' →
    ∃ t, c.rest = t :: c'.rest ∧ t.value.endsFormula = true) : Closes m := by
  intro c a c' hrun hended
  obtain ⟨t, hrest, ht⟩ := h hrun
  rw [hrest]
  exact hended.finished_cons ht

/-! ## Choices and repetition -/

lemma backs_optional (h : Backs m) : Backs (Parsing.optional m) := by
  intro c o c' hrun hended
  rcases optional_inv hrun with ⟨a, c₁, hm, -, hrest⟩ | ⟨-, hrest⟩
  · rw [hrest] at hended
    exact h (c := c.fork) hm hended
  · rwa [hrest] at hended

lemma closes_choice {ms : List (Parser Token α)} (h : ∀ m ∈ ms, Closes m) : Closes (choice ms) := by
  induction ms with
  | nil => exact fun _ _ _ hrun => by cases hrun
  | cons m ms ih =>
    rw [List.forall_mem_cons] at h
    intro c a c' hrun hended
    rw [choice] at hrun
    obtain ⟨o, c₁, hfirst, hrun⟩ := bind_inv hrun
    rcases optional_inv hfirst with ⟨b, c₂, hm, rfl, hrest⟩ | ⟨rfl, hrest⟩
    · obtain ⟨-, rfl⟩ := pure_inv hrun
      rw [hrest] at hended
      exact h.1 (c := c.fork) hm hended
    · have hfinished := ih h.2 hrun hended
      rwa [hrest] at hfinished

lemma backs_many (h : Backs m) : Backs (many m) := by
  intro c as c' hrun hended
  induction hrun using many_induction with
  | stop c f c₁ _ hm hf => exact hended
  | idle c a c₁ _ hm hle => exact hended
  | more c a c₁ as c' _ _ hm hlt ih =>
    have hmore := ih hended
    rw [Cursor.rest_adopt] at hmore
    exact h (c := c.fork) hm hmore

lemma backs_collect {step : Parser Token (Option (α × Bool))} (h : Backs step) :
    Backs (collect step) := by
  intro c as c' hrun hended
  induction hrun using collect_induction with
  | done c c' _ hstep => exact h hstep hended
  | last c a goOn c' _ hstep => exact h hstep hended
  | more c a goOn c₁ as c' _ _ hstep ih => exact h hstep (ih hended)

lemma backs_separated {element : Parser Token (Option α)} {separator : Parser Token γ}
    (h : Backs element) (hseparator : Backs separator) :
    Backs (separated element separator) := by
  refine backs_collect (backs_bind h ?_)
  rintro (_ | a)
  · exact backs_pure _
  · exact backs_bind (backs_optional hseparator) fun _ => backs_pure _

lemma backs_within {inner : Cursor Token} (m : Parser Token α) : Backs (within inner m) := by
  intro c a c' hrun hended
  rwa [← (within_inv hrun).1]

theorem closes_fix {size : Cursor Token → Nat} {rules : (κ → Parser Token α) → κ → Parser Token α}
    (h : ∀ g, (∀ k, Closes (g k)) → ∀ k, Closes (rules g k)) (k : κ) :
    Closes (fix size rules k) := fun c =>
  fix_induction (motive := fun _ c o => ∀ ⦃a c'⦄, o = .ok a c' → Ended c'.rest → Finished c.rest)
    (fun _ _ _ _ hrun => by cases hrun) (fun g hg k c => @h g (fun k c => hg k c) k c) k c

/-! ## Tokens -/

/-- Passing white space. -/
lemma backs_satisfying {what : String} {holds : Token → Bool}
    (h : ∀ t, holds t = true → t.isGap = true) : Backs (Parsing.satisfying what holds) := by
  intro c a c' hrun hended
  rw [Parsing.satisfying] at hrun
  split at hrun
  · rename_i item rest hrest
    split at hrun
    · rename_i hholds
      cases hrun
      rw [hrest]
      exact Ended.cons_of_isGap hended (h _ hholds)
    · cases hrun
  · cases hrun

lemma backs_gap : Backs gap :=
  backs_bind (backs_many (backs_satisfying fun _ h => h)) fun _ => backs_pure _

lemma backs_lineBreak : Backs lineBreak := by
  have hspace : Backs space := backs_bind
    (backs_many (backs_satisfying fun t h => by rw [isGap, h, Bool.true_or])) fun _ => backs_pure _
  exact backs_bind hspace fun _ =>
    backs_bind (backs_satisfying fun t h => by rw [isGap, h, Bool.or_true]) fun _ => backs_gap

lemma closes_groupOf (what : String) (accepts : GroupKind → Bool) :
    Closes (groupOf what accepts) := by
  refine closes_of_cons fun c inner c' hrun => ?_
  obtain ⟨kind, tokens, span, rest, -, hrest, -, rfl⟩ := groupOf_inv hrun
  exact ⟨⟨.group kind tokens, span⟩, hrest, rfl⟩

lemma closes_block : Closes block := closes_bind_of_advances advances_space fun _ => closes_groupOf _ _

lemma closes_name : Closes name := by
  refine closes_of_cons fun c n c' hrun => ?_
  obtain ⟨raw, span, rest, hrest, hallowed, rfl⟩ := name_inv hrun
  refine ⟨⟨.ident n raw, span⟩, hrest, ?_⟩
  cases raw <;> simp_all [endsFormula]

lemma closes_literal : Closes Grammar.literal := by
  refine closes_of_cons fun c a c' hrun => ?_
  obtain ⟨t, rest, shape, hrest, hshape, -, rfl⟩ := literal_inv hrun
  refine ⟨t, hrest, ?_⟩
  unfold literalShape? at hshape
  split at hshape <;> rename_i hvalue <;> first | rw [hvalue]; rfl | cases hshape

lemma closes_reference : Closes reference :=
  closes_get fun _ => closes_bind closes_name fun _ => backs_pure _

/-! ## Formulas -/

section Rules

variable {g : Parser Token Formula.Placed}

lemma closes_arguments : Closes (arguments g) :=
  closes_bind (closes_groupOf _ _) fun _ => backs_within _

lemma closes_call : Closes (call g) := by
  refine closes_get fun _ => closes_bind (closes_choice ?_) fun _ => ?_
  · simp only [List.forall_mem_cons, List.not_mem_nil, false_implies, implies_true, and_true]
    exact ⟨closes_reference, closes_bind (closes_groupOf _ _) fun _ => backs_within _⟩
  · refine backs_bind (backs_collect (backs_bind (backs_optional ?_) ?_)) fun _ => backs_pure _
    · exact (closes_bind_of_advances advances_space fun _ => closes_arguments).backs
    · rintro (_ | list)
      · exact backs_pure _
      · exact backs_get fun _ => backs_pure _

lemma closes_list : Closes (list g) :=
  closes_get fun _ => closes_bind (closes_groupOf _ _) fun _ =>
    backs_bind (backs_within _) fun _ => backs_get fun _ => backs_pure _

variable (h : Closes g)

include h

lemma closes_switch : Closes (switch g) := by
  refine closes_get fun _ => closes_bind_of_advances (passes_word _).advances fun _ =>
    closes_bind (closes_choice ?_) fun _ => backs_get fun _ => backs_pure _
  simp only [List.forall_mem_cons, List.not_mem_nil, false_implies, implies_true, and_true]
  refine ⟨closes_bind closes_block fun _ => backs_within _, ?_⟩
  refine closes_bind_of_advances advances_space fun _ => closes_bind ?_ fun _ => backs_pure _
  exact closes_bind_of_advances (passes_word _).advances fun _ =>
    closes_bind_of_advances advances_gap fun _ => closes_bind h fun _ => backs_pure _

lemma closes_primary : Closes (primary g) := by
  refine closes_choice ?_
  simp only [List.forall_mem_cons, List.not_mem_nil, false_implies, implies_true, and_true]
  exact ⟨closes_literal, closes_switch h, closes_call, closes_list⟩

lemma closes_operand : Closes (operand g) := by
  refine closes_choice ?_
  simp only [List.forall_mem_cons, List.not_mem_nil, false_implies, implies_true, and_true]
  refine ⟨?_, closes_primary h⟩
  exact closes_bind_of_advances (passes_symbol _).advances fun _ =>
    closes_bind (closes_primary h) fun _ => backs_pure _

lemma closes_operation : Closes (operation g) :=
  closes_bind_of_advances advances_space fun _ =>
    closes_bind_of_advances passes_infixOperator.advances fun _ =>
      closes_bind_of_advances advances_gap fun _ =>
        closes_bind (closes_operand h) fun _ => backs_pure _

lemma closes_chain : Closes (chain g) := by
  refine closes_bind (closes_operand h) fun first =>
    backs_bind (backs_many (closes_operation h).backs) ?_
  rintro (_ | ⟨link, links⟩)
  · exact backs_pure _
  · unfold chain.liftExcept
    dsimp only
    split
    · exact backs_pure _
    · exact (closes_throw _).backs

lemma closes_definition : Closes (definition g) :=
  closes_get fun _ => closes_bind_of_advances passes_name.advances fun _ =>
    closes_bind_of_advances advances_gap fun _ =>
      closes_bind_of_advances (passes_symbol _).advances fun _ =>
        closes_bind_of_advances advances_gap fun _ =>
          closes_bind h fun _ => backs_get fun _ => backs_pure _

lemma backs_definitions : Backs (definitions g) :=
  backs_bind backs_gap fun _ =>
    backs_bind (backs_separated (backs_optional (closes_definition h).backs) backs_lineBreak)
      fun _ => backs_bind backs_gap fun _ => backs_pure _

lemma closes_whereClause : Closes (whereClause g) := by
  refine closes_bind_of_advances advances_space fun _ =>
    closes_bind_of_advances (passes_word _).advances fun _ => closes_choice ?_
  simp only [List.forall_mem_cons, List.not_mem_nil, false_implies, implies_true, and_true]
  refine ⟨closes_bind closes_block fun _ => backs_within _, ?_⟩
  exact closes_bind_of_advances advances_space fun _ =>
    closes_bind (closes_definition h) fun _ => backs_pure _

lemma closes_closure : Closes (closure g) :=
  closes_get fun _ => closes_bind_of_advances advances_parameters fun _ =>
    closes_bind_of_advances advances_gap fun _ =>
      closes_bind_of_advances (passes_symbol _).advances fun _ =>
        closes_bind_of_advances advances_gap fun _ => closes_bind h fun _ =>
          backs_bind (backs_optional (closes_whereClause h).backs) fun _ =>
            backs_get fun _ => backs_pure _

lemma closes_closureOrChain : Closes (closureOrChain g) := by
  refine closes_choice ?_
  simp only [List.forall_mem_cons, List.not_mem_nil, false_implies, implies_true, and_true]
  exact ⟨closes_closure h, closes_chain h⟩

end Rules

/-- The last token of a formula is one that a formula may end with. -/
theorem closes_formula : Closes formula :=
  closes_fix (fun _ h _ => closes_closureOrChain (h ())) ()

end Grammar

/-- A row of tokens that is read as a program ends with a token that a formula may end with, if it
is not blank. -/
theorem DefinitionSet.ended_of_ofTokens {tokens : List (Located Token)} {p : DefinitionSet.Placed}
    (h : DefinitionSet.ofTokens tokens = .ok p) : Token.Ended tokens := by
  obtain ⟨ds, c, hrun, hend, -⟩ := ofTokens_inv h
  refine Grammar.backs_definitions Grammar.closes_formula hrun ?_
  rw [hend]
  exact Token.ended_nil

end Formulary
