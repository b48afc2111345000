/-
# What the rules of the grammar fail with

A property that the combinators keep holds of every failure of a rule, if the places at the
beginning of a group have what it is said of.  What is said begins with one of a few texts and goes
on with what was found, or it is about a number or a reserved name.  In particular no chain is left
over: the operators of a chain that was read stand between operands, so it can be folded.
-/
import Formulary.Proofs.Operator.Climbing
import Formulary.Proofs.Grammar.Recursion
import Formulary.Proofs.Parsing.Failures

namespace Formulary

open Text Parsing

/-! ## What is said -/

/-- What is expected somewhere. -/
def Grammar.expectations : List String :=
  ["whitespace", "a line break", "`,`", "`(...)`", "`[...]`",
    "an indented block or `\x7b...\x7d`", "an identifier", "a literal", "an infix operator",
    "`-`", "`=`", "`->`", "`=>`", "`switch`", "`otherwise`", "`where`"]

/-- What the rules say at a place. -/
inductive Grammar.Says (c : Cursor Token) : String → Prop
  | expected {what : String} (h : what ∈ expectations) :
      Says c s!"expected {what}, found {c.describeNext}"
  | unexpected : Says c c.unexpected
  | reserved {name : String} {raw : Bool} {span : Span} {rest : List (Located Token)}
      (hrest : c.rest = ⟨.ident name raw, span⟩ :: rest) :
      Says c s!"`{name}` is reserved and cannot be used as a name"
  | invalidNumber : Says c "invalid number literal: invalid float literal"
  | numberOutOfRange : Says c "number literal out of range"

/-- The properties are kept by the combinators, and that of the places also holds at the beginning
of a group. -/
structure Parsing.Failure.KeptByRules (K : Cursor Token → Prop) (P : Failure → Prop) : Prop
    extends Failure.Kept K Grammar.Says P where
  enter : ∀ c kind tokens span rest, K c → c.rest = ⟨.group kind tokens, span⟩ :: rest →
    K (Cursor.before tokens span)

namespace Grammar

variable {K : Cursor Token → Prop} {P : Failure → Prop} {α : Type}

lemma expects_of_mem {what : String} (h : what ∈ expectations) : Expects Says what :=
  fun _ => .expected h

/-! ## Tokens -/

section Tokens

variable (hP : Failure.Kept K Says P)

include hP

lemma blames_token {what : String} (h : what ∈ expectations) (holds : Token → Bool) :
    Blames K (satisfying what holds) P := blames_satisfying hP (expects_of_mem h) holds

lemma blames_word {w : String} (h : s!"`{w}`" ∈ expectations) : Blames K (word w) P :=
  blames_token hP h _

lemma blames_symbol {s : String} (h : s!"`{s}`" ∈ expectations) : Blames K (symbol s) P :=
  blames_token hP h _

lemma blames_space : Blames K Grammar.space P :=
  blames_bind (blames_many (blames_token hP (by decide) _)) fun _ => blames_pure ()

lemma blames_gap : Blames K gap P :=
  blames_bind (blames_many (blames_token hP (by decide) _)) fun _ => blames_pure ()

lemma blames_lineBreak : Blames K lineBreak P :=
  blames_bind (blames_space hP) fun _ => blames_bind (blames_token hP (by decide) _) fun _ =>
    blames_gap hP

lemma blames_comma : Blames K comma P :=
  blames_bind (blames_gap hP) fun _ => blames_bind (blames_token hP (by decide) _) fun _ =>
    blames_gap hP

lemma blames_name : Blames K name P := by
  intro c hc
  unfold name
  split
  · rename_i hrest
    split
    · exact hc.because hP (.reserved hrest)
    · exact hc.pass hP hrest
  · exact hc.expected hP (expects_of_mem (by decide))

lemma blames_reference : Blames K reference P :=
  blames_get fun _ _ => blames_bind (blames_name hP) fun _ => blames_pure _

lemma blames_infixOperator : Blames K infixOperator P := by
  intro c hc
  unfold infixOperator
  split
  · rename_i hrest
    split
    · exact hc.pass hP hrest
    · exact hc.expected hP (expects_of_mem (by decide))
  · exact hc.expected hP (expects_of_mem (by decide))

lemma blames_commaList {m : Parser Token α} (hm : Blames K m P) :
    Blames K (commaList m) P :=
  blames_bind (blames_gap hP) fun _ =>
    blames_bind (blames_separated (blames_optional hm) (blames_comma hP)) fun _ =>
      blames_bind (blames_gap hP) fun _ => blames_pure _

end Tokens

/-! ## Groups -/

section Groups

variable (hP : Failure.KeptByRules K P)

include hP

lemma blames_groupOf {what : String} (h : what ∈ expectations) (accepts : GroupKind → Bool) :
    Blames K (groupOf what accepts) P := by
  intro c hc
  unfold groupOf
  split
  · rename_i hrest
    split
    · exact hc.pass hP.toKept hrest
    · exact hc.expected hP.toKept (expects_of_mem h)
  · exact hc.expected hP.toKept (expects_of_mem h)

/-- What comes after a group may rely on the place at its beginning. -/
lemma blames_groupOf_bind {what : String} (h : what ∈ expectations) {accepts : GroupKind → Bool}
    {f : Cursor Token → Parser Token α} (hf : ∀ inner, inner.Records K P → Blames K (f inner) P) :
    Blames K (groupOf what accepts >>= f) P := by
  intro c hc
  have hgroup := blames_groupOf hP h accepts hc
  show Outcome.Blames K P (EStateM.bind (groupOf what accepts) f c)
  unfold EStateM.bind
  cases hrun : groupOf what accepts c with
  | ok inner c' =>
    rw [hrun] at hgroup
    obtain ⟨kind, tokens, span, rest, -, hrest, rfl, rfl⟩ := groupOf_inv hrun
    exact hf (Cursor.before tokens span)
      ⟨hP.enter c.fork _ _ _ _ hc.place hrest, fun f hf => by cases hf⟩ hgroup
  | error e c' =>
    rw [hrun] at hgroup
    exact hgroup

lemma blames_inParens {m : Parser Token α} (hm : Blames K m P) :
    Blames K (do within (← parens) m) P :=
  blames_groupOf_bind hP (by decide) fun _ hinner => blames_within hP.toKept hinner hm

lemma blames_inBlock {m : Parser Token α} (hm : Blames K m P) :
    Blames K (do within (← block) m) P := by
  rw [block, bind_assoc]
  exact blames_bind (blames_space hP.toKept) fun _ =>
    blames_groupOf_bind hP (by decide) fun _ hinner => blames_within hP.toKept hinner hm

lemma blames_parameters : Blames K parameters P := by
  refine blames_choice hP.toKept (forall_mem_pair ?_ ?_)
  · exact blames_bind (blames_name hP.toKept) fun _ => blames_pure _
  · exact blames_inParens hP (blames_commaList hP.toKept (blames_name hP.toKept))

end Groups

/-! ## Rules -/

section Rules

variable (hP : Failure.KeptByRules K P)

include hP

/-- What is said of a literal is said of its token. -/
lemma blames_literalShape {token : Located Token} {c : Cursor Token} (hc : c.Records K P)
    (hspan : c.span = token.span) {f : Failure} (h : literalShape? token = some (.error f)) :
    P f := by
  unfold literalShape? at h
  split at h
  · cases h
  · cases h
  · rename_i whole fraction _
    cases hvalue : numberValue token.span whole fraction with
    | ok value =>
      rw [hvalue] at h
      cases h
    | error g =>
      rw [hvalue] at h
      cases h
      rw [numberValue, ← hspan] at hvalue
      split at hvalue
      · cases hvalue
        exact hc.because hP.toKept .invalidNumber
      · split at hvalue
        · cases hvalue
        · cases hvalue
          exact hP.fatal _ (hc.because hP.toKept .numberOutOfRange)
  · cases h
  · cases h

lemma blames_literal : Blames K Grammar.literal P := by
  refine blames_peek_bind hP.toKept fun token c hc hspan => ?_
  cases hshape : literalShape? token with
  | none => exact hc.expected hP.toKept (expects_of_mem (by decide))
  | some result =>
    cases result with
    | ok shape => exact blames_bind (blames_next hP.toKept) (fun _ => blames_pure _) hc
    | error f => exact blames_literalShape hP hc hspan hshape

variable {formula : Parser Token Formula.Placed} (h : Blames K formula P)

include h

lemma blames_parenthesized : Blames K (parenthesized formula) P :=
  blames_inParens hP (blames_bind (blames_gap hP.toKept) fun _ => blames_bind h fun _ =>
    blames_bind (blames_gap hP.toKept) fun _ => blames_pure _)

lemma blames_application : Blames K (application formula) P := by
  have hlist : Blames K
      (do Grammar.space; arguments formula : Parser Token (List Formula.Placed)) P :=
    blames_bind (blames_space hP.toKept) fun _ =>
      blames_inParens hP (blames_commaList hP.toKept h)
  refine blames_bind (blames_optional hlist) ?_
  rintro (_ | list)
  · exact blames_pure _
  · exact blames_get fun _ _ => blames_pure _

lemma blames_call : Blames K (call formula) P := by
  have hcallee : Blames K (choice [reference, parenthesized formula]) P := by
    refine blames_choice hP.toKept (forall_mem_pair ?_ ?_)
    · exact blames_reference hP.toKept
    · exact blames_parenthesized hP h
  exact blames_get fun _ _ => blames_bind hcallee fun _ =>
    blames_bind (blames_collect (blames_application hP h)) fun _ => blames_pure _

lemma blames_list : Blames K (list formula) P := by
  refine blames_get fun _ _ => blames_groupOf_bind hP (by decide) fun _ hinner => ?_
  exact blames_bind (blames_within hP.toKept hinner (blames_commaList hP.toKept h))
    fun _ => blames_get fun _ _ => blames_pure _

lemma blames_otherwiseCase : Blames K (otherwiseCase formula) P :=
  blames_bind (blames_word hP.toKept (by decide)) fun _ =>
    blames_bind (blames_gap hP.toKept) fun _ => blames_bind h fun _ => blames_pure _

lemma blames_whenCase : Blames K (whenCase formula) P :=
  blames_bind (blames_notAhead hP.toKept (blames_word hP.toKept (by decide)) h) fun _ =>
    blames_bind (blames_gap hP.toKept) fun _ =>
      blames_bind (blames_symbol hP.toKept (by decide)) fun _ =>
        blames_bind (blames_gap hP.toKept) fun _ => blames_bind h fun _ => blames_pure _

lemma blames_cases : Blames K (cases formula) P := by
  have hnext : Blames K (nextCase formula) P := by
    refine blames_get fun c _ => ?_
    split
    · exact blames_pure _
    · refine blames_bind (blames_choice hP.toKept (forall_mem_pair ?_ ?_)) fun _ => blames_pure _
      · exact blames_otherwiseCase hP h
      · exact blames_whenCase hP h
  have hseparator : Blames K (choice [comma, lineBreak]) P := by
    refine blames_choice hP.toKept (forall_mem_pair ?_ ?_)
    · exact blames_comma hP.toKept
    · exact blames_lineBreak hP.toKept
  exact blames_bind (blames_gap hP.toKept) fun _ =>
    blames_bind (blames_separated hnext hseparator) fun _ =>
      blames_bind (blames_gap hP.toKept) fun _ => blames_pure _

lemma blames_switch : Blames K (switch formula) P := by
  refine blames_get fun _ _ => blames_bind (blames_word hP.toKept (by decide)) fun _ =>
    blames_bind (blames_choice hP.toKept (forall_mem_pair ?_ ?_)) fun _ =>
      blames_get fun _ _ => blames_pure _
  · exact blames_inBlock hP (blames_cases hP h)
  · exact blames_bind (blames_space hP.toKept) fun _ =>
      blames_bind (blames_otherwiseCase hP h) fun _ => blames_pure _

lemma blames_primary : Blames K (primary formula) P := by
  refine blames_choice hP.toKept fun m hm => ?_
  simp only [List.mem_cons, List.not_mem_nil, or_false] at hm
  rcases hm with rfl | rfl | rfl | rfl
  · exact blames_literal hP
  · exact blames_switch hP h
  · exact blames_call hP h
  · exact blames_list hP h

lemma blames_operand : Blames K (operand formula) P := by
  refine blames_choice hP.toKept (forall_mem_pair ?_ ?_)
  · exact blames_bind (blames_symbol hP.toKept (by decide)) fun _ =>
      blames_bind (blames_primary hP h) fun _ => blames_pure _
  · exact blames_primary hP h

omit hP h in
/-- What is read after an operand is an operator and another operand. -/
lemma gives_operation (formula : Parser Token Formula.Placed) :
    Gives (operation formula) fun links => ∃ s : Step Formula.Placed, links = s.links :=
  gives_bind_any fun _ => gives_bind_any fun operator => gives_bind_any fun _ =>
    gives_bind_any fun right => gives_pure ⟨(operator, right), rfl⟩

lemma blames_operation : Blames K (operation formula) P :=
  blames_bind (blames_space hP.toKept) fun _ =>
    blames_bind (blames_infixOperator hP.toKept) fun _ =>
      blames_bind (blames_gap hP.toKept) fun _ => blames_bind (blames_operand hP h) fun _ =>
        blames_pure _

omit hP h in
/-- Rows of links that are steps each are the links of steps. -/
lemma exists_steps {rows : List (List (Link Formula.Placed))}
    (h : ∀ links ∈ rows, ∃ s : Step Formula.Placed, links = s.links) :
    ∃ steps : List (Step Formula.Placed), rows.flatten = steps.flatMap Step.links := by
  induction rows with
  | nil => exact ⟨[], rfl⟩
  | cons links rows ih =>
    rw [List.forall_mem_cons] at h
    obtain ⟨⟨s, rfl⟩, hrows⟩ := h
    obtain ⟨steps, hsteps⟩ := ih hrows
    exact ⟨s :: steps, by rw [List.flatten_cons, hsteps, List.flatMap_cons]⟩

/-- A chain that was read can be folded. -/
lemma blames_chain : Blames K (chain formula) P := by
  refine blames_bind (blames_operand hP h) fun first =>
    blames_bind_of_gives (blames_many (blames_operation hP h))
      (gives_many (gives_operation formula)) fun rows hrows => ?_
  cases rows with
  | nil => exact blames_pure _
  | cons links rows =>
    obtain ⟨steps, hsteps⟩ := exists_steps hrows
    show Blames K (chain.liftExcept
      (Formula.joining.fold (.operand first :: (links :: rows).flatten))) P
    rw [hsteps, Joining.fold_chain]
    exact blames_pure _

lemma blames_definition : Blames K (definition formula) P :=
  blames_get fun _ _ => blames_bind (blames_name hP.toKept) fun _ =>
    blames_bind (blames_gap hP.toKept) fun _ =>
      blames_bind (blames_symbol hP.toKept (by decide)) fun _ =>
        blames_bind (blames_gap hP.toKept) fun _ => blames_bind h fun _ =>
          blames_get fun _ _ => blames_pure _

lemma blames_definitions : Blames K (definitions formula) P :=
  blames_bind (blames_gap hP.toKept) fun _ =>
    blames_bind (blames_separated (blames_optional (blames_definition hP h))
      (blames_lineBreak hP.toKept)) fun _ =>
      blames_bind (blames_gap hP.toKept) fun _ => blames_pure _

lemma blames_whereClause : Blames K (whereClause formula) P := by
  refine blames_bind (blames_space hP.toKept) fun _ =>
    blames_bind (blames_word hP.toKept (by decide)) fun _ =>
      blames_choice hP.toKept (forall_mem_pair ?_ ?_)
  · exact blames_inBlock hP (blames_definitions hP h)
  · exact blames_bind (blames_space hP.toKept) fun _ =>
      blames_bind (blames_definition hP h) fun _ => blames_pure _

lemma blames_closure : Blames K (closure formula) P :=
  blames_get fun _ _ => blames_bind (blames_parameters hP) fun _ =>
    blames_bind (blames_gap hP.toKept) fun _ =>
      blames_bind (blames_symbol hP.toKept (by decide)) fun _ =>
        blames_bind (blames_gap hP.toKept) fun _ => blames_bind h fun _ =>
          blames_bind (blames_optional (blames_whereClause hP h)) fun _ =>
            blames_get fun _ _ => blames_pure _

lemma blames_closureOrChain : Blames K (closureOrChain formula) P := by
  refine blames_choice hP.toKept (forall_mem_pair ?_ ?_)
  · exact blames_closure hP h
  · exact blames_chain hP h

end Rules

/-- Every failure of a formula has a property that the rules keep. -/
theorem blames_formula (hP : Failure.KeptByRules K P) : Blames K formula P :=
  blames_fix hP.toKept (fun _ hg _ => blames_closureOrChain hP (hg ())) ()

end Grammar

/-- Every failure of a program has a property that the rules keep from the beginning of its row. -/
theorem DefinitionSet.holds_of_ofTokens_at {K : Cursor Token → Prop} {P : Failure → Prop}
    (hP : Failure.KeptByRules K P) {tokens : List (Located Token)} {f : Failure}
    (hstart : K (Cursor.before tokens (Token.rowSpan tokens)))
    (h : DefinitionSet.ofTokens tokens = .error f) : P f := by
  have hrecords : (Cursor.before tokens (Token.rowSpan tokens)).Records K P :=
    ⟨hstart, fun f hf => by cases hf⟩
  have hwithin := blames_within hP.toKept hrecords
    (Grammar.blames_definitions hP (Grammar.blames_formula hP)) hrecords
  unfold DefinitionSet.ofTokens at h
  dsimp only at h
  split at h
  · cases h
  · rename_i hrun
    rw [hrun] at hwithin
    cases h
    exact hwithin

/-- Every failure of a program has a property that the rules keep at any place. -/
theorem DefinitionSet.holds_of_ofTokens {P : Failure → Prop}
    (hP : Failure.KeptByRules (fun _ => True) P) {tokens : List (Located Token)} {f : Failure}
    (h : DefinitionSet.ofTokens tokens = .error f) : P f :=
  DefinitionSet.holds_of_ofTokens_at hP trivial h

/-! ## Chains are folded -/

/-- Neither the failure nor any of its alternatives is about a chain that cannot be folded. -/
inductive Parsing.Failure.Plain : Failure → Prop
  | message (span : Span) (text : String) (fatal : Bool) : Plain ⟨span, .message text, fatal⟩
  | endOfInput (span : Span) (fatal : Bool) : Plain ⟨span, .endOfInput, fatal⟩
  | alternatives (span : Span) (fatal : Bool) {fs : List Failure} (h : ∀ f ∈ fs, Plain f) :
    Plain ⟨span, .alternatives fs, fatal⟩

lemma Parsing.Failure.Plain.toFatal {f : Failure} (h : f.Plain) : f.toFatal.Plain := by
  cases h with
  | message => exact .message _ _ _
  | endOfInput => exact .endOfInput _ _
  | alternatives _ _ hall => exact .alternatives _ _ hall

lemma Parsing.Failure.keptByRules_plain : Failure.KeptByRules (fun _ => True) Failure.Plain where
  pass _ _ _ _ _ := trivial
  unexpected _ := .unexpected
  because _ _ _ _ := .message _ _ _
  endOfInput _ _ _ := .endOfInput _ _
  fatal _ h := h.toFatal
  alternatives _ _ _ h _ := .alternatives _ _ h
  enter _ _ _ _ _ _ _ := trivial

/-- Links are folded exactly if they alternate, and then to the only operation with these links
that is grouped as the classes of operators demand, which is the one that climbing reads.  Links that
do not alternate are never read: no failure of a program comes from folding. -/
theorem fold_spec :
    (∀ {α : Type} (J : Joining α) (links : List (Link α)),
      (Alternates links → ∃ first steps, links = .operand first :: steps.flatMap Step.links ∧
        J.fold links = .ok ((Operation.ofChain first steps).value J) ∧
        (Operation.ofChain first steps).Grouped ∧ (Operation.ofChain first steps).links = links ∧
        ∀ x : Operation α, x.Grouped → x.links = links → x = Operation.ofChain first steps) ∧
      (¬ Alternates links → ∃ f, J.fold links = .error f ∧ Joining.Unfoldable f)) ∧
    ∀ (tokens : List (Located Token)) (f : Failure),
      DefinitionSet.ofTokens tokens = .error f → f.Plain := by
  refine ⟨fun J links => ⟨fun h => ?_, Joining.fold_of_not_alternates⟩, fun tokens f h =>
    DefinitionSet.holds_of_ofTokens Failure.keptByRules_plain h⟩
  obtain ⟨first, steps, rfl⟩ := exists_of_alternates h
  obtain ⟨hgrouped, hlinks⟩ := Operation.ofChain_spec first steps
  exact ⟨first, steps, rfl, Joining.fold_chain first steps, hgrouped, hlinks,
    fun x hx heq => Operation.eq_of_links_eq hx hgrouped (heq.trans hlinks.symm)⟩

/-- Links that alternate, links that do not, and a program that ends after an operator.  The operator
without a class is the loosest, and the sum is the left part of the difference. -/
theorem fold_spec_of_sum :
    let J : Joining String := ⟨fun s a b => s!"({a} {s.value} {b})", fun _ => {}⟩
    let chain : List (Link String) := [.operand "a", .operator ⟨"@@", {}⟩, .operand "b",
      .operator ⟨"+", {}⟩, .operand "c", .operator ⟨"*", {}⟩, .operand "d",
      .operator ⟨"-", {}⟩, .operand "e"]
    J.fold chain = .ok "(a @@ ((b + (c * d)) - e))" ∧
      (∃ f, J.fold [.operand "a", .operator ⟨"+", {}⟩] = .error f ∧ Joining.Unfoldable f) ∧
      ∃ f, DefinitionSet.ofTokens [⟨.ident "x" false, {}⟩, ⟨.operator "=", {}⟩,
        ⟨.ident "a" false, {}⟩, ⟨.operator "+", {}⟩] = .error f ∧ f.Plain := by
  intro J chain
  let x : Operation String := .apply ⟨"@@", {}⟩ (.operand "a")
    (.apply ⟨"-", {}⟩ (.apply ⟨"+", {}⟩ (.operand "b")
      (.apply ⟨"*", {}⟩ (.operand "c") (.operand "d"))) (.operand "e"))
  obtain ⟨first, steps, -, hfold, -, -, hunique⟩ := (fold_spec.1 J chain).1 trivial
  rw [← hunique x (by decide) rfl] at hfold
  refine ⟨hfold, (fold_spec.1 J [.operand "a", .operator ⟨"+", {}⟩]).2 fun h => h, ?_⟩
  have hnone : (DefinitionSet.ofTokens [⟨.ident "x" false, {}⟩, ⟨.operator "=", {}⟩,
      ⟨.ident "a" false, {}⟩, ⟨.operator "+", {}⟩]).toOption.isNone = true := by
    decide +kernel
  cases hrun : DefinitionSet.ofTokens [⟨.ident "x" false, {}⟩, ⟨.operator "=", {}⟩,
      ⟨.ident "a" false, {}⟩, ⟨.operator "+", {}⟩] with
  | ok p =>
    rw [hrun] at hnone
    cases hnone
  | error f => exact ⟨f, rfl, fold_spec.2 _ f hrun⟩

end Formulary
