/-
# Everything that is read is nested in the text

Every formula that the grammar reads covers a part of the text, and so does everything in it; what
is right below lies within it, one after the other.  Parentheses around a formula are not a part of
it, but they are a part of a call that begins with them.
-/
import Formulary.Proofs.Formula.Nested
import Formulary.Proofs.Formula.Related
import Formulary.Proofs.Grammar.Extents
import Formulary.Store.Text

namespace Formulary

open Text Word Parsing Token

variable {text : List Char}

/-! ## Tokens -/

lemma Token.Writes.isTelling {t : Token} {shape : Shape Formula.Placed DefinitionSet.Placed}
    (h : t.Writes shape) : t.isTelling = true := by
  cases h with
  | name hallowed => rcases hallowed with rfl | hreserved <;> simp [Token.isTelling, *]
  | _ => rfl

/-- A token that is written for a name or a value is one in the text. -/
lemma Token.Cut.settled {t : Located Token} {shape : Shape Formula.Placed DefinitionSet.Placed}
    (h : Cut {} text t) (hwrites : t.value.Writes shape) :
    Formula.Settled text (.node t.span shape) := by
  refine Formula.settled_of_written h.partOf hwrites ?_
  obtain ⟨before, cs, after, rfl, hspan, halone⟩ := h
  refine ⟨cs, t.value, ?_, halone hwrites.isTelling, hwrites⟩
  rw [hspan]
  exact slice?_eq_some before cs after

lemma writes_of_literalShape? {t : Located Token}
    {shape : Shape Formula.Placed DefinitionSet.Placed}
    (h : Grammar.literalShape? t = some (.ok shape)) : t.value.Writes shape := by
  obtain ⟨token, span⟩ := t
  cases token with
  | null =>
    cases h
    exact .null
  | bool value =>
    cases h
    exact .bool value
  | text value =>
    cases h
    exact .text value
  | number whole fraction =>
    have hshape : (Shape.number <$> Grammar.numberValue span whole fraction) = .ok shape :=
      Option.some.inj h
    cases hvalue : Grammar.numberValue span whole fraction with
    | error f =>
      rw [hvalue] at hshape
      cases hshape
    | ok x =>
      rw [hvalue] at hshape
      cases hshape
      obtain ⟨hread, hfinite⟩ := Grammar.numberValue_eq_ok_iff.mp hvalue
      exact .number hread hfinite
  | _ => cases h

namespace Grammar

lemma lays_word (w : String) : Lays text (word w) (fun t => [t.span]) fun _ => True :=
  (lays_satisfying _ _).mono fun _ _ => trivial

lemma lays_symbol (s : String) : Lays text (symbol s) (fun t => [t.span]) fun t =>
    t.value = .operator s ∧ Cut {} text t := by
  refine (lays_satisfying _ _).mono fun t ht => ⟨?_, ht.2⟩
  obtain ⟨token, span⟩ := t
  have hsymbol := ht.1
  cases token with
  | operator s' => exact congrArg Token.operator (beq_iff_eq.mp hsymbol)
  | _ => cases hsymbol

/-- White space covers nothing that matters. -/
lemma lays_blanks (what : String) (holds : Token → Bool) :
    Lays text (do let _ ← many (satisfying what holds)) (fun _ => []) fun _ => True :=
  lays_skip (lays_many (lays_satisfying what holds)) fun _ _ => lays_pure rfl trivial

lemma lays_space : Lays text Grammar.space (fun _ => []) fun _ => True := lays_blanks _ _

lemma lays_gap : Lays text gap (fun _ => []) fun _ => True := lays_blanks _ _

lemma lays_lineBreak : Lays text Grammar.lineBreak (fun _ => []) fun _ => True :=
  lays_skip lays_space fun _ _ => lays_skip (lays_satisfying _ _) fun _ _ => lays_gap

lemma lays_comma : Lays text Grammar.comma (fun _ => []) fun _ => True :=
  lays_skip lays_gap fun _ _ => lays_skip (lays_satisfying _ _) fun _ _ => lays_gap

lemma entered_parens ⦃c inner c' : Cursor Token⦄ (h : Sound text c)
    (hrun : parens c = .ok inner c') : Entered text c inner c' := h.groupOf hrun

lemma entered_block ⦃c inner c' : Cursor Token⦄ (h : Sound text c)
    (hrun : block c = .ok inner c') : Entered text c inner c' := by
  obtain ⟨_, c₁, hspace, hrun⟩ := bind_inv hrun
  obtain ⟨honward, -⟩ := lays_space h hspace
  exact (honward.sound.groupOf hrun).before honward

lemma lays_commaList {α : Type} {m : Parser Token α} {v : α → List Span} {Q : α → Prop}
    (h : Lays text m v Q) :
    Lays text (commaList m) (fun as => as.flatMap v) fun as => ∀ a ∈ as, Q a :=
  lays_skip lays_gap fun _ _ => lays_before (lays_separated (lays_optional h) lays_comma) lays_gap

/-! ## Names and literals -/

lemma lays_name : Lays text name (fun _ => []) fun _ => True := by
  intro c n c' hc hrun
  obtain ⟨raw, span, rest, hrest, -, rfl⟩ := name_inv hrun
  exact ⟨(hc.pass hrest).1, trivial, trivial⟩

lemma lays_parameters : Lays text parameters (fun _ => []) fun _ => True :=
  lays_choice <| forall_mem_pair (lays_map lays_name (fun _ => rfl) fun _ _ => trivial)
    (lays_inGroup entered_parens (lays_commaList lays_name)).forget

/-- The parser gives a formula that is nested in the text. -/
abbrev Settles (text : List Char) (m : Parser Token Formula.Placed) : Prop :=
  Lays text m (fun f => [f.note]) (Formula.Settled text)

lemma settles_literal : Settles text Grammar.literal := by
  intro c f c' hc hrun
  obtain ⟨t, rest, shape, hrest, hshape, rfl, rfl⟩ := literal_inv hrun
  obtain ⟨honward, hspan, hcut⟩ := hc.pass hrest
  exact ⟨honward, hspan, hcut.settled (writes_of_literalShape? hshape)⟩

lemma settles_reference : Settles text reference := by
  intro c f c' hc hrun
  replace hrun := get_inv hrun
  obtain ⟨n, c₁, hname, hrun⟩ := bind_inv hrun
  obtain ⟨rfl, rfl⟩ := pure_inv hrun
  obtain ⟨raw, span, rest, hrest, hallowed, rfl⟩ := name_inv hname
  obtain ⟨honward, hspan, hcut⟩ := hc.pass hrest
  have hhere : c.span = span := by rw [Cursor.span, hrest]
  rw [hhere]
  exact ⟨honward, hspan, hcut.settled (.name hallowed)⟩

lemma lays_infixOperator : Lays text infixOperator (fun s => [s.span]) fun s =>
    Formula.Settled text (.node s.span (.name s.value)) := by
  intro c s c' hc hrun
  obtain ⟨rest, hrest, hoperator, rfl⟩ := infixOperator_inv hrun
  obtain ⟨honward, hspan, hcut⟩ := hc.pass hrest
  exact ⟨honward, hspan, hcut.settled (.operator hoperator)⟩

/-! ## Operands -/

section Rules

variable {formula : Parser Token Formula.Placed} (h : Settles text formula)

include h

lemma lays_arguments : Lays text (arguments formula) (fun fs => fs.map Formula.note) fun fs =>
    ∀ f ∈ fs, f.Settled text := by
  have hlist := lays_inGroup entered_parens (lays_commaList h)
  simp only [← List.map_eq_flatMap] at hlist
  exact hlist

lemma settles_parenthesized : Settles text (parenthesized formula) :=
  lays_inGroup entered_parens (lays_skip lays_gap fun _ _ => lays_before h lays_gap)

/-- A further argument list ends where the call ends so far. -/
lemma lays_application : Lays text (application formula)
    (fun o => o.elim [] fun b => listSpans b.1) fun o =>
      ∀ b ∈ o, Place text b.1.2 ∧ ∀ f ∈ b.1.1, f.Settled text := by
  intro c o c' hc hrun
  obtain ⟨list, c₁, hoptional, hrun⟩ := bind_inv hrun
  have hlist : Lays text (do Grammar.space; arguments formula) _ _ :=
    lays_skip lays_space fun _ _ => lays_arguments h
  obtain ⟨honward, hspans, hsettled⟩ := lays_optional hlist hc hoptional
  cases list with
  | none =>
    obtain ⟨rfl, rfl⟩ := pure_inv hrun
    exact ⟨honward, trivial, nofun⟩
  | some list =>
    replace hrun := get_inv hrun
    obtain ⟨rfl, rfl⟩ := pure_inv hrun
    -- the list has parentheses, so that it does not end in front of its beginning
    have hle : c.position.byte ≤ c'.previousEnd.byte := by
      rcases optional_run_inv hoptional with ⟨_, c₂, hbranch, -, rfl⟩ | ⟨hnone, -⟩
      · obtain ⟨_, c₃, hspace, hbranch⟩ := bind_inv hbranch
        obtain ⟨inner, c₄, hparens, hbranch⟩ := bind_inv hbranch
        obtain ⟨hfar, -⟩ := lays_space hc.fork hspace
        have hentered := entered_parens hfar.sound hparens
        rw [previousEnd_adopt, (within_inv hbranch).1]
        exact Nat.le_trans hfar.position_le hentered.position_le_previousEnd
      · cases hnone
    refine ⟨honward, ?_, ?_⟩
    · exact hspans.append (ascending_singleton (Nat.le_refl _) (Nat.le_refl _) (Nat.le_refl _))
        (Nat.le_refl _) hle
    · rintro b ⟨⟩
      exact ⟨honward.sound.previousEnd, hsettled list rfl⟩

lemma settles_call : Settles text (call formula) := by
  have hcallee : Settles text (choice [reference, parenthesized formula]) :=
    lays_choice (forall_mem_pair settles_reference (settles_parenthesized h))
  intro c f c' hc hrun
  replace hrun := get_inv hrun
  obtain ⟨callee, c₁, hfirst, hrun⟩ := bind_inv hrun
  obtain ⟨lists, c₂, hlists, hrun⟩ := bind_inv hrun
  obtain ⟨rfl, rfl⟩ := pure_inv hrun
  obtain ⟨honward, hspan, hsettled⟩ := hcallee hc hfirst
  obtain ⟨honward', hspans, hall⟩ := lays_collect (v := listSpans)
    (Q := fun l => Place text l.2 ∧ ∀ f ∈ l.1, f.Settled text) (lays_application h)
    honward.sound hlists
  obtain ⟨hcall, hcover⟩ := Formula.settled_calls hc.position
    (honward.append honward' hspan hspans) hsettled hall
  exact ⟨honward.trans honward', hcover, hcall⟩

omit h in
lemma settled_ofItems {s : Span} {items : List Formula.Placed} (hs : s.PartOf text)
    (hspans : Ascending s.start.byte s.stop.byte (items.map Formula.note))
    (hitems : ∀ f ∈ items, f.Settled text) :
    (Formula.ofItems s items).Settled text ∧ (Formula.ofItems s items).note = s := by
  unfold Formula.ofItems
  split
  · exact ⟨.intro ⟨hs, trivial⟩ nofun, rfl⟩
  · exact ⟨.intro ⟨hs, hspans.holds⟩ hitems, rfl⟩

lemma settles_list : Settles text (list formula) := by
  have hitems := lays_commaList h
  simp only [← List.map_eq_flatMap] at hitems
  intro c f c' hc hrun
  replace hrun := get_inv hrun
  obtain ⟨inner, c₁, hgroup, hrun⟩ := bind_inv hrun
  obtain ⟨items, c₂, hwithin, hrun⟩ := bind_inv hrun
  replace hrun := get_inv hrun
  obtain ⟨rfl, rfl⟩ := pure_inv hrun
  have hentered := hc.groupOf hgroup
  obtain ⟨rfl, hspans, hsettled⟩ := hentered.within hitems hwithin
  obtain ⟨hpart, hspan⟩ := hentered.onward.covers hc hentered.position_le_previousEnd
  obtain ⟨hlist, hnote⟩ := settled_ofItems hpart hspans hsettled
  refine ⟨hentered.onward, ?_, hlist⟩
  show Ascending _ _ [(Formula.ofItems (c'.spanFrom c.span) items).note]
  rwa [hnote]

/-! ## Switches -/

/-- The spans of the parts of a case. -/
def caseSpans (c : Case Formula.Placed) : List Span := c.parts.map Formula.note

/-- The parts of the case are nested in the text. -/
def CaseSettled (text : List Char) (c : Case Formula.Placed) : Prop := ∀ f ∈ c.parts, f.Settled text

lemma lays_otherwiseCase :
    Lays text (otherwiseCase formula) caseSpans (CaseSettled text) := by
  refine lays_skip (lays_word _) fun _ _ => lays_skip lays_gap fun _ _ => ?_
  exact lays_map h (fun _ => rfl) fun _ => List.forall_mem_singleton.mpr

lemma lays_whenCase : Lays text (whenCase formula) caseSpans (CaseSettled text) := by
  -- behind the condition, a case covers its value
  refine lays_append (lays_notAhead h) (u := fun a => (caseSpans a).tail) fun condition hsettled =>
    lays_skip lays_gap fun _ _ => lays_skip (lays_symbol _) fun _ _ =>
      lays_skip lays_gap fun _ _ => ?_
  exact lays_map h (fun _ => rfl) fun value hsettled' =>
    ⟨rfl, List.forall_mem_cons.mpr ⟨hsettled, List.forall_mem_singleton.mpr hsettled'⟩⟩

lemma lays_cases : Lays text (cases formula) (fun cs => cs.flatMap caseSpans) fun cs =>
    ∀ c ∈ cs, CaseSettled text c := by
  have hnext : Lays text (nextCase formula) (fun o => o.elim [] caseSpans) fun o =>
      ∀ c ∈ o, CaseSettled text c := by
    intro c o c' hc hrun
    replace hrun := get_inv hrun
    split at hrun
    · obtain ⟨rfl, rfl⟩ := pure_inv hrun
      exact ⟨hc.refl, trivial, nofun⟩
    · have hcase : Lays text (do return some (← choice [otherwiseCase formula, whenCase formula]))
          (fun o => o.elim [] caseSpans) fun o => ∀ c ∈ o, CaseSettled text c :=
        lays_map (lays_choice (forall_mem_pair (lays_otherwiseCase h) (lays_whenCase h)))
          (fun _ => rfl) fun a ha b hb => by
            cases hb
            exact ha
      exact hcase hc hrun
  exact lays_skip lays_gap fun _ _ => lays_before
    (lays_separated hnext (lays_choice (forall_mem_pair lays_comma lays_lineBreak))) lays_gap

lemma settles_switch : Settles text (switch formula) := by
  intro c f c' hc hrun
  replace hrun := get_inv hrun
  obtain ⟨w, c₁, hword, hrun⟩ := bind_inv hrun
  obtain ⟨cs, c₂, hcases, hrun⟩ := bind_inv hrun
  replace hrun := get_inv hrun
  obtain ⟨rfl, rfl⟩ := pure_inv hrun
  have hchoice : Lays text (choice [do within (← block) (cases formula),
      do Grammar.space; return [← otherwiseCase formula]]) (fun cs => cs.flatMap caseSpans)
      fun cs => ∀ c ∈ cs, CaseSettled text c :=
    lays_choice <| forall_mem_pair (lays_inGroup entered_block (lays_cases h)) <|
      lays_skip lays_space fun _ _ => lays_map (lays_otherwiseCase h)
        (fun _ => List.flatMap_singleton _ _) fun _ => List.forall_mem_singleton.mpr
  obtain ⟨honward, hspan, -⟩ := lays_word _ hc hword
  obtain ⟨honward', hspans, hsettled⟩ := hchoice honward.sound hcases
  have hparts : Ascending c.position.byte c'.previousEnd.byte
      ((cs.flatMap Case.parts).map Formula.note) := by
    rw [List.map_flatMap]
    exact hspans.mono honward.position_le (Nat.le_refl _)
  obtain ⟨hpart, hcover⟩ := (honward.trans honward').covers hc
    (Nat.le_trans hspan.le_of_cons honward'.previousEnd_le)
  refine ⟨honward.trans honward', hcover, .intro ⟨hpart, Ascending.holds hparts⟩ fun g hg => ?_⟩
  obtain ⟨a, ha, hg⟩ := List.mem_flatMap.mp hg
  exact hsettled a ha g hg

lemma settles_primary : Settles text (primary formula) := by
  refine lays_choice fun m hm => ?_
  simp only [List.mem_cons, List.not_mem_nil, or_false] at hm
  rcases hm with rfl | rfl | rfl | rfl
  · exact settles_literal
  · exact settles_switch h
  · exact settles_call h
  · exact settles_list h

/-! ## Operations -/

lemma settles_negation : Settles text (negation formula) := by
  intro c f c' hc hrun
  obtain ⟨minus, c₁, hminus, hrun⟩ := bind_inv hrun
  obtain ⟨f, c₂, hoperand, hrun⟩ := bind_inv hrun
  obtain ⟨rfl, rfl⟩ := pure_inv hrun
  obtain ⟨honward, hspan, hsymbol, hcut⟩ := lays_symbol _ hc hminus
  obtain ⟨honward', hspan', hsettled⟩ := settles_primary h honward.sound hoperand
  have hwrites : minus.value.Writes (.name "-") := by
    rw [hsymbol]
    exact .operator (by decide)
  obtain ⟨hnegation, hcover⟩ := Formula.settled_negation
    (honward.append honward' hspan hspan') hsettled (hcut.settled hwrites)
  exact ⟨honward.trans honward', hcover, hnegation⟩

lemma settles_operand : Settles text (operand formula) :=
  lays_choice (forall_mem_pair (settles_negation h) (settles_primary h))

/-- The spans of the links of a chain. -/
def linkSpans (ls : List (Link Formula.Placed)) : List Span := ls.map Formula.joining.linkSpan

lemma lays_operation : Lays text (operation formula) linkSpans fun ls =>
    ∀ l ∈ ls, l.Settled text := by
  refine lays_skip lays_space fun _ _ => lays_append lays_infixOperator
    (u := fun ls => (linkSpans ls).tail) fun symbol hsettled => lays_skip lays_gap fun _ _ => ?_
  exact lays_map (settles_operand h) (fun _ => rfl) fun right hsettled' =>
    ⟨rfl, List.forall_mem_cons.mpr ⟨hsettled, List.forall_mem_singleton.mpr hsettled'⟩⟩

lemma settles_chain : Settles text (chain formula) := by
  intro c f c' hc hrun
  obtain ⟨first, c₁, hfirst, hrun⟩ := bind_inv hrun
  obtain ⟨rows, c₂, hrows, hrun⟩ := bind_inv hrun
  obtain ⟨honward, hspan, hsettled⟩ := settles_operand h hc hfirst
  obtain ⟨honward', hspans, hall⟩ := lays_many (lays_operation h) honward.sound hrows
  cases rows with
  | nil =>
    obtain ⟨rfl, rfl⟩ := pure_inv hrun
    exact ⟨honward.trans honward', hspan.mono (Nat.le_refl _) honward'.previousEnd_le, hsettled⟩
  | cons ls rows =>
    replace hrun : chain.liftExcept
      (Formula.joining.fold (.operand first :: (ls :: rows).flatten)) c₂ = .ok f c' := hrun
    cases hfold : Formula.joining.fold (.operand first :: (ls :: rows).flatten) with
    | error e =>
      rw [hfold] at hrun
      cases hrun
    | ok g =>
      rw [hfold] at hrun
      obtain ⟨rfl, rfl⟩ := pure_inv hrun
      obtain ⟨x, -, hlinks, rfl⟩ := Joining.exists_of_fold_eq_ok hfold
      have hle := Nat.le_trans hspan.le_of_cons honward'.previousEnd_le
      -- operands and operators lie one behind the other, as they were read
      have hchain : Ascending c.position.byte c'.previousEnd.byte
          (x.links.map Formula.joining.linkSpan) := by
        rw [hlinks, List.map_cons, List.map_flatten, ← List.flatMap_def]
        exact honward.append honward' hspan hspans
      obtain ⟨hvalue, hcover⟩ := x.settled_value hle hchain (by
        rw [hlinks, List.forall_mem_cons]
        refine ⟨hsettled, fun l hl => ?_⟩
        obtain ⟨row, hrow, hl⟩ := List.mem_flatten.mp hl
        exact hall row hrow l hl)
      exact ⟨honward.trans honward', hcover, hvalue⟩

/-! ## Closures and definitions -/

lemma lays_definition : Lays text (definition formula) (fun d => [d.note])
    (Definition.Settled text) := by
  intro c d c' hc hrun
  replace hrun := get_inv hrun
  obtain ⟨n, c₁, hname, hrun⟩ := bind_inv hrun
  obtain ⟨_, c₂, hgap, hrun⟩ := bind_inv hrun
  obtain ⟨_, c₃, hequals, hrun⟩ := bind_inv hrun
  obtain ⟨_, c₄, hgap', hrun⟩ := bind_inv hrun
  obtain ⟨value, c₅, hvalue, hrun⟩ := bind_inv hrun
  replace hrun := get_inv hrun
  obtain ⟨rfl, rfl⟩ := pure_inv hrun
  obtain ⟨honward₁, -⟩ := lays_name hc hname
  obtain ⟨honward₂, -⟩ := lays_gap honward₁.sound hgap
  obtain ⟨honward₃, -⟩ := lays_symbol _ honward₂.sound hequals
  obtain ⟨honward₄, -⟩ := lays_gap honward₃.sound hgap'
  obtain ⟨honward₅, hspan, hsettled⟩ := h honward₄.sound hvalue
  have hbefore := honward₁.trans (honward₂.trans (honward₃.trans honward₄))
  have hvalue := hspan.mono hbefore.position_le (Nat.le_refl _)
  obtain ⟨hpart, hcover⟩ := (hbefore.trans honward₅).covers hc hvalue.le_of_cons
  refine ⟨hbefore.trans honward₅, hcover, ⟨hpart, ?_⟩, ?_⟩
  · rintro f ⟨⟩
    exact hvalue.bounds List.mem_cons_self
  · rintro f ⟨⟩
    exact hsettled

lemma lays_definitions : Lays text (definitions formula) (fun ds => ds.map Definition.note)
    fun ds => ∀ d ∈ ds, d.Settled text := by
  have hall : Lays text (definitions formula) _ _ := lays_skip lays_gap fun _ _ =>
    lays_before (lays_separated (lays_optional (lays_definition h)) lays_lineBreak) lays_gap
  simp only [← List.map_eq_flatMap] at hall
  exact hall

lemma lays_whereClause : Lays text (whereClause formula) (fun ds => ds.map Definition.note)
    fun ds => ∀ d ∈ ds, d.Settled text := by
  refine lays_skip lays_space fun _ _ => lays_skip (lays_word _) fun _ _ =>
    lays_choice (forall_mem_pair (lays_inGroup entered_block (lays_definitions h)) ?_)
  exact lays_skip lays_space fun _ _ =>
    lays_map (lays_definition h) (fun _ => rfl) fun _ => List.forall_mem_singleton.mpr

/-- The result of a closure is its first definition, and covers what the result covers. -/
lemma settles_closure : Settles text (closure formula) := by
  intro c f c' hc hrun
  replace hrun := get_inv hrun
  obtain ⟨ps, c₁, hparameters, hrun⟩ := bind_inv hrun
  obtain ⟨_, c₂, hgap, hrun⟩ := bind_inv hrun
  obtain ⟨_, c₃, harrow, hrun⟩ := bind_inv hrun
  obtain ⟨_, c₄, hgap', hrun⟩ := bind_inv hrun
  obtain ⟨result, c₅, hresult, hrun⟩ := bind_inv hrun
  obtain ⟨locals, c₆, hlocals, hrun⟩ := bind_inv hrun
  replace hrun := get_inv hrun
  obtain ⟨rfl, rfl⟩ := pure_inv hrun
  obtain ⟨honward₁, -⟩ := lays_parameters hc hparameters
  obtain ⟨honward₂, -⟩ := lays_gap honward₁.sound hgap
  obtain ⟨honward₃, -⟩ := lays_symbol _ honward₂.sound harrow
  obtain ⟨honward₄, -⟩ := lays_gap honward₃.sound hgap'
  obtain ⟨honward₅, hspan, hsettled⟩ := h honward₄.sound hresult
  obtain ⟨honward₆, hspans, hall⟩ := lays_optional (lays_whereClause h) honward₅.sound hlocals
  have hbefore := honward₁.trans (honward₂.trans (honward₃.trans honward₄))
  -- the result comes in front of the local definitions
  have hbody : Ascending c.position.byte c'.previousEnd.byte
      ((Definition.node result.note resultName (some result) :: locals.getD []).map
        Definition.note) := by
    have hlist : (locals.getD []).map Definition.note =
        locals.elim [] fun ds => ds.map Definition.note := by cases locals <;> rfl
    rw [List.map_cons, hlist]
    exact (honward₅.append honward₆ hspan hspans).mono hbefore.position_le (Nat.le_refl _)
  have hdefinitions : ∀ d ∈ Definition.node result.note resultName (some result) ::
      locals.getD [], d.Settled text := by
    refine List.forall_mem_cons.mpr ⟨Definition.settled_whole hsettled, ?_⟩
    cases locals with
    | none => exact nofun
    | some ds => exact hall ds rfl
  have honward := hbefore.trans (honward₅.trans honward₆)
  obtain ⟨hpart, hcover⟩ := honward.covers hc hbody.le_of_cons
  obtain ⟨hnested, hthroughout⟩ :=
    DefinitionSet.nested_ofDefinitions (s := c'.spanFrom c.span) hbody hdefinitions
  exact ⟨honward, hcover, .intro ⟨hpart, hnested⟩ hthroughout⟩

lemma settles_closureOrChain : Settles text (closureOrChain formula) :=
  lays_choice (forall_mem_pair (settles_closure h) (settles_chain h))

end Rules

/-- Every formula that is read is nested in the text, with everything in it. -/
theorem settles_formula : Settles text formula :=
  lays_fix (fun _ hg _ => settles_closureOrChain (hg ())) ()

end Grammar

/-! ## Programs -/

/-- The row of all tokens of a text. -/
lemma sound_of_lined {ts : List (Located Token)} (h : Lined {} ts text) :
    Sound text (Cursor.before ts (Token.rowSpan ts)) := by
  cases ts with
  | nil =>
    have hplace : Place text {} := ⟨[], List.nil_prefix, rfl⟩
    exact ⟨.nil (Nat.le_refl _), hplace, hplace⟩
  | cons t ts =>
    obtain ⟨u, hu⟩ : ∃ u, (t :: ts).getLast? = some u := ⟨_, List.getLast?_cons⟩
    obtain ⟨horderly, hlast, hstart, hstop⟩ := Orderly.up_to_last h hu
    have hfirst : Cut {} text t := by
      cases horderly with
      | cons here _ _ _ _ => exact here
    have hspan : Token.rowSpan (t :: ts) = t.span.hull u.span := by
      rw [Token.rowSpan, hu]
      rfl
    obtain ⟨hpart, hbegin, hend⟩ := hfirst.partOf.hull hlast.partOf hstart hstop
    rw [hspan]
    refine ⟨?_, hpart.start, hpart.stop⟩
    show Orderly _ (t.span.hull u.span).start.byte (t.span.hull u.span).stop.byte _
    rwa [hbegin, hend]

/-- Spans nest.  In a program that is read from a text, every definition and every formula covers a
part of the text, what is right below it lies within it, and definitions, items, arguments and cases
come one after the other without overlapping.  What a name or a value covers is read as one token,
which is written for it; only the zero that a minus subtracts from covers nothing. -/
theorem DefinitionSet.nested_of_ofText {p : DefinitionSet.Placed}
    (h : DefinitionSet.ofText text = .ok p) :
    p.Nested text ⟨{}, Position.after {} text⟩ ∧ p.Throughout (Formula.Nested text) := by
  obtain ⟨tokens, htokens, h⟩ := bind_eq_ok_iff.mp h
  obtain ⟨ds, c, hrun, -, rfl⟩ := ofTokens_inv h
  have hsound := sound_of_lined (lined_of_ofText htokens)
  obtain ⟨honward, hspans, hsettled⟩ :=
    Grammar.lays_definitions Grammar.settles_formula hsound hrun
  exact nested_ofDefinitions
    (hspans.mono (Nat.zero_le _) honward.sound.previousEnd.byte_le) hsettled

/-- A call of a formula in parentheses, with a minus in front of it and a block below it.  The
block is a part of the closure, and of the definition. -/
theorem DefinitionSet.nested_of_negated_call :
    ∃ p, DefinitionSet.ofText "f = x -> -(g)(x) where\n  g = [x, 2 * x]\nh = 1".toList = .ok p ∧
      p.definitions.map (fun d => (d.note.start.byte, d.note.stop.byte)) = [(0, 39), (40, 45)] ∧
      p.Nested "f = x -> -(g)(x) where\n  g = [x, 2 * x]\nh = 1".toList
        ⟨{}, Position.after {} "f = x -> -(g)(x) where\n  g = [x, 2 * x]\nh = 1".toList⟩ ∧
      p.Throughout
        (Formula.Nested "f = x -> -(g)(x) where\n  g = [x, 2 * x]\nh = 1".toList) := by
  have hrun : (DefinitionSet.ofText
      "f = x -> -(g)(x) where\n  g = [x, 2 * x]\nh = 1".toList).toOption.map
        (fun p => p.definitions.map fun d => (d.note.start.byte, d.note.stop.byte)) =
      some [(0, 39), (40, 45)] := by decide +kernel
  obtain ⟨p, hp, hspans⟩ := Option.map_eq_some_iff.mp hrun
  have hread := eq_ok_of_toOption hp
  exact ⟨p, hread, hspans, nested_of_ofText hread⟩

end Formulary
