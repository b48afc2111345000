/-
# Formulas read side by side

Rows of tokens that meet are read as formulas that meet.  Both runs go the same way through every
rule of the grammar, as they find the same tokens next, and where the second row goes on after the
first one no rule for formulas ever gets there: it stops in front of the line break.

The induction is on the weight of the first row, since the rules refer to the rule for formulas
again only after a token or inside of a group.
-/
import Formulary.Proofs.Grammar.Abreast

namespace Formulary.Grammar

open Text Word Parsing Token

variable {φ ψ : Position → Position} {more : List (Located Token)} {n : Nat} {α α' : Type}
  {V : α → α' → Prop}

/-! ## Lists of formulas that meet -/

/-- Formulas that meet, one by one. -/
abbrev AllMeet (φ ψ : Position → Position) (fs gs : List Formula.Placed) : Prop :=
  List.Forall₂ (Formula.Meet φ ψ) fs gs

lemma AllMeet.map_eq {fs gs : List Formula.Placed} (h : AllMeet φ ψ fs gs) :
    fs.map (Formula.move φ) = gs.map (Formula.move ψ) := forall₂_iff_map_eq.mp h

/-- Two cases with formulas that meet. -/
def CasesMeet (φ ψ : Position → Position) (x y : Case Formula.Placed) : Prop :=
  x.move φ = y.move ψ

/-- Two definitions that meet. -/
def DefinitionsMeet (φ ψ : Position → Position) (x y : Definition.Placed) : Prop :=
  x.move φ = y.move ψ

/-- Spans meet if they begin and end at places that meet. -/
lemma Abreast.spanFrom {c d : Cursor Token} {s s' : Span} (h : Abreast φ ψ more n c.fork d.fork)
    (hspan : s.move φ = s'.move ψ) : (c.spanFrom s).move φ = (d.spanFrom s').move ψ := by
  have hstop : φ c.previousEnd = ψ d.previousEnd := h.previous
  rw [Cursor.spanFrom, Cursor.spanFrom, Span.move, Span.move, hstop, (Span.mk.inj hspan).1]

/-! ## Single tokens -/

/-- Both cursors are in front of tokens at places that meet. -/
structure Headed (φ ψ : Position → Position) (more : List (Located Token)) (n : Nat)
    (c d : Cursor Token) : Prop extends Facing φ ψ more n c d where
  span : c.span.move φ = d.span.move ψ

/-- Where a rule fails at white space and at the end of a row, it may be assumed that a token is
next. -/
lemma follows_of_headed (hmore : GoesOn more) {m : Parser Token α} {m' : Parser Token α'}
    {D : Pairing Token} (hm : Rejects Blank m) (hm' : Rejects Blank m')
    (h : Follows (Headed φ ψ more n) m m' V D) : Follows (Facing φ ψ more n) m m' V D := by
  intro c d hcd
  have hfacing := hcd.related.of_fork
  rcases hfacing.heads hmore with ⟨t, s, ts, u, s', us, hc, hd, -, hspan, -⟩ | hblank
  · refine h ⟨⟨hcd.related, ?_⟩, hcd.calm, hcd.calm'⟩
    have hcspan : c.fork.span = s := by simp [Cursor.span, Cursor.fork, hc]
    have hdspan : d.fork.span = s' := by simp [Cursor.span, Cursor.fork, hd]
    rw [hcspan, hdspan, hspan]
  · exact follows_of_rejects (C := fun c d => Blank c.rest c.previous ∧ Blank d.rest d.previous)
      hm hm' (fun _ _ => id) ⟨hblank, hcd.calm, hcd.calm'⟩

lemma follows_satisfying (hmore : GoesOn more) (what : String) {holds : Token → Bool}
    (hgroup : ∀ kind ts, holds (.group kind ts) = false)
    (hgap : ∀ t : Token, t.isGap = true → holds t = false) :
    Follows (Facing φ ψ more (n + 1)) (Parsing.satisfying what holds)
      (Parsing.satisfying what holds) (fun t u => t.span.move φ = u.span.move ψ)
      (Abreast φ ψ more n) := by
  refine follows_of_tests hmore (tests_satisfying _ _) (tests_satisfying _ _) ?_ ?_
  · intro t ht
    simp [hgap t.value ht]
  · intro t u s s' head hspan
    have hsame := head.holds_eq hgroup
    dsimp only
    rw [hsame]
    split
    · exact .some hspan
    · exact .none

lemma follows_word (hmore : GoesOn more) (w : String) :
    Follows (Facing φ ψ more (n + 1)) (word w) (word w) (fun _ _ => True) (Abreast φ ψ more n) := by
  refine (follows_satisfying hmore _ (fun _ _ => rfl) fun t ht => ?_).mono (fun _ _ => id)
    (fun _ _ _ => trivial) fun _ _ => id
  cases t <;> first | rfl | cases ht

lemma follows_symbol (hmore : GoesOn more) (s : String) :
    Follows (Facing φ ψ more (n + 1)) (symbol s) (symbol s)
      (fun t u => t.span.move φ = u.span.move ψ) (Abreast φ ψ more n) := by
  refine follows_satisfying hmore _ (fun _ _ => rfl) fun t ht => ?_
  cases t <;> first | rfl | cases ht

/-- After `otherwise` a formula has to follow. -/
lemma follows_otherwise (hmore : GoesOn more) :
    Follows (Facing φ ψ more (n + 1)) (word "otherwise") (word "otherwise") (fun _ _ => True)
      (Midway φ ψ more n) := by
  refine follows_of_tests_midway hmore (tests_satisfying _ _) (tests_satisfying _ _) ?_ ?_ ?_
  · rintro ⟨t, span⟩ hgap
    have hnot : t.isWord "otherwise" = false := by cases t <;> first | rfl | cases hgap
    simp [hnot]
  · intro t u s₁ s₂ head hspan
    have hsame : t.isWord "otherwise" = u.isWord "otherwise" := head.holds_eq fun _ _ => rfl
    dsimp only
    rw [hsame]
    split
    · exact .some trivial
    · exact .none
  · rintro ⟨t, span⟩ a ha
    cases t with
    | ident n raw =>
      simp only [Token.isWord, Bool.and_eq_true, beq_iff_eq, Bool.not_eq_true',
        Option.ite_none_right_eq_some] at ha
      obtain ⟨⟨rfl, rfl⟩, -⟩ := ha
      rfl
    | _ => simp [Token.isWord] at ha

lemma follows_name (hmore : GoesOn more) :
    Follows (Facing φ ψ more (n + 1)) name name Eq (Abreast φ ψ more n) := by
  refine follows_of_tests hmore tests_name tests_name ?_ ?_
  · rintro ⟨t, span⟩ hgap
    cases t <;> first | exact ⟨rfl, rfl⟩ | cases hgap
  · intro t u s s' head hspan
    cases head with
    | leaf _ =>
      dsimp only
      split
      · split
        · exact .none
        · exact .some rfl
      · exact .none
    | group _ _ => exact .none

lemma follows_infixOperator (hmore : GoesOn more) :
    Follows (Facing φ ψ more (n + 1)) infixOperator infixOperator (MeetAt φ ψ)
      (Midway φ ψ more n) := by
  refine follows_of_tests_midway hmore tests_infixOperator tests_infixOperator ?_ ?_ ?_
  · rintro ⟨t, span⟩ hgap
    cases t <;> first | exact ⟨rfl, rfl⟩ | cases hgap
  · intro t u s s' head hspan
    cases head with
    | leaf _ =>
      dsimp only
      split
      · split
        · exact .some ⟨rfl, hspan⟩
        · exact .none
      · exact .none
    | group _ _ => exact .none
  · rintro ⟨t, span⟩ a ha
    cases t with
    | operator symbol => rfl
    | _ => cases ha

/-- A group of a kind that is told from no kind that it meets. -/
lemma follows_groupOf (hmore : GoesOn more) (what : String) {accepts : GroupKind → Bool}
    (haccepts : ∀ kind kind', kind.Meet kind' → accepts kind = accepts kind') :
    Follows (Facing φ ψ more (n + 1)) (groupOf what accepts) (groupOf what accepts)
      (Paired (Facing φ ψ [] n)) (Abreast φ ψ more n) := by
  have htests := tests_groupOf what accepts
  have hrun : Follows (Facing φ ψ more (n + 1)) (groupOf what accepts) (groupOf what accepts)
      (fun i j => RowsMeet φ ψ [] i.rest j.rest ∧ i.pending = [] ∧ j.pending = [])
      (Abreast φ ψ more n) := by
    refine follows_of_tests hmore htests htests ?_ ?_
    · rintro ⟨t, span⟩ hgap
      cases t <;> first | exact ⟨rfl, rfl⟩ | cases hgap
    · intro t u s s' head hspan
      cases head with
      | leaf hleaf =>
        cases t with
        | group kind ts => exact absurd rfl (hleaf kind ts)
        | _ => exact .none
      | @group kind kind' ts us hkind h =>
        dsimp only
        rw [haccepts kind kind' hkind]
        split
        · exact .some ⟨h, rfl, rfl⟩
        · exact .none
  intro c d hcd
  have hfollowed := hrun hcd
  cases hc : groupOf what accepts c with
  | error f c₁ =>
    rw [hc] at hfollowed
    exact hfollowed
  | ok i c₁ =>
    rw [hc] at hfollowed
    obtain ⟨j, d₁, hd, ⟨hrows, hi, hj⟩, hcd₁⟩ := hfollowed
    refine ⟨j, d₁, hd, ⟨⟨hrows, fun hne => absurd rfl hne, ?_⟩, ?_, ?_⟩, hcd₁⟩
    · -- what is in the group weighs less than the row with the group
      have hlt := (encloses_groupOf what accepts).2 hc
      exact Nat.lt_of_lt_of_le hlt (Nat.le_of_lt_succ hcd.related.weight)
    · intro f hf
      rw [hi] at hf
      cases hf
    · intro f hf
      rw [hj] at hf
      cases hf

lemma follows_parens (hmore : GoesOn more) :
    Follows (Facing φ ψ more (n + 1)) parens parens (Paired (Facing φ ψ [] n))
      (Abreast φ ψ more n) := by
  refine follows_groupOf hmore _ fun kind kind' h => ?_
  rcases h with rfl | h
  · rfl
  · cases kind <;> cases kind' <;> simp_all [GroupKind.isBlock]

lemma follows_block (hmore : GoesOn more) :
    Follows (Facing φ ψ more (n + 1)) block block (Paired (Facing φ ψ [] n))
      (Abreast φ ψ more n) := by
  refine follows_bind (follows_space hmore) fun _ _ _ => follows_groupOf hmore _ fun kind kind' h => ?_
  rcases h with rfl | h
  · rfl
  · cases kind <;> cases kind' <;> simp_all [GroupKind.isBlock]

/-! ## Literals -/

/-- What a token is as a literal does not depend on its place, but for the place of a failure. -/
lemma literalShape?_congr (t : Token) (s s' : Span) :
    literalShape? ⟨t, s⟩ = none ∧ literalShape? ⟨t, s'⟩ = none ∨
      (∃ shape, literalShape? ⟨t, s⟩ = some (.ok shape) ∧ literalShape? ⟨t, s'⟩ = some (.ok shape) ∧
        shape.map (Formula.move φ) (DefinitionSet.move φ) =
          shape.map (Formula.move ψ) (DefinitionSet.move ψ)) ∨
      ∃ e e', literalShape? ⟨t, s⟩ = some (.error e) ∧ literalShape? ⟨t, s'⟩ = some (.error e') ∧
        e.fatal = e'.fatal := by
  cases t with
  | null => exact .inr (.inl ⟨_, rfl, rfl, rfl⟩)
  | bool value => exact .inr (.inl ⟨_, rfl, rfl, rfl⟩)
  | text value => exact .inr (.inl ⟨_, rfl, rfl, rfl⟩)
  | number whole fraction =>
    simp only [literalShape?, numberValue]
    cases Binary64.read? (whole.toList ++ '.' :: (fraction.getD "0").toList) with
    | none => exact .inr (.inr ⟨_, _, rfl, rfl, rfl⟩)
    | some value =>
      dsimp only
      split
      · exact .inr (.inl ⟨_, rfl, rfl, rfl⟩)
      · exact .inr (.inr ⟨_, _, rfl, rfl, rfl⟩)
  | _ => exact .inl ⟨rfl, rfl⟩

lemma literal_eq {c : Cursor Token} {t : Located Token} {rest : List (Located Token)}
    (h : c.rest = t :: rest) : Grammar.literal c =
      match literalShape? t with
      | none => expected "a literal" c
      | some (.error f) => .error f c
      | some (.ok shape) => .ok (.node t.span shape) (c.pass t rest) := by
  have hpeek : peek c = .ok t c := by rw [peek, h]
  rw [Grammar.literal, bind_of_ok hpeek]
  cases literalShape? t with
  | none => rfl
  | some result =>
    cases result with
    | error f => rfl
    | ok shape =>
      have hnext : next c = .ok t (c.pass t rest) := by rw [next, h]
      exact bind_of_ok hnext

lemma rejects_literal_blank : Rejects Blank Grammar.literal := by
  intro c hc
  refine @rejects_literal_token (bares c.rest) (fun t ht => ?_) _ ⟨rfl, hc.2⟩
  cases hrest : c.rest with
  | nil =>
    rw [hrest] at ht
    simp at ht
  | cons u rest =>
    rw [hrest, bares_cons] at ht
    cases ht
    have hgap := hc.1 u (by rw [hrest]; rfl)
    obtain ⟨u, span⟩ := u
    cases u <;> first | (rw [bare]; rfl) | cases hgap

lemma follows_literal (hmore : GoesOn more) :
    Follows (Facing φ ψ more (n + 1)) Grammar.literal Grammar.literal (Formula.Meet φ ψ)
      (Abreast φ ψ more n) := by
  intro c d hcd
  have hfacing := hcd.related.of_fork
  rcases hfacing.heads hmore with ⟨t, s, ts, u, s', us, hc, hd, head, hspan, tail⟩ | hblank
  · rw [literal_eq hc, literal_eq hd]
    cases head with
    | leaf _ =>
      rcases literalShape?_congr (φ := φ) (ψ := ψ) t s s' with
        ⟨h, h'⟩ | ⟨shape, h, h', hshape⟩ | ⟨e, e', h, h', hfatal⟩
      · rw [h, h']
        exact fun _ => recoverable_error rfl
      · rw [h, h']
        refine ⟨_, _, rfl, ?_, paired_pass (abreast_pass hfacing hc hspan tail)⟩
        rw [Formula.Meet, Formula.move_node, Formula.move_node, hshape, hspan]
      · rw [h, h']
        intro he
        rw [hfatal] at he
        exact recoverable_error he
    | group _ _ => exact fun _ => recoverable_error rfl
  · exact follows_of_rejects (C := fun c d => Blank c.rest c.previous ∧ Blank d.rest d.previous)
      rejects_literal_blank rejects_literal_blank (fun _ _ => id) ⟨hblank, hcd.calm, hcd.calm'⟩

/-! ## Rules that do not refer to formulas -/

/-- Where white space is to be passed inside of a group, the rows may be at their ends. -/
lemma follows_gap_inside : Follows (Facing φ ψ [] n) gap gap (fun _ _ => True) (Facing φ ψ [] n) :=
  follows_gap_level.post fun _ _ h => h.toFacing

lemma goesOn_nil : GoesOn [] := .inl rfl

lemma follows_comma : Follows (Facing φ ψ [] n) comma comma (fun _ _ => True) (Level φ ψ n) := by
  have hcomma : Follows (Facing φ ψ [] (n + 1)) (Parsing.satisfying "`,`" Token.isComma)
      (Parsing.satisfying "`,`" Token.isComma) (fun t u => t.span.move φ = u.span.move ψ)
      (Abreast φ ψ [] n) := by
    refine follows_satisfying goesOn_nil _ (fun _ _ => rfl) fun t ht => ?_
    cases t <;> first | rfl | cases ht
  refine follows_bind follows_gap_inside fun _ _ _ => ?_
  refine follows_bind (hcomma.of_imp fun _ _ h => h.mono (Nat.le_succ n)) fun _ _ _ => ?_
  exact follows_gap_level.of_imp fun _ _ h => h.toFacing

/-- Line breaks are found alike where the second row does not go on. -/
lemma follows_lineBreak :
    Follows (Facing φ ψ [] n) lineBreak lineBreak (fun _ _ => True) (Level φ ψ n) := by
  refine follows_bind (follows_space goesOn_nil) fun _ _ _ => ?_
  refine follows_bind (V := fun _ _ => True) (D := Facing φ ψ [] n) ?_ fun _ _ _ => follows_gap_level
  intro c d hcd
  have hfacing := hcd.related.of_fork
  have htests := tests_satisfying "a line break" Token.isLineBreak
  have hrows := hfacing.rows
  generalize hts : c.rest = ts at hrows
  generalize hus : d.rest = us at hrows
  cases hrows with
  | done =>
    obtain ⟨f, c', hc, -⟩ := htests.fail (c := c) (by rw [hts]; rintro t ⟨⟩)
    rw [hc]
    exact fun _ => htests.fail (by rw [hus]; rintro t ⟨⟩)
  | @blank _ t span h =>
    obtain rfl : t = .space := h.resolve_right fun h => h.2 rfl
    obtain ⟨f, c', hc, -⟩ := htests.fail (c := c) (by rw [hts]; rintro t ⟨⟩; rfl)
    rw [hc]
    exact fun _ => htests.fail (by rw [hus]; rintro t ⟨⟩)
  | @cons _ ts us t u s s' head hspan tail =>
    have hsame : t.isLineBreak = u.isLineBreak := head.holds_eq fun _ _ => rfl
    cases hu : u.isLineBreak with
    | true =>
      rw [hu] at hsame
      rw [htests.pass hts (if_pos hsame)]
      refine ⟨_, _, htests.pass hus (if_pos hu), trivial, paired_pass ?_⟩
      exact (abreast_pass (hfacing.mono (Nat.le_succ n)) hts hspan tail).toFacing
    | false =>
      rw [hu] at hsame
      obtain ⟨f, c', hc, -⟩ := htests.fail (c := c) (by rw [hts]; rintro x ⟨⟩; simp [hsame])
      rw [hc]
      exact fun _ => htests.fail (by rw [hus]; rintro x ⟨⟩; simp [hu])

lemma passes_comma : Passes comma :=
  passes_bind_of_advances advances_gap fun _ =>
    passes_bind (passes_satisfying _ _) fun _ => advances_gap

lemma passes_lineBreak : Passes lineBreak :=
  passes_bind_of_advances advances_space fun _ =>
    passes_bind (passes_satisfying _ _) fun _ => advances_gap

lemma advances_optional {m : Parser Token α} (h : Advances m) : Advances (Parsing.optional m) :=
  advances_of_agrees fun _ => agrees_optional h.agrees

/-- Lists in groups are read alike if their elements are. -/
lemma follows_commaList {m : Parser Token α} {m' : Parser Token α'}
    (h : Follows (Facing φ ψ [] n) m m' V (Abreast φ ψ [] n)) (hm : Advances m)
    (hm' : Advances m') :
    Follows (Facing φ ψ [] n) (commaList m) (commaList m') (List.Forall₂ V) (Level φ ψ n) := by
  refine follows_bind follows_gap_inside fun _ _ _ => ?_
  refine follows_bind (follows_separated (C := Facing φ ψ [] n) (D := Facing φ ψ [] n)
    (follows_optional (h.post fun _ _ h => h.toFacing) fun _ _ => id)
    (follows_comma.post fun _ _ h => h.toFacing) (advances_optional hm) (advances_optional hm')
    passes_comma passes_comma) fun as bs has => ?_
  exact follows_bind follows_gap_level fun _ _ _ => follows_pure has fun _ _ => id

/-- What is read alike in groups that meet, up to their ends or in front of these. -/
lemma follows_inside {m : Parser Token α} {m' : Parser Token α'} {i j : Cursor Token}
    {C : Pairing Token} (h : Follows (Facing φ ψ [] n) m m' V (Level φ ψ n))
    (hij : Paired (Facing φ ψ [] n) i j) : Follows C (within i m) (within j m') V C :=
  follows_within h hij fun _ _ h => h.atEnd

lemma rejects_name_blank : Rejects Blank name := by
  refine tests_name.rejects ?_
  rintro ⟨t, span⟩ hgap
  cases t <;> first | rfl | cases hgap

lemma rejects_groupOf_blank (what : String) (accepts : GroupKind → Bool) :
    Rejects Blank (groupOf what accepts) := by
  refine (tests_groupOf what accepts).rejects ?_
  rintro ⟨t, span⟩ hgap
  cases t <;> first | rfl | cases hgap

lemma rejects_word_blank (w : String) : Rejects Blank (word w) := by
  refine (tests_satisfying _ _).rejects ?_
  rintro ⟨t, span⟩ hgap
  cases t <;> first | rfl | cases hgap

lemma follows_reference (hmore : GoesOn more) :
    Follows (Facing φ ψ more (n + 1)) reference reference (Formula.Meet φ ψ)
      (Abreast φ ψ more n) := by
  have hrejects : Rejects Blank reference :=
    rejects_get fun _ _ => rejects_bind_left rejects_name_blank
  refine follows_of_headed hmore hrejects hrejects (follows_get fun c d hcd => ?_)
  refine follows_bind ((follows_name hmore).of_imp fun _ _ h => h.toFacing) fun x y hxy => ?_
  refine follows_pure ?_ fun _ _ => id
  have hspan : c.span.move φ = d.span.move ψ := hcd.span
  rw [Formula.Meet, Formula.move_node, Formula.move_node, hxy, hspan]
  rfl

lemma follows_parameters (hmore : GoesOn more) :
    Follows (Facing φ ψ more (n + 1)) parameters parameters Eq (Abreast φ ψ more n) := by
  refine follows_choice (.cons ?_ (.cons ?_ .nil))
  · exact follows_bind (follows_name hmore) fun x y hxy => follows_pure (by rw [hxy]) fun _ _ => id
  · refine follows_bind (follows_parens hmore) fun i j hij => follows_inside ?_ hij
    have hnames : Follows (Facing φ ψ [] n) (commaList name) (commaList name) (List.Forall₂ Eq)
        (Level φ ψ n) := follows_commaList
      ((follows_name goesOn_nil).of_imp fun _ _ h => h.mono (Nat.le_succ n))
      passes_name.advances passes_name.advances
    rwa [List.forall₂_eq_eq_eq] at hnames

/-! ## Rules that refer to formulas -/

/-- A formula is read alike in rows whose first one weighs less than `n`. -/
def AlikeBelow (φ ψ : Position → Position) (n : Nat) : Prop :=
  ∀ more, GoesOn more → Follows (Facing φ ψ more n) formula formula (Formula.Meet φ ψ)
    (Abreast φ ψ more n)

/-- Definitions with line breaks between them. -/
abbrev lines : Parser Token (List Definition.Placed) :=
  separated (Parsing.optional (definition formula)) lineBreak

/-- Formulas lead on to a later part of the row. -/
lemma advances_formula : Advances formula := by
  refine advances_of_agrees_listWeight fun n => ?_
  induction n with
  | zero => exact fun c hc => absurd hc (Nat.not_lt_zero _)
  | succ n ih =>
    have hstep := agrees_closureOrChain ih
    rwa [← formula_eq] at hstep

section Rules

variable (hφ : KeepsHulls φ) (hψ : KeepsHulls ψ) (hmore : GoesOn more) (ih : AlikeBelow φ ψ n)

/-! ### Operands -/

include hmore ih

lemma follows_arguments :
    Follows (Facing φ ψ more (n + 1)) (arguments formula) (arguments formula) (AllMeet φ ψ)
      (Abreast φ ψ more n) :=
  follows_bind (follows_parens hmore) fun _ _ hij => follows_inside
    (follows_commaList (ih [] goesOn_nil) advances_formula advances_formula) hij

lemma follows_parenthesized :
    Follows (Facing φ ψ more (n + 1)) (parenthesized formula) (parenthesized formula)
      (Formula.Meet φ ψ) (Abreast φ ψ more n) := by
  refine follows_bind (follows_parens hmore) fun i j hij => follows_inside ?_ hij
  refine follows_bind follows_gap_inside fun _ _ _ => ?_
  refine follows_bind (ih [] goesOn_nil) fun f g hfg => ?_
  exact follows_bind (follows_gap_level.of_imp fun _ _ h => h.toFacing) fun _ _ _ =>
    follows_pure hfg fun _ _ => id

/-- Two argument lists that meet, with places that meet. -/
def ListsMeet (φ ψ : Position → Position) (x y : List Formula.Placed × Position) : Prop :=
  AllMeet φ ψ x.1 y.1 ∧ φ x.2 = ψ y.2

/-- A further argument list is found in both rows or in none. -/
lemma application_followedBy {c d : Cursor Token} (hcd : Paired (Abreast φ ψ more n) c d) :
    Outcome.StepFollowedBy (ListsMeet φ ψ) (Abreast φ ψ more n) (Abreast φ ψ more n)
      (application formula c) (application formula d) := by
  have hlist : Follows (Abreast φ ψ more n) (do space; arguments formula)
      (do space; arguments formula) (AllMeet φ ψ) (Abreast φ ψ more n) := by
    refine (follows_bind (follows_space hmore) fun _ _ _ => follows_arguments hmore ih).of_imp ?_
    exact fun c d h => h.toFacing.mono (Nat.le_succ n)
  have hrun := hlist hcd.fork
  rw [application]
  cases hc : (do space; arguments formula) c.fork with
  | ok list c₁ =>
    rw [hc] at hrun
    obtain ⟨list', d₁, hd, hlists, hcd₁⟩ := hrun
    rw [bind_of_ok (optional_of_ok hc), bind_of_ok (optional_of_ok hd)]
    have hpaired := hcd₁.adopt hcd
    exact ⟨_, _, rfl, ⟨hlists, hpaired.related.previous⟩, hpaired⟩
  | error f c₁ =>
    rw [hc] at hrun
    cases hf : f.fatal with
    | true =>
      rw [bind_of_error (optional_of_fatal hc hf)]
      intro hmild
      rw [hf] at hmild
      cases hmild
    | false =>
      obtain ⟨g, d₁, hd, hg⟩ := hrun hf
      rw [bind_of_ok (optional_of_error hc hf), bind_of_ok (optional_of_error hd hg)]
      exact ⟨_, rfl, hcd.record hf hg⟩

omit hmore ih in
lemma progresses_application : Progresses (application formula) := by
  have hpasses : Passes (do space; arguments formula) :=
    passes_bind_of_advances advances_space fun _ =>
      passes_bind encloses_parens.1 fun inner c a c' h => by
        obtain ⟨rfl, -⟩ := within_inv h
        exact List.suffix_refl _
  intro c a c' hrun
  obtain ⟨o, c₁, hoptional, hrun⟩ := bind_inv hrun
  rcases optional_inv hoptional with ⟨list, c₂, hlist, rfl, hrest⟩ | ⟨rfl, hrest⟩
  · obtain rfl : c₁ = c' := by
      cases hrun
      rfl
    rw [hrest]
    exact (hpasses hlist).2
  · cases hrun

lemma follows_call :
    Follows (Facing φ ψ more (n + 1)) (call formula) (call formula) (Formula.Meet φ ψ)
      (Abreast φ ψ more n) := by
  have hrejects : Rejects Blank (call formula) := by
    refine rejects_get fun _ _ => rejects_bind_left (rejects_choice (forall_mem_pair ?_ ?_))
    · exact rejects_get fun _ _ => rejects_bind_left rejects_name_blank
    · exact rejects_bind_left (rejects_groupOf_blank _ _)
  refine follows_of_headed hmore hrejects hrejects (follows_get fun c d hcd => ?_)
  have hstart : φ c.position = ψ d.position := (Span.mk.inj hcd.span).1
  refine Follows.of_imp ?_ fun _ _ h => h.toFacing
  refine follows_bind (follows_choice (.cons (follows_reference hmore)
    (.cons (follows_parenthesized hmore ih) .nil))) fun f g hfg => ?_
  refine follows_bind (follows_collect (fun _ _ h => application_followedBy hmore ih h)
    progresses_application progresses_application) fun xs ys hxys => follows_pure ?_ fun _ _ => id
  induction hxys generalizing f g with
  | nil => exact hfg
  | @cons x y xs ys hxy _ ihlists =>
    refine ihlists _ _ ?_
    obtain ⟨x, p⟩ := x
    obtain ⟨y, q⟩ := y
    obtain ⟨hlists, hplaces⟩ : AllMeet φ ψ x y ∧ φ p = ψ q := hxy
    have hspan : Span.move φ ⟨c.position, p⟩ = Span.move ψ ⟨d.position, q⟩ := by
      rw [Span.move, Span.move, hstart, hplaces]
    rw [Formula.Meet, Formula.move_node, Formula.move_node, hspan, Shape.map, Shape.map,
      hlists.map_eq, hfg]

lemma follows_list :
    Follows (Facing φ ψ more (n + 1)) (list formula) (list formula) (Formula.Meet φ ψ)
      (Abreast φ ψ more n) := by
  have hrejects : Rejects Blank (list formula) :=
    rejects_get fun _ _ => rejects_bind_left (rejects_groupOf_blank _ _)
  refine follows_of_headed hmore hrejects hrejects (follows_get fun c d hcd => ?_)
  have hspan : c.span.move φ = d.span.move ψ := hcd.span
  refine Follows.of_imp ?_ fun _ _ h => h.toFacing
  refine follows_bind (follows_groupOf hmore _ fun kind kind' h => ?_) fun i j hij => ?_
  · rcases h with rfl | h
    · rfl
    · cases kind <;> cases kind' <;> simp_all [GroupKind.isBlock]
  · refine follows_bind (follows_inside (follows_commaList (ih [] goesOn_nil) advances_formula
      advances_formula) hij) fun fs gs hfgs => follows_get fun c' d' hcd' => ?_
    refine follows_pure ?_ fun _ _ => id
    rw [Formula.Meet, Formula.move_ofItems, Formula.move_ofItems, hcd'.spanFrom hspan,
      AllMeet.map_eq hfgs]

/-- Cases that are put together from formulas that meet. -/
lemma follows_otherwiseCase :
    Follows (Facing φ ψ more (n + 1)) (otherwiseCase formula) (otherwiseCase formula)
      (CasesMeet φ ψ) (Abreast φ ψ more n) := by
  refine follows_bind (follows_otherwise hmore) fun _ _ _ => follows_bind follows_gap fun _ _ _ => ?_
  refine follows_bind (ih more hmore) fun f g hfg => follows_pure ?_ fun _ _ => id
  exact congrArg Case.otherwise hfg

omit hmore in
lemma follows_whenCase :
    Follows (Facing φ ψ [] n) (whenCase formula) (whenCase formula) (CasesMeet φ ψ)
      (Abreast φ ψ [] n) := by
  have hword : Follows (Facing φ ψ [] n) (word "otherwise") (word "otherwise") (fun _ _ => True)
      (Abreast φ ψ [] n) :=
    (follows_word goesOn_nil _).of_imp fun _ _ h => h.mono (Nat.le_succ n)
  refine follows_bind (follows_notAhead hword (ih [] goesOn_nil)) fun f g hfg => ?_
  refine (follows_gap_symbol goesOn_nil doubleArrow ?_).of_imp fun _ _ h =>
    h.toFacing.mono (Nat.le_succ n)
  refine follows_bind follows_gap fun _ _ _ => ?_
  refine follows_bind (ih [] goesOn_nil) fun f' g' hfg' => follows_pure ?_ fun _ _ => id
  exact congrArg₂ Case.when hfg hfg'

omit hmore in
lemma follows_nextCase :
    Follows (Level φ ψ n) (nextCase formula) (nextCase formula) (Option.Rel (CasesMeet φ ψ))
      (Facing φ ψ [] n) := by
  refine follows_get fun c d hcd => ?_
  have hsame : c.atEnd = d.atEnd := by
    have hiff : c.rest = [] ↔ d.rest = [] := hcd.atEnd
    rw [Cursor.atEnd, Cursor.atEnd, Bool.eq_iff_iff, List.isEmpty_iff, List.isEmpty_iff, hiff]
  rw [hsame]
  split
  · exact follows_pure .none fun _ _ h => h.toFacing
  · refine Follows.of_imp ?_ fun _ _ h => h.toFacing
    refine follows_bind (follows_choice (.cons ?_ (.cons (follows_whenCase ih) .nil)))
      fun x y hxy => follows_pure (.some hxy) fun _ _ h => h.toFacing
    exact (follows_otherwiseCase goesOn_nil ih).of_imp fun _ _ h => h.mono (Nat.le_succ n)

omit hmore ih in
lemma advances_nextCase : Advances (nextCase formula) :=
  advances_of_agrees_listWeight fun _ => agrees_nextCase advances_formula.agrees

omit hmore in
lemma follows_cases :
    Follows (Facing φ ψ [] n) (cases formula) (cases formula) (List.Forall₂ (CasesMeet φ ψ))
      (Level φ ψ n) := by
  have hseparator : Passes (choice [comma, lineBreak]) :=
    passes_choice (List.forall_mem_cons.mpr
      ⟨passes_comma, List.forall_mem_singleton.mpr passes_lineBreak⟩)
  refine follows_bind follows_gap_level fun _ _ _ => ?_
  refine follows_bind (follows_separated (follows_nextCase ih)
    (follows_choice (.cons follows_comma (.cons follows_lineBreak .nil))) advances_nextCase
    advances_nextCase hseparator hseparator) fun xs ys hxys => ?_
  exact follows_bind follows_gap_level fun _ _ _ => follows_pure hxys fun _ _ => id

lemma follows_switch :
    Follows (Facing φ ψ more (n + 1)) (switch formula) (switch formula) (Formula.Meet φ ψ)
      (Abreast φ ψ more n) := by
  have hrejects : Rejects Blank (switch formula) :=
    rejects_get fun _ _ => rejects_bind_left (rejects_word_blank _)
  refine follows_of_headed hmore hrejects hrejects (follows_get fun c d hcd => ?_)
  have hspan : c.span.move φ = d.span.move ψ := hcd.span
  refine Follows.of_imp ?_ fun _ _ h => h.toFacing
  refine follows_bind (follows_word hmore _) fun _ _ _ => ?_
  refine follows_bind (V := List.Forall₂ (CasesMeet φ ψ)) (D := Abreast φ ψ more n)
    (follows_choice (.cons ?_ (.cons ?_ .nil))) fun xs ys hxys => follows_get fun c' d' hcd' => ?_
  · refine follows_bind ((follows_block hmore).of_imp fun _ _ h => h.toFacing.mono (Nat.le_succ n))
      fun i j hij => follows_inside (follows_cases ih) hij
  · refine (follows_bind (follows_space hmore) fun _ _ _ => ?_).of_imp fun _ _ h =>
      h.toFacing.mono (Nat.le_succ n)
    exact follows_bind (follows_otherwiseCase hmore ih) fun x y hxy =>
      follows_pure (.cons hxy .nil) fun _ _ => id
  · refine follows_pure ?_ fun _ _ => id
    have hcases : xs.map (Case.move φ) = ys.map (Case.move ψ) := forall₂_iff_map_eq.mp hxys
    rw [Formula.Meet, Formula.move_node, Formula.move_node, hcd'.spanFrom hspan, Shape.map,
      Shape.map]
    exact congrArg (fun cases => Formula.node _ (Shape.switch cases)) hcases

lemma follows_primary :
    Follows (Facing φ ψ more (n + 1)) (primary formula) (primary formula) (Formula.Meet φ ψ)
      (Abreast φ ψ more n) :=
  follows_choice (.cons (follows_literal hmore) (.cons (follows_switch hmore ih)
    (.cons (follows_call hmore ih) (.cons (follows_list hmore ih) .nil))))

/-! ### Chains -/

include hφ hψ

lemma follows_negation :
    Follows (Facing φ ψ more (n + 1)) (negation formula) (negation formula) (Formula.Meet φ ψ)
      (Abreast φ ψ more n) := by
  refine follows_bind (follows_symbol hmore _) fun s t hst => ?_
  refine follows_bind (follows_primary hmore ih) (fun f g hfg => ?_) |>.of_imp fun _ _ h =>
    h.toFacing.mono (Nat.le_succ n)
  exact follows_pure (Formula.meet_negation hφ hψ hst hfg) fun _ _ => id

lemma follows_operand :
    Follows (Facing φ ψ more (n + 1)) (operand formula) (operand formula) (Formula.Meet φ ψ)
      (Abreast φ ψ more n) :=
  follows_choice (.cons (follows_negation hφ hψ hmore ih) (.cons (follows_primary hmore ih) .nil))

lemma follows_operation :
    Follows (Facing φ ψ more (n + 1)) (operation formula) (operation formula)
      (List.Forall₂ (Operation.Matches (Formula.Meet φ ψ) (MeetAt φ ψ))) (Abreast φ ψ more n) := by
  refine follows_bind (follows_space hmore) fun _ _ _ => ?_
  refine follows_bind (follows_infixOperator hmore) fun s t hst => ?_
  refine follows_bind follows_gap fun _ _ _ => ?_
  refine (follows_bind (follows_operand hφ hψ hmore ih) fun f g hfg => ?_).of_imp fun _ _ h =>
    h.mono (Nat.le_succ n)
  exact follows_pure (.cons (.operator hst) (.cons (.operand hfg) .nil)) fun _ _ => id

omit hmore ih hφ hψ in
lemma passes_operation : Passes (operation formula) :=
  passes_bind_of_advances advances_space fun _ => passes_bind passes_infixOperator fun _ =>
    advances_bind advances_gap fun _ => advances_bind
      (advances_of_agrees_listWeight fun _ => (agrees_operand advances_formula.agrees).mono (Nat.le_succ _))
      fun _ => advances_pure _

lemma follows_chain :
    Follows (Facing φ ψ more (n + 1)) (chain formula) (chain formula) (Formula.Meet φ ψ)
      (Abreast φ ψ more n) := by
  refine follows_bind (follows_operand hφ hψ hmore ih) fun f g hfg => ?_
  have hoperations := follows_many ((follows_operation hφ hψ hmore ih).of_imp fun _ _ h =>
    h.toFacing.mono (Nat.le_succ n)) passes_operation passes_operation
  refine follows_bind hoperations fun links links' hlinks => ?_
  cases hlinks with
  | nil => exact follows_pure hfg fun _ _ => id
  | @cons x y xs ys hxy hxys =>
    have hall : List.Forall₂ (Operation.Matches (Formula.Meet φ ψ) (MeetAt φ ψ))
        (.operand f :: (x :: xs).flatten) (.operand g :: (y :: ys).flatten) :=
      .cons (.operand hfg) (List.rel_flatten (.cons hxy hxys))
    -- a chain that cannot be folded is a fatal failure
    show Follows _ (chain.liftExcept (Formula.joining.fold (.operand f :: (x :: xs).flatten)))
      (chain.liftExcept (Formula.joining.fold (.operand g :: (y :: ys).flatten))) _ _
    cases hfold : Formula.joining.fold (.operand f :: (x :: xs).flatten) with
    | ok a =>
      obtain ⟨b, hfold', hab⟩ := Formula.meet_fold hφ hψ hall hfold
      rw [hfold']
      exact follows_pure hab fun _ _ => id
    | error e => exact fun _ _ _ => followedBy_of_fatal (Joining.fatal_of_fold_eq_error hfold)

/-! ### Definitions and closures -/

omit hmore ih hφ hψ in
lemma rejects_definition_blank : Rejects Blank (definition formula) :=
  rejects_get fun _ _ => rejects_bind_left rejects_name_blank

omit hφ hψ in
lemma follows_definition :
    Follows (Facing φ ψ more (n + 1)) (definition formula) (definition formula)
      (DefinitionsMeet φ ψ) (Abreast φ ψ more n) := by
  refine follows_of_headed hmore rejects_definition_blank rejects_definition_blank
    (follows_get fun c d hcd => ?_)
  have hspan : c.span.move φ = d.span.move ψ := hcd.span
  refine Follows.of_imp ?_ fun _ _ h => h.toFacing
  refine follows_bind (follows_name hmore) fun x y hxy => ?_
  refine (follows_gap_symbol hmore _ ?_).of_imp fun _ _ h => h.toFacing.mono (Nat.le_succ n)
  refine follows_bind follows_gap fun _ _ _ => ?_
  refine follows_bind (ih more hmore) fun f g hfg => follows_get fun c' d' hcd' => ?_
  refine follows_pure ?_ fun _ _ => id
  have hvalue : f.move φ = g.move ψ := hfg
  rw [DefinitionsMeet, Definition.move, Definition.move, hcd'.spanFrom hspan, hxy, Option.map_some,
    Option.map_some, hvalue]

omit hmore ih hφ hψ in
lemma advances_definition : Advances (definition formula) :=
  advances_of_agrees_listWeight fun _ => (agrees_definition advances_formula.agrees).mono (Nat.le_succ _)

omit hmore hφ hψ in
/-- The lines of a row that does not go on. -/
lemma follows_lines :
    Follows (Facing φ ψ [] n) lines lines (List.Forall₂ (DefinitionsMeet φ ψ)) (Facing φ ψ [] n) :=
  follows_separated (C := Facing φ ψ [] n) (D := Facing φ ψ [] n)
    (follows_optional ((follows_definition goesOn_nil ih).mono (fun _ _ h => h.mono (Nat.le_succ n))
      (fun _ _ => id) fun _ _ h => h.toFacing) fun _ _ => id)
    (follows_lineBreak.post fun _ _ h => h.toFacing) (advances_optional advances_definition)
    (advances_optional advances_definition) passes_lineBreak passes_lineBreak

omit hmore hφ hψ in
lemma follows_definitions :
    Follows (Facing φ ψ [] n) (definitions formula) (definitions formula)
      (List.Forall₂ (DefinitionsMeet φ ψ)) (Level φ ψ n) :=
  follows_bind follows_gap_inside fun _ _ _ => follows_bind (follows_lines ih) fun _ _ hdes =>
    follows_bind follows_gap_level fun _ _ _ => follows_pure hdes fun _ _ => id

omit hφ hψ in
lemma follows_whereClause :
    Follows (Facing φ ψ more (n + 1)) (whereClause formula) (whereClause formula)
      (List.Forall₂ (DefinitionsMeet φ ψ)) (Abreast φ ψ more n) := by
  refine follows_bind (follows_space hmore) fun _ _ _ => ?_
  refine follows_bind (follows_word hmore _) fun _ _ _ => ?_
  refine (follows_choice (C := Facing φ ψ more (n + 1)) (.cons ?_ (.cons ?_ .nil))).of_imp
    fun _ _ h => h.toFacing.mono (Nat.le_succ n)
  · exact follows_bind (follows_block hmore) fun i j hij =>
      follows_inside (follows_definitions ih) hij
  · refine follows_bind (follows_space hmore) fun _ _ _ => ?_
    exact follows_bind (follows_definition hmore ih) fun x y hxy =>
      follows_pure (.cons hxy .nil) fun _ _ => id

omit hφ hψ in
lemma follows_closure :
    Follows (Facing φ ψ more (n + 1)) (closure formula) (closure formula) (Formula.Meet φ ψ)
      (Abreast φ ψ more n) := by
  -- white space begins no closure, so that both rows begin with tokens that meet
  have hparameters : Rejects Blank parameters := by
    refine rejects_choice (forall_mem_pair ?_ ?_)
    · exact rejects_bind_left rejects_name_blank
    · exact rejects_bind_left (rejects_groupOf_blank _ _)
  have hrejects : Rejects Blank (closure formula) :=
    rejects_get fun _ _ => rejects_bind_left hparameters
  refine follows_of_headed hmore hrejects hrejects (follows_get fun c d hcd => ?_)
  have hspan : c.span.move φ = d.span.move ψ := hcd.span
  refine Follows.of_imp ?_ fun _ _ h => h.toFacing
  refine follows_bind (follows_parameters hmore) fun xs ys hxys => ?_
  refine (follows_gap_symbol hmore _ ?_).of_imp fun _ _ h => h.toFacing.mono (Nat.le_succ n)
  refine follows_bind follows_gap fun _ _ _ => ?_
  refine follows_bind (ih more hmore) fun f g hfg => ?_
  have hvalue : f.move φ = g.move ψ := hfg
  refine follows_bind (follows_optional ((follows_whereClause hmore ih).of_imp fun _ _ h =>
    h.toFacing.mono (Nat.le_succ n)) fun _ _ => id) fun o o' hoo' => follows_get fun c' d' hcd' => ?_
  refine follows_pure ?_ fun _ _ => id
  have hlocals : (o.getD []).map (Definition.move φ) = (o'.getD []).map (Definition.move ψ) := by
    cases hoo' with
    | none => rfl
    | some h => exact forall₂_iff_map_eq.mp h
  have hnote : f.note.move φ = g.note.move ψ := by
    rw [← Formula.note_move, hvalue, Formula.note_move]
  rw [Formula.Meet, Formula.move_node, Formula.move_node, hcd'.spanFrom hspan, Shape.map, Shape.map,
    DefinitionSet.move_ofDefinitions, DefinitionSet.move_ofDefinitions, List.map_cons,
    List.map_cons, hlocals, Definition.move, Definition.move, hnote, Option.map_some,
    Option.map_some, hvalue, hxys]

lemma follows_closureOrChain :
    Follows (Facing φ ψ more (n + 1)) (closureOrChain formula) (closureOrChain formula)
      (Formula.Meet φ ψ) (Abreast φ ψ more n) :=
  follows_choice (.cons (follows_closure hmore ih) (.cons (follows_chain hφ hψ hmore ih) .nil))

end Rules

/-- Formulas in rows that meet are read alike. -/
theorem alikeBelow (hφ : KeepsHulls φ) (hψ : KeepsHulls ψ) : ∀ n, AlikeBelow φ ψ n
  | 0 => fun _ _ _ _ hcd => absurd hcd.related.weight (Nat.not_lt_zero _)
  | n + 1 => fun more hmore => by
    rw [formula_eq]
    exact (follows_closureOrChain hφ hψ hmore (alikeBelow hφ hψ n)).post fun _ _ h =>
      h.mono (Nat.le_succ n)

end Formulary.Grammar
