/-
# Programs put together

A row that holds the tokens of one program, a line break and the tokens of a second program is read
as the definitions of both.  The first program ends with a token that a formula may end with, so
its last definition is read as before and the line break separates it from what follows.
-/
import Formulary.Proofs.Grammar.Following

namespace Formulary

open Text Word Parsing

namespace Token

variable {φ ψ : Position → Position} {more ts us : List (Located Token)}

/-! ## White space -/

lemma pastGaps_eq_self (h : ∀ t ∈ ts.head?, t.value.isGap = false) : pastGaps ts = ts := by
  cases ts with
  | nil => rfl
  | cons t ts =>
    have ht := h t rfl
    rw [pastGaps, List.dropWhile_cons_of_neg (by simp [ht])]

lemma pastGaps_cons {t : Located Token} (h : t.value.isGap = true) (ts : List (Located Token)) :
    pastGaps (t :: ts) = pastGaps ts := by
  rw [pastGaps, List.dropWhile_cons_of_pos (by simp [h]), pastGaps]

lemma GoesOn.head_after {span : Span} (h : GoesOn (⟨.lineBreak, span⟩ :: us)) :
    ∀ t ∈ us.head?, ∃ n raw, t.value = .ident n raw := by
  rcases h with h | ⟨span', us', h, hus⟩
  · cases h
  · cases h
    exact hus

lemma GoesOn.pastGaps_eq {span : Span} (h : GoesOn (⟨.lineBreak, span⟩ :: us)) :
    pastGaps (⟨.lineBreak, span⟩ :: us) = us := by
  rw [pastGaps_cons rfl]
  refine pastGaps_eq_self fun t ht => ?_
  obtain ⟨n, raw, hident⟩ := h.head_after t ht
  rw [hident]
  rfl

lemma isGap_of_isSpace {t : Token} (h : t.isSpace = true) : t.isGap = true := by
  cases t <;> first | rfl | cases h

lemma isGap_of_isLineBreak {t : Token} (h : t.isLineBreak = true) : t.isGap = true := by
  cases t <;> first | rfl | cases h

lemma pastGaps_pastSpaces (ts : List (Located Token)) : pastGaps (pastSpaces ts) = pastGaps ts := by
  induction ts with
  | nil => rfl
  | cons t ts ih =>
    cases ht : t.value.isSpace with
    | true =>
      rw [pastGaps_cons (isGap_of_isSpace ht), ← ih, pastSpaces,
        List.dropWhile_cons_of_pos (by simp [ht]), pastSpaces]
    | false => rw [pastSpaces, List.dropWhile_cons_of_neg (by simp [ht])]

lemma solids_pastGaps (ts : List (Located Token)) : solids (pastGaps ts) = solids ts := by
  induction ts with
  | nil => rfl
  | cons t ts ih =>
    cases ht : t.value.isGap with
    | true => rw [pastGaps_cons ht, ih, solids_cons_of_isGap ht]
    | false => rw [pastGaps_eq_self (by rintro u ⟨⟩; exact ht)]

lemma solids_pastSpaces (ts : List (Located Token)) : solids (pastSpaces ts) = solids ts := by
  rw [← solids_pastGaps, pastGaps_pastSpaces, solids_pastGaps]

/-- Whether a line break comes next, after white space within the line. -/
def breaksLine (ts : List (Located Token)) : Bool :=
  (pastSpaces ts).head?.any fun t => t.value.isLineBreak

/-- Where a further token is to come, line breaks are found alike. -/
lemma RowsMeet.breaksLine_eq (hmore : GoesOn more) (h : RowsMeet φ ψ more ts us)
    (hsolid : solids ts ≠ []) : breaksLine ts = breaksLine us := by
  rw [← solids_pastSpaces] at hsolid
  have hspaces := h.spaces hmore
  rw [breaksLine, breaksLine]
  generalize pastSpaces ts = ts' at hspaces hsolid
  generalize pastSpaces us = us' at hspaces
  cases hspaces with
  | done => exact absurd rfl hsolid
  | blank hgap =>
    refine absurd (solids_cons_of_isGap ?_ []) hsolid
    rcases hgap with rfl | ⟨rfl, -⟩ <;> rfl
  | @cons _ _ _ t u _ _ head _ _ =>
    have hsame : t.isLineBreak = u.isLineBreak := head.holds_eq fun _ _ => rfl
    exact hsame

/-- Where the first row has nothing but white space, the second has a line break next. -/
lemma RowsMeet.breaksLine {span : Span} {vs : List (Located Token)}
    (hmore : GoesOn (⟨.lineBreak, span⟩ :: vs)) (h : RowsMeet φ ψ (⟨.lineBreak, span⟩ :: vs) ts us)
    (hblank : solids ts = []) : Token.breaksLine us = true := by
  rw [← solids_pastSpaces] at hblank
  have hspaces := h.spaces hmore
  have hhead : ∀ t ∈ (pastSpaces ts).head?, t.value.isSpace = false := fun t ht => by
    have hstop := List.head?_dropWhile_not (fun t : Located Token => t.value.isSpace) ts
    rw [show List.dropWhile _ ts = pastSpaces ts from rfl, Option.mem_def.mp ht] at hstop
    exact hstop
  rw [Token.breaksLine]
  generalize pastSpaces ts = ts' at hspaces hblank hhead
  generalize pastSpaces us = us' at hspaces
  cases hspaces with
  | done => rfl
  | blank _ => rfl
  | @cons _ ts us t u s s' head hspan tail =>
    have hspace : t.isSpace = false := hhead _ rfl
    have hgap : t.isGap = true := by
      by_contra hsolid
      rw [solids_cons (by simpa using hsolid)] at hblank
      cases hblank
    have hbreak : t.isLineBreak = true := by
      cases t <;> first | rfl | exact absurd hgap Bool.false_ne_true |
        exact absurd hspace.symm Bool.false_ne_true
    have hsame : t.isLineBreak = u.isLineBreak := head.holds_eq fun _ _ => rfl
    exact hsame.symm.trans hbreak

end Token

namespace Grammar

open Token

variable {φ ψ χ : Position → Position} {c c' d d' : Cursor Token}

/-! ## Line by line -/

/-- Where a line break is passed, so is all white space around it. -/
lemma exists_lineBreak (h : breaksLine c.rest = true) :
    ∃ c', lineBreak c = .ok () c' ∧ c'.rest = pastGaps c.rest ∧ (c.Calm → c'.Calm) := by
  obtain ⟨c₁, hspace, hrest, -⟩ := exists_space c
  have htests := tests_satisfying "a line break" Token.isLineBreak
  rw [breaksLine, ← hrest] at h
  cases hrow : c₁.rest with
  | nil =>
    rw [hrow] at h
    cases h
  | cons t rest =>
    rw [hrow] at h
    have ht : t.value.isLineBreak = true := h
    obtain ⟨c₂, hgap, hrest₂, hcalm⟩ := exists_gap (c₁.pass t rest)
    have hlast : pastGaps rest = pastGaps c.rest := by
      rw [← pastGaps_pastSpaces c.rest, ← hrest, hrow, pastGaps_cons (isGap_of_isLineBreak ht)]
    refine ⟨c₂, ?_, hrest₂.trans hlast, fun _ => hcalm fun f hf => by cases hf⟩
    rw [lineBreak, bind_of_ok hspace, bind_of_ok (htests.pass hrow (if_pos ht)), hgap]

lemma recoverable_lineBreak (h : breaksLine c.rest = false) : Recoverable (lineBreak c) := by
  obtain ⟨c₁, hspace, hrest, -⟩ := exists_space c
  rw [breaksLine, ← hrest] at h
  have htests := tests_satisfying "a line break" Token.isLineBreak
  obtain ⟨f, c₂, hfail, hf⟩ := htests.fail (c := c₁) fun t ht => by
    rw [ht] at h
    simpa using h
  rw [lineBreak, bind_of_ok hspace, bind_of_error hfail]
  exact recoverable_error hf

/-- After a definition the lines go on if there is a line break. -/
lemma lines_of_ok {x : Definition.Placed} (h : definition formula c.fork = .ok x d)
    (hc : c.Calm) (hd : d.Calm) :
    ∃ c', c'.Calm ∧ if breaksLine d.rest then
        c'.rest = pastGaps d.rest ∧ c'.rest.length < c.rest.length ∧
          lines c = Outcome.prepend x (lines c')
      else c'.rest = d.rest ∧ lines c = .ok [x] c' := by
  have helement := optional_of_ok h
  have hcalm : (c.adopt d).Calm := hc.adopt hd
  cases hbreak : breaksLine d.rest with
  | true =>
    obtain ⟨d₁, hrun, hrest, hcalm₁⟩ := exists_lineBreak (c := (c.adopt d).fork)
      (by rw [← hbreak]; exact congrArg breaksLine (Cursor.rest_adopt c d))
    -- the line break passes something, so the lines go on
    have hlt : d₁.rest.length < c.rest.length := by
      have hpasses := (passes_lineBreak hrun).2
      have hadvances := (advances_definition h).length_le
      have hsame : (c.adopt d).fork.rest = d.rest := Cursor.rest_adopt c d
      rw [hsame] at hpasses
      exact Nat.lt_of_lt_of_le hpasses hadvances
    refine ⟨(c.adopt d).adopt d₁, hcalm.adopt (hcalm₁ (calm_fork _)), ?_⟩
    rw [if_pos rfl, Cursor.rest_adopt]
    refine ⟨hrest.trans (congrArg pastGaps (Cursor.rest_adopt c d)), hlt, ?_⟩
    rw [lines, separated, collect, bind_of_ok helement]
    dsimp only
    rw [bind_of_ok (optional_of_ok hrun)]
    simp [Pure.pure, EStateM.pure, hlt]
  | false =>
    obtain ⟨f, d₁, hrun, hf⟩ := recoverable_lineBreak (c := (c.adopt d).fork)
      (by rw [← hbreak]; exact congrArg breaksLine (Cursor.rest_adopt c d))
    refine ⟨(c.adopt d).record f, hcalm.record hf, ?_⟩
    rw [if_neg Bool.false_ne_true]
    refine ⟨Cursor.rest_adopt c d, ?_⟩
    rw [lines, separated, collect, bind_of_ok helement]
    dsimp only
    rw [bind_of_ok (optional_of_error hrun hf)]
    simp [Pure.pure, EStateM.pure]

/-- Where there is no definition the lines are at their end. -/
lemma lines_of_recoverable (h : Recoverable (definition formula c.fork)) :
    ∃ c', lines c = .ok [] c' ∧ c'.rest = c.rest := by
  obtain ⟨f, d, hrun, hf⟩ := h
  refine ⟨c.record f, ?_, rfl⟩
  rw [lines, separated, collect, bind_of_ok (optional_of_error hrun hf)]
  rfl

lemma lines_of_nil (h : c.rest = []) : ∃ c', lines c = .ok [] c' := by
  have hblank : ∀ t ∈ c.fork.rest.head?, t.value.isGap = true := by
    rw [show c.fork.rest = [] from h]
    rintro t ⟨⟩
  obtain ⟨c', hrun, -⟩ := lines_of_recoverable (rejects_definition_blank ⟨hblank, calm_fork c⟩)
  exact ⟨c', hrun⟩

lemma pastGaps_ne_nil {ts : List (Located Token)} (h : solids ts ≠ []) : pastGaps ts ≠ [] := by
  intro hnil
  rw [← solids_pastGaps, hnil] at h
  exact h rfl

/-- Lines that leave nothing but white space begin with a definition, if there is any token. -/
lemma exists_definition_of_lines {ps : List Definition.Placed} (hrun : lines c = .ok ps c')
    (hend : pastGaps c'.rest = []) (hsolid : solids c.rest ≠ []) :
    ∃ x d, definition formula c.fork = .ok x d := by
  cases hdefinition : definition formula c.fork with
  | ok x d => exact ⟨x, d, rfl⟩
  | error f d =>
    exfalso
    cases hf : f.fatal with
    | true =>
      rw [lines, separated, collect, bind_of_error (optional_of_fatal hdefinition hf)] at hrun
      cases hrun
    | false =>
      -- there are no lines then, and the token is left over
      obtain ⟨c₁, hnone, hrest⟩ := lines_of_recoverable ⟨f, d, hdefinition, hf⟩
      rw [hnone] at hrun
      cases hrun
      exact pastGaps_ne_nil (by rwa [hrest]) hend

/-- No line comes after a definition that only white space is left behind. -/
lemma eq_singleton_of_lines {x : Definition.Placed} {ps : List Definition.Placed}
    (h : definition formula c.fork = .ok x d) (hc : c.Calm) (hd : d.Calm)
    (hblank : pastGaps d.rest = []) (hrun : lines c = .ok ps c') : ps = [x] := by
  obtain ⟨c₁, -, hlines⟩ := lines_of_ok h hc hd
  cases hbreak : breaksLine d.rest with
  | false =>
    rw [hbreak, if_neg Bool.false_ne_true] at hlines
    rw [hlines.2] at hrun
    cases hrun
    rfl
  | true =>
    rw [hbreak, if_pos rfl, hblank] at hlines
    obtain ⟨c₂, hnone⟩ := lines_of_nil hlines.1
    rw [hlines.2.2, hnone] at hrun
    cases hrun
    rfl

/-- Between a definition and a token further on there is a line break, behind which the lines go
on. -/
lemma exists_lines_of_solid {x : Definition.Placed} {ps : List Definition.Placed}
    (h : definition formula c.fork = .ok x d) (hc : c.Calm) (hd : d.Calm)
    (hsolid : solids d.rest ≠ []) (hrun : lines c = .ok ps c') (hend : pastGaps c'.rest = []) :
    breaksLine d.rest = true ∧ ∃ c₁ ps', c₁.Calm ∧ c₁.rest = pastGaps d.rest ∧
      c₁.rest.length < c.rest.length ∧ lines c₁ = .ok ps' c' ∧ ps = x :: ps' := by
  obtain ⟨c₁, hc₁, hlines⟩ := lines_of_ok h hc hd
  cases hbreak : breaksLine d.rest with
  | false =>
    rw [hbreak, if_neg Bool.false_ne_true] at hlines
    rw [hlines.2] at hrun
    cases hrun
    exact absurd hend (pastGaps_ne_nil (by rwa [hlines.1]))
  | true =>
    rw [hbreak, if_pos rfl] at hlines
    obtain ⟨hrest, hlt, hlines⟩ := hlines
    rw [hlines] at hrun
    cases hmore : lines c₁ with
    | error f c₂ =>
      rw [hmore] at hrun
      cases hrun
    | ok ps' c₂ =>
      rw [hmore] at hrun
      cases hrun
      exact ⟨rfl, c₁, ps', hc₁, hrest, hlt, hmore, rfl⟩

/-- Programs are lines between white space. -/
lemma exists_lines (ts : List (Located Token)) : ∃ c : Cursor Token, c.Calm ∧ c.rest = pastGaps ts ∧
    ∀ p, DefinitionSet.ofTokens ts = .ok p ↔
      ∃ ds c', lines c = .ok ds c' ∧ pastGaps c'.rest = [] ∧ p = DefinitionSet.ofDefinitions ds := by
  set start := Cursor.before ts (rowSpan ts) with hstart
  have hcalm : start.Calm := fun f hf => by cases hf
  obtain ⟨c, hgap, hrest, hc⟩ := exists_gap start
  refine ⟨c, hc hcalm, hrest, fun p => ?_⟩
  unfold DefinitionSet.ofTokens
  dsimp only
  rw [← hstart, within, definitions, bind_of_ok hgap]
  cases hlines : lines c with
  | error f c' =>
    rw [bind_of_error hlines]
    simp
  | ok ds c' =>
    obtain ⟨c₁, hgap₁, hrest₁, -⟩ := exists_gap c'
    -- nothing but white space may be left
    have hatEnd : c₁.atEnd = true ↔ pastGaps c'.rest = [] := by
      rw [Cursor.atEnd, List.isEmpty_iff, hrest₁]
    rw [bind_of_ok hlines, bind_of_ok hgap₁]
    cases hend : c₁.atEnd with
    | true =>
      simp only [Pure.pure, EStateM.pure, hend, if_true]
      constructor
      · rintro h
        cases h
        exact ⟨ds, c', rfl, hatEnd.mp hend, rfl⟩
      · rintro ⟨_, _, h, -, rfl⟩
        cases h
        rfl
    | false =>
      have hne : pastGaps c'.rest ≠ [] := fun h => by simp [hatEnd.mpr h] at hend
      simp [Pure.pure, EStateM.pure, hend, hne]

/-! ## One program after the other -/

variable {us : List (Located Token)} {span : Span}

/-- The lines of the first row, and then those that the second row goes on with. -/
lemma lines_joined (hφ : KeepsHulls φ) (hψ : KeepsHulls ψ) (hmore : GoesOn (⟨.lineBreak, span⟩ :: us))
    {qs : List Definition.Placed}
    (hqs : ∀ d : Cursor Token, d.Calm → d.rest = us → ∃ es d', lines d = .ok es d' ∧
      List.Forall₂ (DefinitionsMeet χ ψ) qs es ∧ pastGaps d'.rest = [])
    {ps : List Definition.Placed} (hc : c.Calm) (hd : d.Calm) (hrun : lines c = .ok ps c')
    (hend : pastGaps c'.rest = [])
    (hrows : c.rest = [] ∧ d.rest = us ∨ solids c.rest ≠ [] ∧ Ended c.rest ∧
      RowsMeet φ ψ (⟨.lineBreak, span⟩ :: us) c.rest d.rest) :
    ∃ ds es d', lines d = .ok (ds ++ es) d' ∧ List.Forall₂ (DefinitionsMeet φ ψ) ps ds ∧
      List.Forall₂ (DefinitionsMeet χ ψ) qs es ∧ pastGaps d'.rest = [] := by
  have hafter : pastGaps (⟨.lineBreak, span⟩ :: us) = us := hmore.pastGaps_eq
  -- every line passes a token of the first row
  induction hk : c.rest.length using Nat.strongRecOn generalizing c d ps with
  | _ k ih =>
    rcases hrows with ⟨hnil, hus⟩ | ⟨hsolid, hended, hrows⟩
    · -- the first row is at its end, so it has no further lines
      obtain ⟨c₁, hnone⟩ := lines_of_nil hnil
      rw [hnone] at hrun
      cases hrun
      obtain ⟨es, d', hlines, hes, hlast⟩ := hqs d hd hus
      exact ⟨[], es, d', hlines, .nil, hes, hlast⟩
    · have hfacing : Facing φ ψ (⟨.lineBreak, span⟩ :: us) (listWeight c.rest + 1) c.fork d.fork :=
        ⟨hrows, fun _ => hended, Nat.lt_succ_self _⟩
      have hfollowed := follows_definition hmore (alikeBelow hφ hψ _)
        (Paired.fork ⟨hfacing, hc, hd⟩)
      obtain ⟨x, c₁, hdefinition⟩ := exists_definition_of_lines hrun hend hsolid
      rw [hdefinition] at hfollowed
      obtain ⟨y, d₁, hdefinition', hxy, hcd₁⟩ := hfollowed
      have hrows₁ : RowsMeet φ ψ (⟨.lineBreak, span⟩ :: us) c₁.rest d₁.rest := hcd₁.related.rows
      obtain ⟨d₂, hd₂, hlinesd⟩ := lines_of_ok hdefinition' hd hcd₁.calm'
      by_cases hsolid₁ : solids c₁.rest = []
      · -- the line break after the last line leads to the second program
        obtain ⟨hnil, hnext⟩ := hrows₁.pastGaps_eq hsolid₁
        rw [hrows₁.breaksLine hmore hsolid₁, if_pos rfl, hnext, hafter] at hlinesd
        obtain ⟨hus, -, hlinesd⟩ := hlinesd
        obtain ⟨es, d', hlines, hes, hlast⟩ := hqs d₂ hd₂ hus
        rw [hlines] at hlinesd
        rw [eq_singleton_of_lines hdefinition hc hcd₁.calm hnil hrun]
        exact ⟨[y], es, d', hlinesd, .cons hxy .nil, hes, hlast⟩
      · -- both rows have another line, and the line breaks in front of it are passed alike
        obtain ⟨hbreak, c₂, ps', hc₂, hrestc, hlt, hlines, rfl⟩ :=
          exists_lines_of_solid hdefinition hc hcd₁.calm hsolid₁ hrun hend
        rw [← hrows₁.breaksLine_eq hmore hsolid₁, hbreak, if_pos rfl] at hlinesd
        obtain ⟨hrestd, -, hlinesd⟩ := hlinesd
        have hsolid₂ : solids c₂.rest ≠ [] := by rwa [hrestc, solids_pastGaps]
        have hended₂ : Ended c₂.rest := by
          rw [hrestc]
          exact (hcd₁.related.ended (by simp)).of_suffix (List.dropWhile_suffix _)
        have hrows₂ : RowsMeet φ ψ (⟨.lineBreak, span⟩ :: us) c₂.rest d₂.rest := by
          rw [hrestc, hrestd]
          exact hrows₁.gaps fun _ => hsolid₁
        obtain ⟨ds, es, d', hlines', hds, hes, hlast⟩ := ih _ (by rw [← hk]; exact hlt) hc₂ hd₂
          hlines (.inr ⟨hsolid₂, hended₂, hrows₂⟩) rfl
        rw [hlines'] at hlinesd
        exact ⟨y :: ds, es, d', hlinesd, .cons hxy hds, hes, hlast⟩

end Grammar

section Joined

variable {φ ψ χ : Position → Position} {ps qs rs us : List (Located Token)} {span : Span}
  {p q : DefinitionSet.Placed}

open Grammar Token

/-- Programs begin with a name, if they do not begin with white space. -/
lemma DefinitionSet.head_of_ofTokens (h : DefinitionSet.ofTokens qs = .ok q)
    (hstart : ∀ t ∈ qs.head?, t.value.isGap = false) :
    ∀ t ∈ qs.head?, ∃ n raw, t.value = .ident n raw := by
  intro t ht
  obtain ⟨c, -, hrest, hlines⟩ := exists_lines qs
  obtain ⟨ds, c', hrun, hend, -⟩ := (hlines q).mp h
  rw [pastGaps_eq_self hstart] at hrest
  by_contra hident
  -- without a name there is no definition, and the token would be left over
  obtain ⟨f, c₁, hname, hf⟩ := tests_name.fail (c := c.fork) fun u hu => by
    rw [show c.fork.rest = qs from hrest, ht] at hu
    cases hu
    obtain ⟨t, span⟩ := t
    cases t <;> first | rfl | exact absurd ⟨_, _, rfl⟩ hident
  have hdefinition : definition formula c.fork = .error f c₁ :=
    bind_of_error (m := name) (s := c.fork) hname
  obtain ⟨c₂, hnone, hrest₂⟩ := lines_of_recoverable ⟨f, c₁, hdefinition, hf⟩
  rw [hnone] at hrun
  cases hrun
  rw [hrest₂, hrest, pastGaps_eq_self hstart] at hend
  rw [hend] at ht
  cases ht

/-- A row that holds the tokens of a program, a line break and the tokens of another program is read
as the definitions of the one and then those of the other. -/
theorem DefinitionSet.ofTokens_joined (hφ : KeepsHulls φ) (hψ : KeepsHulls ψ) (hχ : KeepsHulls χ)
    (hrows : RowsMeet φ ψ (⟨.lineBreak, span⟩ :: us) ps rs) (hus : RowsMeet χ ψ [] qs us)
    (hstart : ∀ t ∈ qs.head?, t.value.isGap = false) (hp : DefinitionSet.ofTokens ps = .ok p)
    (hq : DefinitionSet.ofTokens qs = .ok q) :
    ∃ r, DefinitionSet.ofTokens rs = .ok r ∧ r.definitions.map (Definition.move ψ) =
      p.definitions.map (Definition.move φ) ++ q.definitions.map (Definition.move χ) := by
  have hmore : GoesOn (⟨.lineBreak, span⟩ :: us) := by
    have hhead := DefinitionSet.head_of_ofTokens hq hstart
    refine .inr ⟨span, us, rfl, fun u hu => ?_⟩
    cases hus with
    | done => cases hu
    | blank hgap =>
      cases hu
    | @cons _ _ _ t _ _ _ head _ _ =>
      cases hu
      obtain ⟨n, raw, rfl⟩ : ∃ n raw, t = .ident n raw := hhead _ rfl
      cases head with
      | leaf _ => exact ⟨n, raw, rfl⟩
  obtain ⟨c, hc, hcrest, hlinesc⟩ := exists_lines ps
  obtain ⟨d, hd, hdrest, hlinesd⟩ := exists_lines rs
  obtain ⟨c₁, hc₁, hcrest₁, hlinesc₁⟩ := exists_lines qs
  obtain ⟨ds, c', hrun, hend, rfl⟩ := (hlinesc p).mp hp
  obtain ⟨es, c₁', hrun₁, hend₁, rfl⟩ := (hlinesc₁ q).mp hq
  rw [pastGaps_eq_self hstart] at hcrest₁
  -- what comes after the line break is read like the second program by itself
  have hsecond : ∀ d : Cursor Token, d.Calm → d.rest = us → ∃ fs d', lines d = .ok fs d' ∧
      List.Forall₂ (DefinitionsMeet χ ψ) es fs ∧ pastGaps d'.rest = [] := by
    intro d hd hdrest
    have hfacing : Facing χ ψ [] (listWeight qs + 1) c₁.fork d.fork :=
      ⟨by rwa [show c₁.fork.rest = qs from hcrest₁, show d.fork.rest = us from hdrest],
        fun hne => absurd rfl hne, by
          rw [show c₁.fork.rest = qs from hcrest₁]
          exact Nat.lt_succ_self _⟩
    have hfollowed := follows_lines (alikeBelow hχ hψ _) ⟨hfacing, hc₁, hd⟩
    rw [hrun₁] at hfollowed
    obtain ⟨fs, d', hrun', hfs, hcd'⟩ := hfollowed
    exact ⟨fs, d', hrun', hfs, hcd'.related.rows.pastGaps_eq_nil_iff.mp hend₁⟩
  have hbefore : c.rest = [] ∧ d.rest = us ∨ solids c.rest ≠ [] ∧ Ended c.rest ∧
      RowsMeet φ ψ (⟨.lineBreak, span⟩ :: us) c.rest d.rest := by
    rw [hcrest, hdrest, solids_pastGaps]
    by_cases hblank : solids ps = []
    · obtain ⟨hnil, hnext⟩ := hrows.pastGaps_eq hblank
      exact .inl ⟨hnil, hnext.trans hmore.pastGaps_eq⟩
    · exact .inr ⟨hblank, (DefinitionSet.ended_of_ofTokens hp).of_suffix (List.dropWhile_suffix _),
        hrows.gaps fun _ => hblank⟩
  obtain ⟨fs, gs, d', hrun', hfs, hgs, hend'⟩ :=
    lines_joined hφ hψ hmore hsecond hc hd hrun hend hbefore
  refine ⟨_, (hlinesd _).mpr ⟨_, d', hrun', hend', rfl⟩, ?_⟩
  show (fs ++ gs).map (Definition.move ψ) =
    ds.map (Definition.move φ) ++ es.map (Definition.move χ)
  rw [List.map_append, forall₂_iff_map_eq.mp hfs, forall₂_iff_map_eq.mp hgs]

end Joined

end Formulary
