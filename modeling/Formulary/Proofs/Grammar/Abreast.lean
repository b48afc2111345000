/-
# Rows of tokens read side by side

Two cursors face each other if the rows in front of them meet, and stand abreast if the tokens just
passed end at places that meet, too.  The second row may go on where the first one ends, but only
with a line break in front of a name; and then the first row must not break off in the midst of a
formula.  So white space that is passed in the first row never leads out of it where a formula has
to follow, and the parsers of single tokens go through both rows alike.
-/
import Formulary.Proofs.Grammar.Endings
import Formulary.Proofs.Grammar.Operands
import Formulary.Proofs.Parsing.Following
import Formulary.Proofs.Token.Meeting

namespace Formulary

open Text Word Parsing

namespace Token

variable {φ ψ : Position → Position} {more ts us : List (Located Token)}

/-- What a row of tokens may go on with: nothing, or a line break in front of a name. -/
def GoesOn (more : List (Located Token)) : Prop :=
  more = [] ∨ ∃ span us, more = ⟨.lineBreak, span⟩ :: us ∧
    ∀ t ∈ us.head?, ∃ n raw, t.value = .ident n raw

/-- Tokens up to the first that is no white space within a line. -/
def pastSpaces (ts : List (Located Token)) : List (Located Token) :=
  ts.dropWhile fun t => t.value.isSpace

/-- Tokens up to the first that is no white space. -/
def pastGaps (ts : List (Located Token)) : List (Located Token) :=
  ts.dropWhile fun t => t.value.isGap

lemma GoesOn.pastSpaces_eq (h : GoesOn more) : pastSpaces more = more := by
  rcases h with rfl | ⟨span, us, rfl, -⟩
  · rfl
  · rfl

lemma Meet.isSpace_eq {t u : Token} (h : Meet φ ψ t u) : t.isSpace = u.isSpace :=
  h.holds_eq fun _ _ => rfl

lemma Meet.isGap_eq {t u : Token} (h : Meet φ ψ t u) : t.isGap = u.isGap :=
  h.holds_eq fun _ _ => rfl

lemma RowsMeet.spaces (hmore : GoesOn more) (h : RowsMeet φ ψ more ts us) :
    RowsMeet φ ψ more (pastSpaces ts) (pastSpaces us) := by
  induction ts generalizing us with
  | nil =>
    cases h with
    | done =>
      rw [hmore.pastSpaces_eq]
      exact .done
  | cons t ts ih =>
    cases h with
    | blank h =>
      rw [hmore.pastSpaces_eq]
      rcases h with rfl | ⟨rfl, hne⟩
      · exact .done
      · exact .blank (.inr ⟨rfl, hne⟩)
    | @cons _ _ us t u s s' head hspan tail =>
      have hsame := head.isSpace_eq
      cases hu : u.isSpace with
      | true =>
        rw [hu] at hsame
        simpa [pastSpaces, hu, hsame] using ih tail
      | false =>
        rw [hu] at hsame
        simpa [pastSpaces, hu, hsame] using .cons head hspan tail

/-- Where a further token is to come, white space ends in front of the same token. -/
lemma RowsMeet.gaps (h : RowsMeet φ ψ more ts us) (hsolid : more ≠ [] → solids ts ≠ []) :
    RowsMeet φ ψ more (pastGaps ts) (pastGaps us) := by
  induction ts generalizing us with
  | nil =>
    cases h with
    | done =>
      by_cases hmore : more = []
      · subst hmore
        exact .done
      · exact absurd rfl (hsolid hmore)
  | cons t ts ih =>
    cases h with
    | @blank _ t span h =>
      have hgap : t.isGap = true := by rcases h with rfl | ⟨rfl, -⟩ <;> rfl
      by_cases hmore : more = []
      · subst hmore
        have hnil : pastGaps [⟨t, span⟩] = [] := by simp [pastGaps, hgap]
        rw [hnil]
        exact .done
      · -- the second row goes on, so the first one does not end in white space
        exact absurd (solids_cons_of_isGap hgap []) (hsolid hmore)
    | @cons _ _ us t u s s' head hspan tail =>
      have hsame := head.isGap_eq
      cases hu : u.isGap with
      | true =>
        rw [hu] at hsame
        have hrest := ih tail fun hmore => by
          rw [← solids_cons_of_isGap (t := ⟨t, s⟩) hsame]
          exact hsolid hmore
        simpa [pastGaps, hu, hsame] using hrest
      | false =>
        rw [hu] at hsame
        simpa [pastGaps, hu, hsame] using .cons head hspan tail

/-- After white space both rows are at their ends or none is, unless the second goes on. -/
lemma RowsMeet.pastGaps_eq_nil_iff (h : RowsMeet φ ψ [] ts us) :
    pastGaps ts = [] ↔ pastGaps us = [] := by
  induction ts generalizing us with
  | nil =>
    cases h with
    | done => exact Iff.rfl
  | cons t ts ih =>
    cases h with
    | blank h =>
      rcases h with rfl | ⟨-, hne⟩
      · exact Iff.rfl
      · exact absurd rfl hne
    | @cons _ _ us t u s s' head hspan tail =>
      have hsame := head.isGap_eq
      cases hu : u.isGap with
      | true =>
        rw [hu] at hsame
        simpa [pastGaps, hu, hsame] using ih tail
      | false =>
        rw [hu] at hsame
        simp [pastGaps, hu, hsame]

/-- Where the first row has nothing but white space, the second is at what it goes on with. -/
lemma RowsMeet.pastGaps_eq (h : RowsMeet φ ψ more ts us) (hblank : solids ts = []) :
    pastGaps ts = [] ∧ pastGaps us = pastGaps more := by
  induction ts generalizing us with
  | nil =>
    cases h with
    | done => exact ⟨rfl, rfl⟩
  | cons t ts ih =>
    cases h with
    | @blank _ t span h =>
      have hgap : t.isGap = true := by rcases h with rfl | ⟨rfl, -⟩ <;> rfl
      exact ⟨by simp [pastGaps, hgap], rfl⟩
    | @cons _ _ us t u s s' head hspan tail =>
      have hsame := head.isGap_eq
      cases hu : u.isGap with
      | true =>
        rw [hu] at hsame
        rw [solids_cons_of_isGap hsame] at hblank
        simpa [pastGaps, hu, hsame] using ih tail hblank
      | false =>
        rw [hu] at hsame
        rw [solids_cons hsame] at hblank
        cases hblank

/-- What a row goes on with begins with a name after the line break. -/
lemma GoesOn.head_pastGaps (h : GoesOn more) :
    ∀ t ∈ (pastGaps more).head?, ∃ n raw, t.value = .ident n raw := by
  rcases h with rfl | ⟨span, us, rfl, hus⟩
  · rintro t ⟨⟩
  · have hdrop : pastGaps (⟨.lineBreak, span⟩ :: us) = pastGaps us := rfl
    rw [hdrop]
    cases us with
    | nil => rintro t ⟨⟩
    | cons u us =>
      obtain ⟨n, raw, hu⟩ := hus u rfl
      have hsame : pastGaps (u :: us) = u :: us := by
        have hgap : u.value.isGap = false := by rw [hu]; rfl
        simp [pastGaps, hgap]
      rw [hsame]
      exact hus

end Token

namespace Grammar

open Token

variable {φ ψ : Position → Position} {more : List (Located Token)} {n k : Nat} {α α' β β' : Type}

/-! ## Pairs of cursors -/

/-- The rows to come meet.  The first weighs less than `n`, and if the second goes on, the first
has its end in a place where a formula may end. -/
structure Facing (φ ψ : Position → Position) (more : List (Located Token)) (n : Nat)
    (c d : Cursor Token) : Prop where
  rows : RowsMeet φ ψ more c.rest d.rest
  ended : more ≠ [] → Ended c.rest
  weight : listWeight c.rest < n

/-- The rows to come meet, and so do the places where the tokens just passed end. -/
structure Abreast (φ ψ : Position → Position) (more : List (Located Token)) (n : Nat)
    (c d : Cursor Token) : Prop extends Facing φ ψ more n c d where
  previous : φ c.previousEnd = ψ d.previousEnd

/-- The rows to come meet, and the first one does not end here if the second one goes on. -/
structure Midway (φ ψ : Position → Position) (more : List (Located Token)) (n : Nat)
    (c d : Cursor Token) : Prop extends Facing φ ψ more n c d where
  solid : more ≠ [] → solids c.rest ≠ []

/-- The rows to come meet, and both end here or none of them. -/
structure Level (φ ψ : Position → Position) (n : Nat) (c d : Cursor Token) : Prop extends
    Facing φ ψ [] n c d where
  atEnd : c.rest = [] ↔ d.rest = []

lemma Facing.mono {c d : Cursor Token} (h : Facing φ ψ more k c d) (hle : k ≤ n) :
    Facing φ ψ more n c d := ⟨h.rows, h.ended, Nat.lt_of_lt_of_le h.weight hle⟩

lemma Abreast.mono {c d : Cursor Token} (h : Abreast φ ψ more k c d) (hle : k ≤ n) :
    Abreast φ ψ more n c d := ⟨h.toFacing.mono hle, h.previous⟩

/-- Where a row that does not go on is to come, nothing is asked of its end. -/
lemma Facing.midway {c d : Cursor Token} (h : Facing φ ψ [] n c d) : Midway φ ψ [] n c d :=
  ⟨h, fun hne => absurd rfl hne⟩

/-- What is recorded does not matter. -/
lemma Facing.of_fork {c d : Cursor Token} (h : Facing φ ψ more n c.fork d.fork) :
    Facing φ ψ more n c d := ⟨h.rows, h.ended, h.weight⟩

lemma Midway.of_fork {c d : Cursor Token} (h : Midway φ ψ more n c.fork d.fork) :
    Midway φ ψ more n c d := ⟨h.toFacing.of_fork, h.solid⟩

/-! ## Parsers of single tokens -/

/-- The parser passes the next token if `accept` gives a value for it, and fails otherwise in a way
that may be backtracked over. -/
structure Tests (m : Parser Token α) (accept : Located Token → Option α) : Prop where
  pass : ∀ ⦃c t rest a⦄, c.rest = t :: rest → accept t = some a → m c = .ok a (c.pass t rest)
  fail : ∀ ⦃c⦄, (∀ t ∈ c.rest.head?, accept t = none) → Recoverable (m c)

/-- It is enough to look at the end of a row, and at one token in front of a row. -/
lemma tests_of_cons {m : Parser Token α} {accept : Located Token → Option α}
    (hnil : ∀ c, c.rest = [] → Recoverable (m c))
    (hcons : ∀ c t rest, c.rest = t :: rest →
      (∃ a, accept t = some a ∧ m c = .ok a (c.pass t rest)) ∨
        accept t = none ∧ Recoverable (m c)) : Tests m accept where
  pass c t rest a hrest ht := by
    obtain ⟨b, hb, hrun⟩ | ⟨hnone, -⟩ := hcons c t rest hrest
    · rw [hrun, Option.some.inj (ht.symm.trans hb)]
    · rw [hnone] at ht
      cases ht
  fail c hfail := by
    cases hrest : c.rest with
    | nil => exact hnil c hrest
    | cons t rest =>
      obtain ⟨a, ha, -⟩ | ⟨-, hrun⟩ := hcons c t rest hrest
      · rw [hfail t (by rw [hrest]; rfl)] at ha
        cases ha
      · exact hrun

lemma tests_satisfying (what : String) (holds : Token → Bool) :
    Tests (Parsing.satisfying what holds) fun t => if holds t.value then some t else none := by
  refine tests_of_cons (fun c hrest => ?_) fun c t rest hrest => ?_
  · rw [Parsing.satisfying, hrest]
    exact recoverable_error rfl
  · rw [Parsing.satisfying, hrest]
    cases hholds : holds t.value with
    | true => exact .inl ⟨t, if_pos rfl, by simp [hholds]⟩
    | false =>
      refine .inr ⟨if_neg Bool.false_ne_true, ?_⟩
      simp only [hholds]
      exact recoverable_error rfl

lemma tests_name : Tests name fun t =>
    match t.value with
    | .ident n raw => if !raw && isReserved n then none else some n
    | _ => none := by
  refine tests_of_cons (fun c hrest => ?_) ?_
  · rw [name, hrest]
    exact recoverable_error rfl
  · rintro c ⟨t, span⟩ rest hrest
    rw [name, hrest]
    cases t with
    | ident n raw =>
      cases hreserved : !raw && isReserved n with
      | true =>
        refine .inr ⟨if_pos hreserved, ?_⟩
        simp only [hreserved]
        exact recoverable_error rfl
      | false => exact .inl ⟨n, by simp only [hreserved]; rfl, by simp only [hreserved]; rfl⟩
    | _ => exact .inr ⟨rfl, recoverable_error rfl⟩

lemma tests_infixOperator : Tests infixOperator fun t =>
    match t.value with
    | .operator s => if Word.isOperator s then some ⟨s, t.span⟩ else none
    | _ => none := by
  refine tests_of_cons (fun c hrest => ?_) ?_
  · rw [infixOperator, hrest]
    exact recoverable_error rfl
  · rintro c ⟨t, span⟩ rest hrest
    rw [infixOperator, hrest]
    cases t with
    | operator s =>
      cases hoperator : Word.isOperator s with
      | true => exact .inl ⟨⟨s, span⟩, by simp only [hoperator]; rfl, by simp only [hoperator]; rfl⟩
      | false =>
        refine .inr ⟨by simp only [hoperator]; rfl, ?_⟩
        simp only [hoperator]
        exact recoverable_error rfl
    | _ => exact .inr ⟨rfl, recoverable_error rfl⟩

lemma tests_groupOf (what : String) (accepts : GroupKind → Bool) :
    Tests (groupOf what accepts) fun t =>
      match t.value with
      | .group kind tokens => if accepts kind then some (Cursor.before tokens t.span) else none
      | _ => none := by
  refine tests_of_cons (fun c hrest => ?_) ?_
  · rw [groupOf, hrest]
    exact recoverable_error rfl
  · rintro c ⟨t, span⟩ rest hrest
    rw [groupOf, hrest]
    cases t with
    | group kind tokens =>
      cases hkind : accepts kind with
      | true => exact .inl ⟨_, by simp only [hkind]; rfl, by simp only [hkind]; rfl⟩
      | false =>
        refine .inr ⟨by simp only [hkind]; rfl, ?_⟩
        simp only [hkind]
        exact recoverable_error rfl
    | _ => exact .inr ⟨rfl, recoverable_error rfl⟩

/-- Where no token but white space is next, a parser that accepts no white space fails. -/
def Blank : View Token := fun rest _ => ∀ t ∈ rest.head?, t.value.isGap = true

lemma Tests.rejects {m : Parser Token α} {accept : Located Token → Option α} (h : Tests m accept)
    (hgap : ∀ t, t.value.isGap = true → accept t = none) : Rejects Blank m :=
  fun _ hc => h.fail fun t ht => hgap t (hc.1 t ht)

/-- Two rows that meet begin with tokens that meet, or with nothing but white space. -/
lemma Facing.heads (hmore : GoesOn more) {c d : Cursor Token} (h : Facing φ ψ more n c d) :
    (∃ t s ts u s' us, c.rest = ⟨t, s⟩ :: ts ∧ d.rest = ⟨u, s'⟩ :: us ∧ Meet φ ψ t u ∧
      s.move φ = s'.move ψ ∧ RowsMeet φ ψ more ts us) ∨
      Blank c.rest c.previous ∧ Blank d.rest d.previous := by
  have hblank : ∀ t ∈ more.head?, t.value.isGap = true := by
    rcases hmore with rfl | ⟨span, us, rfl, -⟩
    · rintro t ⟨⟩
    · rintro t ⟨⟩
      rfl
  have hrows := h.rows
  generalize hts : c.rest = ts at hrows
  generalize hus : d.rest = us at hrows
  cases hrows with
  | done =>
    refine .inr ⟨?_, hblank⟩
    rintro t ⟨⟩
  | blank hgap =>
    refine .inr ⟨?_, hblank⟩
    rintro t ⟨⟩
    rcases hgap with rfl | ⟨rfl, -⟩ <;> rfl
  | cons head hspan tail => exact .inl ⟨_, _, _, _, _, _, rfl, rfl, head, hspan, tail⟩

/-- Passing tokens that meet leads to rows that meet. -/
lemma abreast_pass {c d : Cursor Token} {t u : Token} {s s' : Span} {ts us : List (Located Token)}
    (h : Facing φ ψ more (n + 1) c d) (hc : c.rest = ⟨t, s⟩ :: ts) (hspan : s.move φ = s'.move ψ)
    (htail : RowsMeet φ ψ more ts us) :
    Abreast φ ψ more n (c.pass ⟨t, s⟩ ts).fork (d.pass ⟨u, s'⟩ us).fork := by
  have hsuffix : ts <:+ c.rest := by
    rw [hc]
    exact List.suffix_cons _ _
  refine ⟨⟨htail, fun hmore => (h.ended hmore).of_suffix hsuffix, ?_⟩, (Span.mk.inj hspan).2⟩
  have hlt : listWeight ts < listWeight c.rest :=
    falls_listWeight.lt_of_suffix hsuffix (by rw [hc]; exact Nat.lt_succ_self _)
  exact Nat.lt_of_lt_of_le hlt (Nat.le_of_lt_succ h.weight)

variable {m : Parser Token α} {m' : Parser Token α'} {accept : Located Token → Option α}
  {accept' : Located Token → Option α'} {V : α → α' → Prop}

/-- Parsers of single tokens that accept tokens that meet go through both rows alike. -/
lemma follows_of_tests (hmore : GoesOn more) (hm : Tests m accept) (hm' : Tests m' accept')
    (hgap : ∀ t, t.value.isGap = true → accept t = none ∧ accept' t = none)
    (hV : ∀ t u s s', Meet φ ψ t u → s.move φ = s'.move ψ →
      Option.Rel V (accept ⟨t, s⟩) (accept' ⟨u, s'⟩)) :
    Follows (Facing φ ψ more (n + 1)) m m' V (Abreast φ ψ more n) := by
  intro c d hcd
  have hfacing : Facing φ ψ more (n + 1) c d := hcd.related.of_fork
  rcases hfacing.heads hmore with ⟨t, s, ts, u, s', us, hc, hd, head, hspan, tail⟩ | ⟨hc, hd⟩
  · have hsame := hV t u s s' head hspan
    generalize ha : accept ⟨t, s⟩ = o at hsame
    generalize hb : accept' ⟨u, s'⟩ = o' at hsame
    cases hsame with
    | some hab =>
      rw [hm.pass hc ha]
      exact ⟨_, _, hm'.pass hd hb, hab, paired_pass (abreast_pass hfacing hc hspan tail)⟩
    | none =>
      obtain ⟨f, c', hrun, -⟩ := hm.fail (c := c) (by rw [hc]; rintro x ⟨⟩; exact ha)
      rw [hrun]
      exact fun _ => hm'.fail (by rw [hd]; rintro x ⟨⟩; exact hb)
  · exact follows_of_rejects (hm.rejects fun t ht => (hgap t ht).1)
      (hm'.rejects fun t ht => (hgap t ht).2)
      (C := fun c d => Blank c.rest c.previous ∧ Blank d.rest d.previous) (fun _ _ => id)
      ⟨⟨hc, hd⟩, hcd.calm, hcd.calm'⟩

/-- After a token that a formula cannot end with the first row is not at its end. -/
lemma follows_of_tests_midway (hmore : GoesOn more) (hm : Tests m accept) (hm' : Tests m' accept')
    (hgap : ∀ t, t.value.isGap = true → accept t = none ∧ accept' t = none)
    (hV : ∀ t u s s', Meet φ ψ t u → s.move φ = s'.move ψ →
      Option.Rel V (accept ⟨t, s⟩) (accept' ⟨u, s'⟩))
    (hopen : ∀ t a, accept t = some a → t.value.endsFormula = false) :
    Follows (Facing φ ψ more (n + 1)) m m' V (Midway φ ψ more n) := by
  intro c d hcd
  have hrun := follows_of_tests hmore hm hm' hgap hV hcd
  cases hmc : m c with
  | error f c₁ =>
    rw [hmc] at hrun
    exact hrun
  | ok a c₁ =>
    rw [hmc] at hrun
    obtain ⟨b, d₁, hmd, hab, hcd₁⟩ := hrun
    refine ⟨b, d₁, hmd, hab, ⟨⟨hcd₁.related.toFacing, fun hne => ?_⟩, hcd₁.calm, hcd₁.calm'⟩⟩
    -- the token passed was the next one, and no formula ends with it
    have hfacing : Facing φ ψ more (n + 1) c d := hcd.related.of_fork
    have hended := hfacing.ended hne
    cases hrest : c.rest with
    | nil =>
      obtain ⟨f, c₂, hfail, -⟩ := hm.fail (c := c) (by rw [hrest]; rintro x ⟨⟩)
      rw [hfail] at hmc
      cases hmc
    | cons t rest =>
      cases ha : accept t with
      | none =>
        obtain ⟨f, c₂, hfail, -⟩ := hm.fail (c := c) (by rw [hrest]; rintro x ⟨⟩; exact ha)
        rw [hfail] at hmc
        cases hmc
      | some a' =>
        rw [hm.pass hrest ha] at hmc
        cases hmc
        rw [hrest] at hended
        refine hended.solids_ne_nil ?_ (hopen t _ ha)
        cases hisGap : t.value.isGap with
        | false => rfl
        | true =>
          rw [(hgap t hisGap).1] at ha
          cases ha

/-! ## White space -/

/-- Passing all tokens that satisfy a condition never fails. -/
lemma exists_many_satisfying (what : String) (holds : Token → Bool) (c : Cursor Token) :
    ∃ as c', many (Parsing.satisfying what holds) c = .ok as c' ∧
      c'.rest = c.rest.dropWhile (fun t => holds t.value) ∧ (c.Calm → c'.Calm) := by
  have htests := tests_satisfying what holds
  induction hk : c.rest.length using Nat.strongRecOn generalizing c with
  | _ k ih =>
    cases hstop : c.rest.head?.any fun t => holds t.value with
    | false =>
      have hnone : ∀ t ∈ c.fork.rest.head?, (if holds t.value then some t else none) = none := by
        intro t ht
        have ht' : c.rest.head? = some t := ht
        rw [ht'] at hstop
        simpa using hstop
      -- the next token does not satisfy it, so the repetition ends
      obtain ⟨f, c₁, hrun, hf⟩ := htests.fail hnone
      refine ⟨[], c.record f, many_of_error hrun hf, ?_, fun hc => hc.record hf⟩
      show c.rest = _
      cases hrest : c.rest with
      | nil => rfl
      | cons t rest =>
        rw [hrest] at hstop
        rw [List.dropWhile_cons_of_neg (by simpa using hstop)]
    | true =>
      cases hrest : c.rest with
      | nil =>
        rw [hrest] at hstop
        cases hstop
      | cons t rest =>
        rw [hrest] at hstop
        have hholds : holds t.value = true := hstop
        have hrun := htests.pass (c := c.fork) hrest (if_pos hholds)
        have hlt : rest.length < c.rest.length := by simp [hrest]
        obtain ⟨as, c', hmore, hdrop, hcalm⟩ := ih rest.length (by rw [← hk]; exact hlt)
          (c.adopt (c.fork.pass t rest)) (by rw [Cursor.rest_adopt]; rfl)
        refine ⟨t :: as, c', ?_, ?_, fun hc => hcalm (hc.adopt fun f hf => by cases hf)⟩
        · rw [many_of_ok hrun hlt, hmore]
          rfl
        · rw [hdrop, Cursor.rest_adopt]
          exact (List.dropWhile_cons_of_pos (p := fun t : Located Token => holds t.value) hholds).symm

lemma exists_space (c : Cursor Token) :
    ∃ c', space c = .ok () c' ∧ c'.rest = pastSpaces c.rest ∧ (c.Calm → c'.Calm) := by
  obtain ⟨as, c', hrun, hrest, hcalm⟩ := exists_many_satisfying "whitespace" isSpace c
  exact ⟨c', bind_of_ok hrun, hrest, hcalm⟩

lemma exists_gap (c : Cursor Token) :
    ∃ c', gap c = .ok () c' ∧ c'.rest = pastGaps c.rest ∧ (c.Calm → c'.Calm) := by
  obtain ⟨as, c', hrun, hrest, hcalm⟩ := exists_many_satisfying "whitespace" isGap c
  exact ⟨c', bind_of_ok hrun, hrest, hcalm⟩

/-- Behind a front part of the first row it is enough that the rows meet. -/
lemma Facing.shorten {c d c' d' : Cursor Token} (h : Facing φ ψ more n c d)
    (hsuffix : c'.rest <:+ c.rest) (hrows : RowsMeet φ ψ more c'.rest d'.rest) :
    Facing φ ψ more n c' d' :=
  ⟨hrows, fun hne => (h.ended hne).of_suffix hsuffix,
    Nat.lt_of_le_of_lt (falls_listWeight.le_of_suffix hsuffix) h.weight⟩

lemma follows_space (hmore : GoesOn more) :
    Follows (Facing φ ψ more n) space space (fun _ _ => True) (Facing φ ψ more n) := by
  intro c d hcd
  have hfacing : Facing φ ψ more n c d := hcd.related.of_fork
  obtain ⟨c', hrun, hrest, hcalm⟩ := exists_space c
  obtain ⟨d', hrun', hrest', hcalm'⟩ := exists_space d
  have hrows : RowsMeet φ ψ more c'.rest d'.rest := by
    rw [hrest, hrest']
    exact hfacing.rows.spaces hmore
  rw [hrun]
  refine ⟨(), d', hrun', trivial, ⟨hfacing.shorten ?_ hrows, hcalm hcd.calm, hcalm' hcd.calm'⟩⟩
  show c'.rest <:+ c.rest
  rw [hrest]
  exact List.dropWhile_suffix _

/-- Where the first row is not at its end, white space does not lead out of it. -/
lemma follows_gap :
    Follows (Midway φ ψ more n) gap gap (fun _ _ => True) (Facing φ ψ more n) := by
  intro c d hcd
  have hmidway : Midway φ ψ more n c d := hcd.related.of_fork
  obtain ⟨c', hrun, hrest, hcalm⟩ := exists_gap c
  obtain ⟨d', hrun', hrest', hcalm'⟩ := exists_gap d
  have hrows : RowsMeet φ ψ more c'.rest d'.rest := by
    rw [hrest, hrest']
    exact hmidway.rows.gaps hmidway.solid
  rw [hrun]
  refine ⟨(), d', hrun', trivial,
    ⟨hmidway.toFacing.shorten ?_ hrows, hcalm hcd.calm, hcalm' hcd.calm'⟩⟩
  show c'.rest <:+ c.rest
  rw [hrest]
  exact List.dropWhile_suffix _

/-- In a row that does not go on, white space leads to the ends of both rows or of none. -/
lemma follows_gap_level :
    Follows (Facing φ ψ [] n) gap gap (fun _ _ => True) (Level φ ψ n) := by
  intro c d hcd
  have hfacing : Facing φ ψ [] n c d := hcd.related.of_fork
  have hrun := follows_gap (hcd.mono fun _ _ => Facing.midway)
  obtain ⟨c', hrunc, hrest, -⟩ := exists_gap c
  obtain ⟨d', hrund, hrest', -⟩ := exists_gap d
  rw [hrunc] at hrun ⊢
  obtain ⟨x, d₁, hd₁, hx, hcd₁⟩ := hrun
  obtain ⟨rfl, rfl⟩ : () = x ∧ d' = d₁ := by
    rw [hrund] at hd₁
    cases hd₁
    exact ⟨rfl, rfl⟩
  refine ⟨(), d', hrund, trivial, ⟨⟨hcd₁.related, ?_⟩, hcd₁.calm, hcd₁.calm'⟩⟩
  show c'.rest = [] ↔ d'.rest = []
  rw [hrest, hrest']
  exact hfacing.rows.pastGaps_eq_nil_iff

/-- After white space that does lead out of the first row, an operator is missing in both. -/
lemma follows_gap_symbol (hmore : GoesOn more) (s : String) {f f' : Parser Token β}
    {W : β → β → Prop} {E : Pairing Token}
    (h : Follows (Midway φ ψ more n) f f' W E) :
    Follows (Facing φ ψ more (n + 1)) (gap >>= fun _ => symbol s >>= fun _ => f)
      (gap >>= fun _ => symbol s >>= fun _ => f') W E := by
  have hsymbol : Follows (Facing φ ψ more (n + 1)) (symbol s) (symbol s) (fun _ _ => True)
      (Midway φ ψ more n) := by
    refine follows_of_tests_midway hmore (tests_satisfying _ _) (tests_satisfying _ _) ?_ ?_ ?_
    · rintro ⟨t, span⟩ hgap
      have hnot : t.isOperator s = false := by cases t <;> first | rfl | cases hgap
      simp [hnot]
    · intro t u s₁ s₂ head hspan
      have hsame : t.isOperator s = u.isOperator s := head.holds_eq fun _ _ => rfl
      dsimp only
      rw [hsame]
      split
      · exact .some trivial
      · exact .none
    · rintro ⟨t, span⟩ a ha
      cases t with
      | operator symbol => rfl
      | _ => simp [Token.isOperator] at ha
  intro c d hcd
  have hfacing : Facing φ ψ more (n + 1) c d := hcd.related.of_fork
  by_cases hsolid : more ≠ [] → solids c.rest ≠ []
  · exact follows_bind follows_gap (fun _ _ _ => follows_bind hsymbol fun _ _ _ => h)
      ⟨⟨hcd.related, hsolid⟩, hcd.calm, hcd.calm'⟩
  · -- the white space is all that is left, and what the second row goes on with is a name
    obtain ⟨-, hblank⟩ := Classical.not_imp.mp hsolid
    obtain ⟨hnil, hpast⟩ := hfacing.rows.pastGaps_eq (not_not.mp hblank)
    obtain ⟨c', hrun, hrest, -⟩ := exists_gap c
    obtain ⟨d', hrun', hrest', -⟩ := exists_gap d
    have htests := tests_satisfying s!"`{s}`" (Token.isOperator s)
    obtain ⟨e, c₁, hfail, -⟩ := htests.fail (c := c') (by rw [hrest, hnil]; rintro t ⟨⟩)
    obtain ⟨e', d₁, hfail', he'⟩ := htests.fail (c := d') (by
      rw [hrest', hpast]
      intro t ht
      obtain ⟨n, raw, hident⟩ := hmore.head_pastGaps t ht
      simp [hident, Token.isOperator])
    rw [bind_of_ok hrun, bind_of_error (m := symbol s) hfail, bind_of_ok hrun',
      bind_of_error (m := symbol s) hfail']
    exact fun _ => recoverable_error he'

end Grammar

end Formulary
