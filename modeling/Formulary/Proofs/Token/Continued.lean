/-
# Rows read side by side

A text that is read into tokens is read into the same tokens, at the same places, where something
comes after it: as long as that begins with white space, and as the end of every open block.  Only
white space at the very end may become a part of what comes after.

The induction is on what is left of the first text.  If the first run gives up in front of a quote
or a bracket that is not closed, nothing is said of the second one, which may find the end of it:
then every row around gives up in the same place, and the first text is not read at all.
-/
import Formulary.Proofs.Token.Emission
import Formulary.Proofs.Token.Following
import Formulary.Proofs.Token.Steps

namespace Formulary.Token

open Text Word Parsing

variable {φ : Position → Position} {text z z' : List Char} {more : List (Located Token) → Prop}
  {c d c' d' : Cursor Char} {E : Option Nat} {n : Nat}

/-! ## Fatal failures -/

lemma fatal_of_optional {α : Type} {m : Parser Char α} {f : Failure}
    (h : Parsing.optional m c = .error f c') : f.fatal = true := by
  rw [Parsing.optional] at h
  split at h
  · cases h
  · rename_i g c₁ hm
    split at h
    · rename_i hg
      cases h
      exact hg
    · cases h

/-- A step fails only if a token or a block fails fatally. -/
lemma fatal_of_readStep {f : Failure} (h : readStep readTokens E c = .error f c') :
    f.fatal = true := by
  rcases readStep_error_inv h with ⟨c₁, htoken⟩ | ⟨t, c₁, c₂, -, hblock⟩
  · exact fatal_of_optional htoken
  · exact fatal_of_optional hblock

lemma fatal_of_readTokens {f : Failure} (h : readTokens E c = .error f c') : f.fatal = true := by
  rw [readTokens_eq, readRow, map_eq_pure_bind] at h
  cases hrows : readSteps E c with
  | ok rows c₁ =>
    rw [bind_of_ok hrows] at h
    cases h
  | error g c₁ =>
    rw [bind_of_error hrows] at h
    cases h
    obtain ⟨d, hstep, -⟩ := collect_error_inv hrows
    exact fatal_of_readStep hstep

/-! ## Ends -/

/-- The second cursor is at the end of the text, and the first one is there or after `z`. -/
def Verge (φ : Position → Position) (text z z' : List Char) (c d : Cursor Char) : Prop :=
  Stands d (φ (Position.after {} text)) z' ∧
    (Stands c (Position.after {} text) z ∨ Stands c (Position.after {} (text ++ z)) [])

/-- Where rows are at their ends: a block at the end of the text, other rows at the end of all. -/
def Over (φ : Position → Position) (text z z' : List Char) : Option Nat → Pairing Char
  | some _ => Verge φ text z z'
  | none => fun c d => c.rest = [] ∧ d.rest = []

/-- The characters in front of which the first run may give up where the second does not. -/
def openers : List Char := ['"', '(', '[', '\x7b']

/-- A quote or a bracket is next, and no token is read there. -/
def Stuck (c : Cursor Char) : Prop :=
  (∃ a ∈ openers, c.next? = some a) ∧ Recoverable (readToken readTokens c.fork)

/-- The tokens that the second row has and the first one lacks: none in a block, which is at its
end, and those that `more` allows in the row of the text. -/
def Further (more : List (Located Token) → Prop) : Option Nat → List (Located Token) → Prop
  | some _ => (· = [])
  | none => more

/-- Both rows are at their ends, and the second one has gone on after the first. -/
def Ending (φ : Position → Position) (text z z' : List Char) (more : List (Located Token) → Prop)
    (E : Option Nat) (c d : Cursor Char) (ts us : List (Located Token)) : Prop :=
  Paired (Over φ text z z' E) c d ∧ ∃ vs, Further more E vs ∧ RowsMeet φ id vs ts us

/-- How the second text goes on with `z'`: as the end of all blocks, and with further tokens. -/
structure Concludes (φ : Position → Position) (text z z' : List Char)
    (more : List (Located Token) → Prop) : Prop extends Prolongs φ text z z' where
  shallow : z'.takeWhile isBlank = z' ∨ indentation (lastLine (z'.takeWhile isBlank)) = 0
  ends : ∀ E c d rows c', (∀ r ∈ E, 0 < r) → Paired (Verge φ text z z') c d →
    readSteps E c = .ok rows c' → ∃ rows' d', readSteps E d = .ok rows' d' ∧
      Ending φ text z z' more E c' d' rows.flatten rows'.flatten

/-- The row that begins at the first cursor is read alike at the second one, up to a place in front
of the end of the text, or up to the end. -/
def RowFollowed (φ : Position → Position) (text z z' : List Char)
    (more : List (Located Token) → Prop) (E : Option Nat) (c d : Cursor Char) : Prop :=
  ∀ rows c', readSteps E c = .ok rows c' → Stuck c' ∨ ∃ rows' d', readSteps E d = .ok rows' d' ∧
    (Paired (Amid φ text z z') c' d' ∧ RowsMeet φ id [] rows.flatten rows'.flatten ∨
      Ending φ text z z' more E c' d' rows.flatten rows'.flatten)

lemma Stuck.of_fork_eq (h : Stuck c) (hfork : c'.fork = c.fork) : Stuck c' := by
  obtain ⟨⟨a, ha, hnext⟩, hrecoverable⟩ := h
  have hrest : c'.fork.rest = c.fork.rest := congrArg Cursor.rest hfork
  refine ⟨⟨a, ha, ?_⟩, by rwa [hfork]⟩
  rw [← hnext]
  exact congrArg (fun rest => rest.head?.map Located.value) hrest

lemma not_isBlank_of_opener {a : Char} (ha : a ∈ openers) : isBlank a = false := by
  have hall : ∀ a ∈ openers, isBlank a = false := List.all_iff_forall_prop.mp (by decide)
  exact hall a ha

/-- A row that comes to such a place ends there. -/
lemma Stuck.readSteps (h : Stuck c) : ∃ c', readSteps E c = .ok [] c' ∧ Stuck c' := by
  obtain ⟨⟨a, ha, hnext⟩, f, c₁, htoken, hf⟩ := h
  have hends : E.any (blockEnds · c.upcoming) = false := by
    cases E with
    | none => rfl
    | some r =>
      refine blockEnds_eq_false r fun b hb => ?_
      rw [Cursor.upcoming, List.head?_map] at hb
      rw [Cursor.next?] at hnext
      rw [hnext] at hb
      cases hb
      exact not_isBlank_of_opener ha
  exact ⟨c.record f, readSteps_of_stalls hends (optional_of_error htoken hf),
    Stuck.of_fork_eq ⟨⟨a, ha, hnext⟩, f, c₁, htoken, hf⟩ rfl⟩

/-! ## Groups -/

lemma not_opener_of_closer {kind : GroupKind} {a q : Char} (h : kind.delimiters = some (a, q)) :
    isBlank a = false ∧ isBlank q = false ∧ q ∉ openers := by
  cases kind <;> cases h <;> decide

/-- A group that is read in the first run is read in the second, if the rows in it are. -/
lemma exists_readGroup (h : Prolongs φ text z z') {t : Token}
    (ih : ∀ {c₁ d₁ : Cursor Char}, c₁.rest.length < c.rest.length →
      Paired (Along φ text z z') c₁ d₁ → RowFollowed φ text z z' more none c₁ d₁)
    (hcd : Paired (Along φ text z z') c d) (hrun : readGroup readTokens c = .ok t c') :
    ∃ u d', readGroup readTokens d = .ok u d' ∧ Meet φ id t u ∧
      Paired (Along φ text z z') c' d' := by
  obtain ⟨kind, a, q, ts, as, bs, c₁, c₂, hkind, hopening, htokens, hclosing, rfl⟩ :=
    readGroup_inv hrun
  obtain ⟨ha, hq, hcloser⟩ := not_opener_of_closer hkind
  obtain ⟨item, rest, hrest, rfl⟩ := next?_of_exactly hclosing
  have hopening' := follows_exactly h (List.forall_mem_singleton.mpr ha) hcd
  rw [hopening] at hopening'
  obtain ⟨_, d₁, hopening', -, hcd₁⟩ := hopening'
  obtain ⟨rows, hrows, rfl⟩ := readTokens_inv htokens
  have hlt : c₁.rest.length < c.rest.length := (passes_exactly (by simp) hopening).2
  -- the row has come to the closing character, so it is neither stuck nor at the end
  rcases ih hlt hcd₁ rows c₂ hrows with
    ⟨⟨b, hb, hnext⟩, -⟩ | ⟨rows', d₂, hrows', ⟨hcd₂, hmeet⟩ | ⟨hover, -⟩⟩
  · rw [Cursor.next?, hrest] at hnext
    cases hnext
    exact absurd hb hcloser
  · have hclosing' := follows_exactly h (List.forall_mem_singleton.mpr hq)
      (hcd₂.mono fun _ _ => Amid.along)
    rw [hclosing] at hclosing'
    obtain ⟨_, d₃, hclosing', -, hcd₃⟩ := hclosing'
    exact ⟨_, d₃, readGroup_of_ok hkind hopening' (readTokens_of_ok hrows') hclosing',
      .group (.inl rfl) hmeet, hcd₃⟩
  · have hnil : c₂.rest = [] := hover.related.1
    rw [hrest] at hnil
    cases hnil

/-! ## Tokens -/

lemma Along.position_eq (h : Along φ text z z' c d) : d.position = φ c.position := by
  obtain ⟨pre, t, -, hcd⟩ := h
  rw [hcd.left.position_eq, hcd.right.position_eq]

lemma position_eq_of_paired (h : Paired (Along φ text z z') c d) : d.position = φ c.position :=
  h.related.of_fork.position_eq

/-- No quote or bracket is next. -/
def Unopened : View Char := fun rest _ => ∀ a ∈ openers, rest.head?.map Located.value ≠ some a

lemma rejects_readText_of_unopened : Rejects Unopened readText := by
  intro c hc
  have hview : c.Meets (Around (c.previous.map Located.value) c.upcoming) := ⟨⟨rfl, rfl⟩, hc.2⟩
  refine rejects_readText ?_ hview
  rw [Cursor.upcoming, List.head?_map]
  exact hc.1 '"' (by decide)

lemma rejects_readGroup_of_unopened (contents : Option Nat → Parser Char (List (Located Token))) :
    Rejects Unopened (readGroup contents) := by
  intro c hc
  have hview : c.Meets (Around (c.previous.map Located.value) c.upcoming) := ⟨⟨rfl, rfl⟩, hc.2⟩
  refine rejects_readGroup contents ?_ hview
  intro a ha hmem
  rw [Cursor.upcoming, List.head?_map] at ha
  exact hc.1 a (List.mem_cons_of_mem _ hmem) ha

lemma Amid.next?_eq (h : Amid φ text z z' c d) : d.next? = c.next? := by
  obtain ⟨pre, t, -, hne, hcd⟩ := h
  rw [hcd.left.next?_eq, hcd.right.next?_eq]
  cases t with
  | nil => exact absurd rfl hne
  | cons a t => rfl

/-- Where no quote or bracket is next, the same token is read in both runs, or none in both. -/
lemma follows_readToken_of_unopened (h : Prolongs φ text z z') :
    Follows (fun c d => Amid φ text z z' c d ∧ ∀ a ∈ openers, c.next? ≠ some a)
      (readToken readTokens) (readToken readTokens)
      (fun t u => Meet φ id t.value u.value ∧ t.span.move φ = u.span) (Along φ text z z') := by
  intro c d hcd
  have hviews : ∀ c d : Cursor Char, (Amid φ text z z' c d ∧ ∀ a ∈ openers, c.next? ≠ some a) →
      Unopened c.rest c.previous ∧ Unopened d.rest d.previous := fun c d hcd =>
    ⟨hcd.2, fun a ha => (show d.next? ≠ some a from hcd.1.next?_eq ▸ hcd.2 a ha)⟩
  -- texts and groups cannot begin here, all other branches read alike
  have hchoice := follows_choice (C := fun c d => Amid φ text z z' c d ∧
      ∀ a ∈ openers, c.next? ≠ some a) (D := Along φ text z z') (V := Meet φ id)
    (.cons ((follows_readKeyword h).of_imp fun _ _ hcd => hcd.1.along)
    (.cons ((follows_readComma h).of_imp fun _ _ hcd => hcd.1.along)
    (.cons ((follows_readNumber h).of_imp fun _ _ hcd => hcd.1.along)
    (.cons (follows_of_rejects rejects_readText_of_unopened rejects_readText_of_unopened hviews)
    (.cons ((follows_readRawName h).of_imp fun _ _ hcd => hcd.1.along)
    (.cons ((follows_readBareName h).of_imp fun _ _ hcd => hcd.1.along)
    (.cons ((follows_readOperator h).of_imp fun _ _ hcd => hcd.1.along)
    (.cons (follows_of_rejects (rejects_readGroup_of_unopened readTokens)
      (rejects_readGroup_of_unopened readTokens) hviews)
    (.cons ((follows_readBlank h).of_imp fun _ _ hcd => hcd.1) .nil))))))))) hcd
  rw [readToken, get_bind, get_bind]
  cases hrun : choice [readKeyword, readComma, readNumber, readText, readRawName, readBareName,
      readOperator, readGroup readTokens, readBlank] c with
  | ok t c₁ =>
    rw [hrun] at hchoice
    obtain ⟨u, d₁, hrun', htu, hcd₁⟩ := hchoice
    rw [bind_of_ok hrun, bind_of_ok hrun']
    refine ⟨_, d₁, rfl, ⟨htu, ?_⟩, hcd₁⟩
    have hstart := position_eq_of_paired (hcd.mono fun _ _ hcd => hcd.1.along)
    show Span.mk _ _ = Span.mk _ _
    rw [hstart, position_eq_of_paired hcd₁]
  | error f c₁ =>
    rw [hrun] at hchoice
    rw [bind_of_error hrun]
    intro hf
    obtain ⟨g, d₁, hrun', hg⟩ := hchoice hf
    rw [bind_of_error hrun']
    exact recoverable_error hg

/-- The character `a` is next. -/
def Fronted (a : Char) : View Char := fun rest _ => rest.head?.map Located.value = some a

lemma rejects_of_head {α : Type} {m : Parser Char α} {a : Char}
    (h : ∀ p cs, cs.head? = some a → Rejects (Around p cs) m) : Rejects (Fronted a) m := by
  intro c hc
  have hview : c.Meets (Around (c.previous.map Located.value) c.upcoming) := ⟨⟨rfl, rfl⟩, hc.2⟩
  refine h _ _ ?_ hview
  rw [Cursor.upcoming, List.head?_map]
  exact hc.1

/-- Quotes and brackets begin no other token. -/
lemma rejects_of_opener {a : Char} (ha : a ∈ openers)
    (contents : Option Nat → Parser Char (List (Located Token))) :
    (∀ m ∈ [readKeyword, readComma, readNumber], Rejects (Fronted a) m) ∧
      (∀ m ∈ [readRawName, readBareName, readOperator], Rejects (Fronted a) m) ∧
      Rejects (Fronted a) readBlank ∧
      if a = '"' then Rejects (Fronted a) (readGroup contents) else Rejects (Fronted a) readText := by
  have hclass : ∀ a ∈ openers, isNameStart a = false ∧ a ≠ ',' ∧ a ≠ '-' ∧ a.isDigit = false ∧
      a ≠ 'r' ∧ isOperatorChar a = false ∧ isBlank a = false := by
    simp only [openers, List.forall_mem_cons, List.not_mem_nil, false_implies, implies_true,
      and_true]
    decide
  obtain ⟨hname, hcomma, hminus, hdigit, hr, hoperator, hblank⟩ := hclass a ha
  have hhead : ∀ {q : Char → Prop} {cs : List Char}, q a → cs.head? = some a →
      ∀ c ∈ cs.head?, q c := fun hq hcs c hc => by
    rw [hcs] at hc
    cases hc
    exact hq
  simp only [List.forall_mem_cons, List.not_mem_nil, false_implies, implies_true, and_true]
  -- the first character alone rules them out
  refine ⟨⟨rejects_of_head fun p cs hcs => rejects_readKeyword (hhead hname hcs),
    rejects_of_head fun p cs hcs => rejects_readComma (by simpa [hcs] using hcomma),
    rejects_of_head fun p cs hcs => rejects_readNumber
      (length?_numberPattern_eq_none (hhead ⟨hminus, hdigit⟩ hcs))⟩,
    ⟨rejects_of_head fun p cs hcs => rejects_readRawName
      (length?_rawOpening_of_head (by simpa [hcs] using hr)),
    rejects_of_head fun p cs hcs => rejects_readBareName (hhead hname hcs),
    rejects_of_head fun p cs hcs => rejects_readOperator (hhead hoperator hcs)⟩,
    rejects_of_head fun p cs hcs => rejects_readBlank (hhead hblank hcs), ?_⟩
  split
  · rename_i hquote
    subst hquote
    exact rejects_of_head fun p cs hcs => rejects_readGroup contents (hhead (by decide) hcs)
  · rename_i hquote
    exact rejects_of_head fun p cs hcs => rejects_readText (by simpa [hcs] using hquote)

/-- Where one branch of a choice can succeed at all, and it succeeds in the second run if it does
in the first, so does the choice. -/
lemma exists_choice_of_only {T : View Char} {m m' : Parser Char Token} {t : Token}
    {C D : Pairing Char} (ms ms' : List (Parser Char Token))
    (h : ∀ m ∈ ms ++ ms', Rejects T m) (hcd : Paired C c d) (hc : c.Meets T) (hd : d.Meets T)
    (hm : ∀ t c', m c.fork = .ok t c' →
      ∃ u d', m' d.fork = .ok u d' ∧ Meet φ id t u ∧ Paired D c' d')
    (hrun : choice (ms ++ m :: ms') c = .ok t c') :
    ∃ u d', choice (ms ++ m' :: ms') d = .ok u d' ∧ Meet φ id t u ∧ Paired D c' d' := by
  obtain ⟨c₁, hforkc, hcalmc, hsuccc, hinv⟩ := choice_of_only h hc (m := m)
  obtain ⟨d₁, hforkd, hcalmd, hsuccd, -⟩ := choice_of_only h hd (m := m')
  obtain ⟨c₂, hbranch⟩ := hinv _ _ hrun
  obtain ⟨u, d₂, hbranch', htu, hcd₂⟩ := hm _ _ hbranch
  rw [hsuccc _ _ hbranch] at hrun
  cases hrun
  have hcd₁ : Paired C c₁ d₁ := ⟨by rw [hforkc, hforkd]; exact hcd.related, hcalmc, hcalmd⟩
  exact ⟨u, _, hsuccd _ _ hbranch', htu, hcd₂.adopt hcd₁⟩

/-- In front of a quote or a bracket, a token that is read in the first run is read in the
second. -/
lemma exists_readToken_of_opener (h : Prolongs φ text z z') {t : Located Token} {a : Char}
    (ih : ∀ {c₁ d₁ : Cursor Char}, c₁.rest.length < c.rest.length →
      Paired (Along φ text z z') c₁ d₁ → RowFollowed φ text z z' more none c₁ d₁)
    (hcd : Paired (Amid φ text z z') c d) (ha : a ∈ openers) (hnext : c.next? = some a)
    (hrun : readToken readTokens c = .ok t c') :
    ∃ u d', readToken readTokens d = .ok u d' ∧ Meet φ id t.value u.value ∧
      t.span.move φ = u.span ∧ Paired (Along φ text z z') c' d' := by
  have halong : Paired (Along φ text z z') c d := hcd.mono fun _ _ => Amid.along
  have hc : c.Meets (Fronted a) := ⟨hnext, hcd.calm⟩
  have hd : d.Meets (Fronted a) := ⟨hcd.related.of_fork.next?_eq.trans hnext, hcd.calm'⟩
  obtain ⟨hbefore, hbetween, hblank, hother⟩ := rejects_of_opener ha readTokens
  obtain ⟨hchoice, hspan⟩ := readToken_inv hrun
  -- only one branch can read here, which depends on the character
  have hchoice' : ∃ u d', choice [readKeyword, readComma, readNumber, readText, readRawName,
      readBareName, readOperator, readGroup readTokens, readBlank] d = .ok u d' ∧
        Meet φ id t.value u ∧ Paired (Along φ text z z') c' d' := by
    by_cases hquote : a = '"'
    · rw [if_pos hquote] at hother
      refine exists_choice_of_only [readKeyword, readComma, readNumber]
        [readRawName, readBareName, readOperator, readGroup readTokens, readBlank] ?_ halong hc hd
        (fun t c' => readText_of_ok h halong.fork) hchoice
      simpa [or_imp, forall_and, and_assoc, hblank, hother] using And.intro hbefore hbetween
    · rw [if_neg hquote] at hother
      refine exists_choice_of_only [readKeyword, readComma, readNumber, readText, readRawName,
        readBareName, readOperator] [readBlank] ?_ halong hc hd
        (fun t c' => exists_readGroup h ih halong.fork) hchoice
      simpa [or_imp, forall_and, and_assoc, hblank, hother] using And.intro hbefore hbetween
  obtain ⟨u, d', hrun', htu, hcd'⟩ := hchoice'
  refine ⟨_, d', readToken_of_ok hrun', htu, ?_, hcd'⟩
  rw [hspan, position_eq_of_paired halong, position_eq_of_paired hcd']
  rfl

/-- No quote or bracket is next in either run. -/
lemma unopened_fork (hcd : Paired (Amid φ text z z') c d)
    (hopener : ¬ ∃ a ∈ openers, c.next? = some a) :
    Paired (fun c d => Amid φ text z z' c d ∧ ∀ a ∈ openers, c.next? ≠ some a) c.fork d.fork :=
  ⟨⟨hcd.related, fun a ha hnext => hopener ⟨a, ha, hnext⟩⟩, calm_fork c, calm_fork d⟩

/-- A token that is read in the first run is read in the second. -/
lemma exists_readToken (h : Prolongs φ text z z') {t : Located Token} {c₁ : Cursor Char}
    (ih : ∀ {c₁ d₁ : Cursor Char}, c₁.rest.length < c.rest.length →
      Paired (Along φ text z z') c₁ d₁ → RowFollowed φ text z z' more none c₁ d₁)
    (hcd : Paired (Amid φ text z z') c d) (htoken : readToken readTokens c.fork = .ok t c₁) :
    ∃ u d₁, readToken readTokens d.fork = .ok u d₁ ∧ Meet φ id t.value u.value ∧
      t.span.move φ = u.span ∧ Paired (Along φ text z z') c₁ d₁ := by
  by_cases hopener : ∃ a ∈ openers, c.next? = some a
  · obtain ⟨a, ha, hnext⟩ := hopener
    exact exists_readToken_of_opener (c := c.fork) h ih hcd.fork ha hnext htoken
  · have hfollowed := follows_readToken_of_unopened h (unopened_fork hcd hopener)
    rw [htoken] at hfollowed
    obtain ⟨u, d₁, htoken', ⟨htu, hspan⟩, hcd₁⟩ := hfollowed
    exact ⟨u, d₁, htoken', htu, hspan, hcd₁⟩

/-- Where no token is read in the first run, none is read in the second, unless a quote or a
bracket is next. -/
lemma stuck_or_recoverable (h : Prolongs φ text z z') {f : Failure} {c₁ : Cursor Char}
    (hcd : Paired (Amid φ text z z') c d) (htoken : readToken readTokens c.fork = .error f c₁)
    (hf : f.fatal = false) : Stuck c ∨ Recoverable (readToken readTokens d.fork) := by
  by_cases hopener : ∃ a ∈ openers, c.next? = some a
  · exact .inl ⟨hopener, f, c₁, htoken, hf⟩
  · have hfollowed := follows_readToken_of_unopened h (unopened_fork hcd hopener)
    rw [htoken] at hfollowed
    exact .inr (hfollowed hf)

/-- What one attempt at a token gives in the two runs. -/
lemma optional_readToken_of_ok (h : Prolongs φ text z z') {o : Option (Located Token)}
    (ih : ∀ {c₁ d₁ : Cursor Char}, c₁.rest.length < c.rest.length →
      Paired (Along φ text z z') c₁ d₁ → RowFollowed φ text z z' more none c₁ d₁)
    (hcd : Paired (Amid φ text z z') c d)
    (hrun : Parsing.optional (readToken readTokens) c = .ok o c') :
    match o with
    | none => Stuck c' ∨ ∃ d', Parsing.optional (readToken readTokens) d = .ok none d' ∧
        Paired (Amid φ text z z') c' d'
    | some t => c'.rest.length < c.rest.length ∧ ∃ u d',
        Parsing.optional (readToken readTokens) d = .ok (some u) d' ∧
          d'.rest.length < d.rest.length ∧ Meet φ id t.value u.value ∧ t.span.move φ = u.span ∧
          Paired (Along φ text z z') c' d' := by
  obtain ⟨pre, s, -, -, hbeside⟩ := hcd.related
  cases htoken : readToken readTokens c.fork with
  | ok t c₁ =>
    rw [optional_of_ok htoken] at hrun
    cases hrun
    obtain ⟨u, d₁, htoken', htu, hspan, hcd₁⟩ := exists_readToken h ih hcd htoken
    have hless := length_lt_of_readToken (c := c.fork) hbeside.left htoken
    have hless' := length_lt_of_readToken (c := d.fork) hbeside.right htoken'
    rw [← Cursor.rest_adopt c] at hless
    rw [← Cursor.rest_adopt d] at hless'
    exact ⟨hless, u, _, optional_of_ok htoken', hless', htu, hspan, hcd₁.adopt hcd⟩
  | error f c₁ =>
    cases hf : f.fatal with
    | true =>
      rw [optional_of_fatal htoken hf] at hrun
      cases hrun
    | false =>
      rw [optional_of_error htoken hf] at hrun
      cases hrun
      rcases stuck_or_recoverable h hcd htoken hf with hstuck | ⟨g, d₁, htoken', hg⟩
      · exact .inl (hstuck.of_fork_eq rfl)
      · exact .inr ⟨_, optional_of_error htoken' hg, hcd.record hf hg⟩

/-! ## Blocks -/

lemma length_le_of_reads {α : Type} {m : Parser Char α} {R : Position → α → List Char → Prop}
    {x : Position} {s : List Char} {a : α} (h : Reads m R) (hst : Stands c x s)
    (hrun : m c = .ok a c') : c'.rest.length ≤ c.rest.length := by
  obtain ⟨cs, ds, rfl, hst', -⟩ := h hst hrun
  rw [hst.length_rest, hst'.length_rest, List.length_append]
  exact Nat.le_add_left _ _

/-- The white space in front of the end of the text ends alike in both texts. -/
lemma Prolongs.exists_blank (h : Prolongs φ text z z') {t : List Char} (ht : t <:+ text)
    (hne : t ≠ []) :
    ∃ cs ds, t = cs ++ ds ∧ (∀ c ∈ cs, isBlank c = true) ∧
      (∀ c ∈ (ds ++ z).head?, isBlank c = false) ∧ (∀ c ∈ (ds ++ z').head?, isBlank c = false) ∧
      (ds ++ z = [] ↔ ds ++ z' = []) := by
  have hhead : ∀ c ∈ (t.dropWhile isBlank).head?, isBlank c = false := fun c hc => by
    have hstop := List.head?_dropWhile_not isBlank t
    rw [Option.mem_def.mp hc] at hstop
    exact hstop
  refine ⟨t.takeWhile isBlank, t.dropWhile isBlank, List.takeWhile_append_dropWhile.symm,
    fun c hc => List.all_eq_true.mp List.all_takeWhile c hc, ?_⟩
  rcases h.solid with ⟨rfl, rfl⟩ | hsolid
  · rw [List.append_nil]
    exact ⟨hhead, hhead, Iff.rfl⟩
  · obtain ⟨c, hc, hblank⟩ := hsolid t ht hne
    have hdrop : t.dropWhile isBlank ≠ [] := fun hnil => by
      have hsplit := List.takeWhile_append_dropWhile (p := isBlank) (l := t)
      rw [hnil, List.append_nil] at hsplit
      rw [← hsplit] at hc
      have hall := List.all_eq_true.mp List.all_takeWhile c hc
      rw [hblank] at hall
      cases hall
    obtain ⟨d, ds, hds⟩ := List.exists_cons_of_ne_nil hdrop
    rw [hds] at hhead ⊢
    exact ⟨hhead, hhead, by simp⟩

lemma Amid.blockEnds_eq (h : Prolongs φ text z z') (hcd : Amid φ text z z' c d) (r : Nat) :
    blockEnds r c.upcoming = blockEnds r d.upcoming := by
  obtain ⟨pre, t, htext, hne, hbeside⟩ := hcd
  obtain ⟨cs, ds, rfl, hcs, hds, hds', hend⟩ := h.exists_blank ⟨pre, htext.symm⟩ hne
  rw [hbeside.left.upcoming_eq, hbeside.right.upcoming_eq, List.append_assoc, List.append_assoc,
    blockEnds_append hcs hds, blockEnds_append hcs hds', decide_eq_decide.mpr hend]

/-- The places in the second text go on from each other as in the first. -/
lemma Prolongs.after (h : Prolongs φ text z z') {pre cs ds : List Char}
    (htext : text = pre ++ (cs ++ ds)) :
    φ (Position.after {} (pre ++ cs)) = (φ (Position.after {} pre)).after cs := by
  induction cs generalizing pre with
  | nil =>
    rw [List.append_nil]
    rfl
  | cons c cs ih =>
    have hrest := @ih (pre ++ [c]) (by rw [htext, List.append_assoc]; rfl)
    rw [h.advance pre c (cs ++ ds) htext, List.append_assoc] at hrest
    exact hrest

/-- A block whose contents begin at paired cursors. -/
lemma optional_block_of_ok (h : Concludes φ text z z' more) {o : Option (Located Token)}
    {k : Nat} {x : Position} {m : Parser Char (Located Token)} {c₁ d₁ : Cursor Char}
    (hfollowed : RowFollowed φ text z z' more (some k) c₁ d₁) (hcd : Paired (Along φ text z z') c d)
    (hblock : m c.fork = (readTokens (some k) >>= fun tokens =>
      get >>= fun e => pure ⟨.group .indented tokens, x, e.position⟩) c₁)
    (hblock' : m d.fork = (readTokens (some k) >>= fun tokens =>
      get >>= fun e => pure ⟨.group .indented tokens, φ x, e.position⟩) d₁)
    (hrun : Parsing.optional m c = .ok o c') :
    ∃ b, o = some b ∧ (Stuck c' ∨ ∃ b' d', Parsing.optional m d = .ok (some b') d' ∧
      Meet φ id b.value b'.value ∧ b.span.move φ = b'.span ∧
      (Paired (Along φ text z z') c' d' ∨ Paired (Verge φ text z z') c' d')) := by
  cases htokens : readTokens (some k) c₁ with
  | error f c₂ =>
    rw [bind_of_error htokens] at hblock
    rw [optional_of_fatal hblock (fatal_of_readTokens htokens)] at hrun
    cases hrun
  | ok ts c₂ =>
    rw [bind_of_ok htokens] at hblock
    rw [optional_of_ok hblock] at hrun
    cases hrun
    obtain ⟨rows, hrows, rfl⟩ := readTokens_inv htokens
    refine ⟨_, rfl, ?_⟩
    rcases hfollowed rows c₂ hrows with hstuck | ⟨rows', d₂, hrows', hout⟩
    · exact .inl (hstuck.of_fork_eq (fork_adopt c c₂))
    · right
      rw [bind_of_ok (readTokens_of_ok hrows')] at hblock'
      -- the block ends inside the text, or at its end, which has one place in the second text
      have hplaces : RowsMeet φ id [] rows.flatten rows'.flatten ∧ d₂.position = φ c₂.position ∧
          (Paired (Along φ text z z') c₂ d₂ ∨ Paired (Verge φ text z z') c₂ d₂) := by
        rcases hout with ⟨hcd₂, hmeet⟩ | ⟨hcd₂, _, rfl, hmeet⟩
        · have halong := hcd₂.mono fun _ _ => Amid.along
          exact ⟨hmeet, position_eq_of_paired halong, .inl halong⟩
        · refine ⟨hmeet, ?_, .inr hcd₂⟩
          obtain ⟨hstands, hstands' | hstands'⟩ : Verge φ text z z' c₂.fork d₂.fork := hcd₂.related
          · exact hstands.position_eq.trans (congrArg φ hstands'.position_eq.symm)
          · exact hstands.position_eq.trans
              (h.last.symm.trans (congrArg φ hstands'.position_eq.symm))
      obtain ⟨hmeet, hposition, hcd₂⟩ := hplaces
      refine ⟨_, _, optional_of_ok hblock', .group (.inl rfl) hmeet, ?_,
        hcd₂.imp (·.adopt hcd) (·.adopt hcd)⟩
      show Span.mk _ _ = Span.mk _ _
      rw [hposition]

/-- At the end of the text no block begins in either run. -/
lemma recoverable_readBlock_last (h : Concludes φ text z z' more) {pre : List Char} (k : Nat)
    (hbeside : Beside φ z z' pre [] c.fork d.fork) :
    Recoverable (readBlock readTokens k c.fork) ∧ Recoverable (readBlock readTokens k d.fork) := by
  have hleft : Stands c.fork (Position.after {} pre) (z ++ []) := by
    rw [List.append_nil]
    exact hbeside.left
  obtain ⟨cs, ds, hz', hcs, hds⟩ := exists_run isBlank z'
  have hshallow := h.shallow
  rw [hz', takeWhile_isBlank hcs hds] at hshallow
  have hright : Stands d.fork (φ (Position.after {} pre)) (cs ++ ds) := by
    rw [← hz']
    exact hbeside.right
  have hnil : ∀ d ∈ ([] : List Char).head?, isBlank d = false := by rintro d ⟨⟩
  refine ⟨recoverable_readBlock readTokens h.blank hnil (fun hleads => hleads.more rfl) hleft
    (calm_fork c),
    recoverable_readBlock readTokens hcs hds (fun hleads => ?_) hright (calm_fork d)⟩
  rcases hshallow with hall | hzero
  · exact hleads.more (List.self_eq_append_right.mp hall)
  · exact absurd hleads.deeper (by rw [hzero]; exact Nat.not_lt_zero _)

/-- In front of the end of the text a block begins in both runs, at the same place, or in
neither. -/
lemma readBlock_beside (h : Prolongs φ text z z') {pre t : List Char} (k : Nat)
    (htext : text = pre ++ t) (hne : t ≠ []) (hbeside : Beside φ z z' pre t c.fork d.fork) :
    (Recoverable (readBlock readTokens k c.fork) ∧ Recoverable (readBlock readTokens k d.fork)) ∨
      ∃ n c₁ d₁, 0 < n ∧ c₁.rest.length < c.rest.length ∧ Paired (Along φ text z z') c₁ d₁ ∧
        (readBlock readTokens k c.fork = (readTokens (some n) >>= fun ts => get >>= fun e =>
          pure ⟨.group .indented ts, Position.after {} pre, e.position⟩) c₁) ∧
        (readBlock readTokens k d.fork = (readTokens (some n) >>= fun ts => get >>= fun e =>
          pure ⟨.group .indented ts, φ (Position.after {} pre), e.position⟩) d₁) := by
  obtain ⟨cs, ds, rfl, hcs, hds, hds', hend⟩ := h.exists_blank ⟨pre, htext.symm⟩ hne
  have hleft : Stands c.fork (Position.after {} pre) (cs ++ (ds ++ z)) := by
    rw [← List.append_assoc]
    exact hbeside.left
  have hright : Stands d.fork (φ (Position.after {} pre)) (cs ++ (ds ++ z')) := by
    rw [← List.append_assoc]
    exact hbeside.right
  -- both texts go on alike behind the white space, or both end there
  have hboth : Leads k cs (ds ++ z) ↔ Leads k cs (ds ++ z') :=
    ⟨fun hleads => ⟨hcs, hleads.line, fun hnil => hleads.more (hend.mpr hnil), hds', hleads.deeper⟩,
      fun hleads => ⟨hcs, hleads.line, fun hnil => hleads.more (hend.mp hnil), hds, hleads.deeper⟩⟩
  by_cases hleads : Leads k cs (ds ++ z)
  · obtain ⟨c₁, hcalm, hst, -, hprevious, hblock⟩ :=
      exists_readBlock readTokens hleads hleft (calm_fork c)
    obtain ⟨d₁, hcalm', hst', -, hprevious', hblock'⟩ :=
      exists_readBlock readTokens (hboth.mp hleads) hright (calm_fork d)
    have hcd₁ : Paired (Along φ text z z') c₁ d₁ := by
      refine ⟨⟨pre ++ cs, ds, by rw [htext, List.append_assoc], ?_, ?_, ?_⟩, hcalm, hcalm'⟩
      · rw [Position.after_append]
        exact hst.fork
      · rw [h.after htext]
        exact hst'.fork
      · exact hprevious.trans hprevious'.symm
    have hless : c₁.rest.length < c.rest.length := by
      have hlength : c.rest.length = _ := hleft.length_rest
      have hpos := List.length_pos_of_mem hleads.line
      rw [hst.length_rest, hlength]
      simp only [List.length_append]
      omega
    exact .inr ⟨_, c₁, d₁, Nat.zero_lt_of_lt hleads.deeper, hless, hcd₁, hblock, hblock'⟩
  · exact .inl ⟨recoverable_readBlock readTokens hcs hds hleads hleft (calm_fork c),
      recoverable_readBlock readTokens hcs hds' (mt hboth.mpr hleads) hright (calm_fork d)⟩

/-- What one attempt at a block gives in the two runs, of which the first does not fail. -/
lemma optional_readBlock_of_ok (h : Concludes φ text z z' more) {o : Option (Located Token)}
    {enclosing : Nat}
    (ih : ∀ {k : Nat} {c₁ d₁ : Cursor Char}, c₁.rest.length < c.rest.length → 0 < k →
      Paired (Along φ text z z') c₁ d₁ → RowFollowed φ text z z' more (some k) c₁ d₁)
    (hcd : Paired (Along φ text z z') c d)
    (hrun : Parsing.optional (readBlock readTokens enclosing) c = .ok o c') :
    (o = none ∧ ∃ d', Parsing.optional (readBlock readTokens enclosing) d = .ok none d' ∧
        Paired (Along φ text z z') c' d') ∨
      ∃ b, o = some b ∧ (Stuck c' ∨ ∃ b' d',
        Parsing.optional (readBlock readTokens enclosing) d = .ok (some b') d' ∧
          Meet φ id b.value b'.value ∧ b.span.move φ = b'.span ∧
          (Paired (Along φ text z z') c' d' ∨ Paired (Verge φ text z z') c' d')) := by
  obtain ⟨pre, t, htext, hbeside⟩ := hcd.related
  -- where neither run finds a block, both stay where they are
  have hnone (hboth : Recoverable (readBlock readTokens enclosing c.fork) ∧
      Recoverable (readBlock readTokens enclosing d.fork)) : o = none ∧ ∃ d',
        Parsing.optional (readBlock readTokens enclosing) d = .ok none d' ∧
          Paired (Along φ text z z') c' d' := by
    obtain ⟨⟨f, c₁, hc, hf⟩, g, d₁, hd, hg⟩ := hboth
    rw [optional_of_error hc hf] at hrun
    cases hrun
    exact ⟨rfl, _, optional_of_error hd hg, hcd.record hf hg⟩
  by_cases hne : t = []
  · subst hne
    exact .inl (hnone (recoverable_readBlock_last h enclosing hbeside))
  · rcases readBlock_beside h.toProlongs enclosing htext hne hbeside with
      hboth | ⟨n, c₁, d₁, hn, hless, hcd₁, hc, hd⟩
    · exact .inl (hnone hboth)
    · exact .inr (optional_block_of_ok h (ih hless hn hcd₁) hcd hc hd hrun)

/-! ## Steps and rows -/

/-- At the end of the text a row goes on as `z'` does. -/
lemma Concludes.rowFollowed (h : Concludes φ text z z' more) (hE : ∀ r ∈ E, 0 < r)
    (hcd : Paired (Verge φ text z z') c d) : RowFollowed φ text z z' more E c d := by
  intro rows c' hrun
  obtain ⟨rows', d', hrun', hending⟩ := h.ends E c d rows c' hE hcd hrun
  exact .inr ⟨rows', d', hrun', .inr hending⟩

/-- The step that the first run takes is taken alike in the second one and the row behind it is read
alike, or the first run gives up behind it. -/
def StepFollowed (φ : Position → Position) (text z z' : List Char)
    (more : List (Located Token) → Prop) (E : Option Nat) (c d : Cursor Char) :
    Option (List (Located Token) × Bool) → Cursor Char → Prop
  | none, c' => Stuck c' ∨ ∃ d', readStep readTokens E d = .ok none d' ∧
      Paired (Amid φ text z z') c' d'
  | some (ts, goOn), c' => goOn = true ∧ c'.rest.length < c.rest.length ∧ (Stuck c' ∨ ∃ us d',
      readStep readTokens E d = .ok (some (us, true)) d' ∧ d'.rest.length < d.rest.length ∧
        (∀ {vs rs ss}, RowsMeet φ id vs rs ss → RowsMeet φ id vs (ts ++ rs) (us ++ ss)) ∧
        RowFollowed φ text z z' more E c' d')

lemma opensBlock_eq_of_meet {t u : Token} (htu : Meet φ id t u) : t.opensBlock = u.opensBlock :=
  htu.holds_eq fun _ _ => rfl

lemma length_le_of_optional_block {o : Option (Located Token)} {x : Position} {s : List Char}
    {k : Nat} (hst : Stands c x s)
    (hrun : Parsing.optional (readBlock readTokens k) c = .ok o c') :
    c'.rest.length ≤ c.rest.length :=
  length_le_of_reads (reads_optional (reads_readBlock reads_readTokens _)) hst hrun

section Step

variable (h : Concludes φ text z z' more) (hE : ∀ r ∈ E, 0 < r)
  (ih : ∀ {E : Option Nat} {c₁ d₁ : Cursor Char}, c₁.rest.length < c.rest.length →
    (∀ r ∈ E, 0 < r) → Paired (Along φ text z z') c₁ d₁ → RowFollowed φ text z z' more E c₁ d₁)
include h hE ih

/-- Behind a token that opens a block, a block is read in both runs or in neither. -/
lemma stepFollowed_of_opens {t u : Located Token} {block? : Option (Located Token)}
    {c₁ d₁ : Cursor Char} (hless : c₁.rest.length < c.rest.length)
    (hless' : d₁.rest.length < d.rest.length) (hcd₁ : Paired (Along φ text z z') c₁ d₁)
    (htu : Meet φ id t.value u.value) (hspan : t.span.move φ = u.span)
    (hgoes : E.any (blockEnds · d.upcoming) = false)
    (htoken : Parsing.optional (readToken readTokens) d = .ok (some u) d₁)
    (hopens : u.value.opensBlock = true)
    (hblock : Parsing.optional (readBlock readTokens (E.getD 0)) c₁ = .ok block? c') :
    StepFollowed φ text z z' more E c d
      (some (match block? with
        | none => [t]
        | some b => [t, b, ⟨lineBreak, Span.point b.span.stop⟩], true)) c' := by
  obtain ⟨pre, s, -, hbeside⟩ := hcd₁.related.of_fork
  have hless₂ := Nat.lt_of_le_of_lt (length_le_of_optional_block hbeside.left hblock) hless
  have hless₂' {o : Option (Located Token)} {d₂ : Cursor Char}
      (hrun : Parsing.optional (readBlock readTokens (E.getD 0)) d₁ = .ok o d₂) :
      d₂.rest.length < d.rest.length :=
    Nat.lt_of_le_of_lt (length_le_of_optional_block hbeside.right hrun) hless'
  refine ⟨rfl, hless₂, ?_⟩
  obtain ⟨rfl, d₂, hblock', hcd₂⟩ | ⟨b, rfl, hout⟩ := optional_readBlock_of_ok h
    (fun hlt hk => ih (Nat.lt_trans hlt hless) (by simpa)) hcd₁ hblock
  · exact .inr ⟨_, d₂, readStep_of_rowStep (.blockless hgoes htoken hopens hblock'),
      hless₂' hblock', .cons htu hspan, ih hless₂ hE hcd₂⟩
  · refine hout.imp_right ?_
    rintro ⟨b', d₂, hblock', hbb', hspan', hcd₂⟩
    refine ⟨_, d₂, readStep_of_rowStep (.block hgoes htoken hopens hblock'), hless₂' hblock', ?_,
      hcd₂.elim (ih hless₂ hE) (h.rowFollowed hE)⟩
    -- the line break behind a block has the place where the block ends
    have hbreak : (Span.point b.span.stop).move φ = Span.point b'.span.stop := by
      rw [← hspan']
      rfl
    intro vs rs ss hrows
    exact .cons htu hspan
      (.cons hbb' hspan' (.cons (.leaf fun _ _ ht => by cases ht) hbreak hrows))

/-- What one step gives in the two runs, of which the first does not fail. -/
lemma stepFollowed_of_readStep {o : Option (List (Located Token) × Bool)}
    (hcd : Paired (Amid φ text z z') c d) (hrun : readStep readTokens E c = .ok o c') :
    StepFollowed φ text z z' more E c d o c' := by
  -- a block ends in both runs or in none
  have hends : (E.any (blockEnds · c.upcoming)) = E.any (blockEnds · d.upcoming) := by
    have hblock := hcd.related.of_fork.blockEnds_eq h.toProlongs
    cases E with
    | none => rfl
    | some r => exact hblock r
  have hattempt {token? : Option (Located Token)} {c₁ : Cursor Char}
      (htoken : Parsing.optional (readToken readTokens) c = .ok token? c₁) :=
    optional_readToken_of_ok h.toProlongs (fun hlt => ih hlt (by simp)) hcd htoken
  cases rowStep_of_readStep hrun with
  | ends hblock =>
    rw [hends] at hblock
    exact .inr ⟨d, readStep_of_rowStep (.ends hblock), hcd⟩
  | stalls hgoes htoken =>
    rw [hends] at hgoes
    refine (hattempt htoken).imp_right ?_
    rintro ⟨d', htoken', hcd'⟩
    exact ⟨d', readStep_of_rowStep (.stalls hgoes htoken'), hcd'⟩
  | plain hgoes htoken hplain =>
    obtain ⟨hless, u, d₁, htoken', hless', htu, hspan, hcd₁⟩ := hattempt htoken
    rw [hends] at hgoes
    rw [opensBlock_eq_of_meet htu] at hplain
    exact ⟨rfl, hless, .inr ⟨_, d₁, readStep_of_rowStep (.plain hgoes htoken' hplain),
      hless', .cons htu hspan, ih hless hE hcd₁⟩⟩
  | blockless hgoes htoken hopens hblock =>
    obtain ⟨hless, u, d₁, htoken', hless', htu, hspan, hcd₁⟩ := hattempt htoken
    rw [hends] at hgoes
    rw [opensBlock_eq_of_meet htu] at hopens
    exact stepFollowed_of_opens h hE ih hless hless' hcd₁ htu hspan hgoes htoken' hopens hblock
  | block hgoes htoken hopens hblock =>
    obtain ⟨hless, u, d₁, htoken', hless', htu, hspan, hcd₁⟩ := hattempt htoken
    rw [hends] at hgoes
    rw [opensBlock_eq_of_meet htu] at hopens
    exact stepFollowed_of_opens h hE ih hless hless' hcd₁ htu hspan hgoes htoken' hopens hblock

end Step

/-- A row that the second run goes on with like the first is read alike. -/
theorem Concludes.followed (h : Concludes φ text z z' more) (hE : ∀ r ∈ E, 0 < r)
    (hcd : Paired (Along φ text z z') c d) : RowFollowed φ text z z' more E c d := by
  induction hk : c.rest.length using Nat.strongRecOn generalizing E c d with
  | _ k ih =>
    obtain ⟨pre, t, htext, hbeside⟩ := hcd.related
    cases t with
    | nil =>
      rw [List.append_nil] at htext
      subst htext
      exact h.rowFollowed hE ⟨⟨hbeside.right, .inl hbeside.left⟩, hcd.calm, hcd.calm'⟩
    | cons a t =>
      have hamid : Paired (Amid φ text z z') c d :=
        ⟨⟨pre, a :: t, htext, by simp, hbeside⟩, hcd.calm, hcd.calm'⟩
      intro rows c' hrun
      have hsteps {o : Option (List (Located Token) × Bool)} {c₁ : Cursor Char}
          (hstep : readStep readTokens E c = .ok o c₁) : StepFollowed φ text z z' more E c d o c₁ :=
        stepFollowed_of_readStep h hE (fun hlt hE hcd => ih _ (by rw [← hk]; exact hlt) hE hcd rfl)
          hamid hstep
      rcases collect_inv hrun with ⟨hstep, rfl⟩ | ⟨_, goOn, hstep, -, hstays⟩ |
        ⟨ts, goOn, c₁, rows, hstep, hless, hmore, rfl⟩
      · refine (hsteps hstep).imp_right ?_
        rintro ⟨d', hstep', hcd'⟩
        exact ⟨[], d', collect_of_none hstep', .inl ⟨hcd', .done⟩⟩
      · -- a step that goes on passes something
        obtain ⟨hgoOn, hless, -⟩ := hsteps hstep
        exact absurd ⟨hgoOn, hless⟩ hstays
      · obtain ⟨-, -, hstuck | ⟨us, d₁, hstep', hless', hjoin, hfollowed⟩⟩ := hsteps hstep
        · -- the first run ends in front of the quote or the bracket
          obtain ⟨c₂, hends, hstuck⟩ := hstuck.readSteps (E := E)
          rw [readSteps, hmore] at hends
          cases hends
          exact .inl hstuck
        · refine (hfollowed rows c' hmore).imp_right ?_
          rintro ⟨rows', d', hmore', hout⟩
          refine ⟨us :: rows', d', ?_, ?_⟩
          · rw [readSteps] at hmore'
            rw [readSteps, collect_of_some hstep' hless', hmore']
            rfl
          · rw [List.flatten_cons, List.flatten_cons]
            refine hout.imp (And.imp_right hjoin) (And.imp_right ?_)
            rintro ⟨vs, hvs, hrows⟩
            exact ⟨vs, hvs, hjoin hrows⟩

end Formulary.Token
