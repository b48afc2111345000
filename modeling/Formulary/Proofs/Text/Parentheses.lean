/-
# Matching parentheses

A text is balanced if it closes all parentheses that it opens and none that it does not open.  Two
parentheses match if the text between them is balanced.  A matching pair of a text that is put
together of balanced parts is a pair of one of the parts: if it began in one part and ended in the
next one, then the text between the two would close a parenthesis too many or too few.
-/
import Mathlib.Tactic.Common
import Mathlib.Data.List.Infix
import Mathlib.Data.List.Count

namespace Formulary.Text

variable {cs ds t us vs : List Char}

/-- How many more parentheses a text opens than it closes. -/
def height (cs : List Char) : Int := cs.count '(' - cs.count ')'

/-- Every parenthesis that is opened is closed, and none is closed that was not opened. -/
structure Balanced (cs : List Char) : Prop where
  closed : height cs = 0
  nonneg : ∀ us, us <+: cs → 0 ≤ height us

/-- No parenthesis is in the text. -/
def Plain (cs : List Char) : Prop := ∀ c ∈ cs, c ∉ ['(', ')']

/-- The second text is the first one without one matching pair of parentheses. -/
def DropsPair (cs t : List Char) : Prop :=
  ∃ us ms ws, Balanced ms ∧ cs = us ++ '(' :: (ms ++ ')' :: ws) ∧ t = us ++ (ms ++ ws)

/-! ## Heights -/

@[simp]
lemma height_nil : height [] = 0 := rfl

@[simp]
lemma height_append (cs ds : List Char) : height (cs ++ ds) = height cs + height ds := by
  simp only [height, List.count_append]
  omega

@[simp]
lemma height_open (cs : List Char) : height ('(' :: cs) = height cs + 1 := by
  have hopen : List.count '(' ('(' :: cs) = List.count '(' cs + 1 := List.count_cons_self
  have hclose : List.count ')' ('(' :: cs) = List.count ')' cs := List.count_cons_of_ne (by decide)
  simp only [height, hopen, hclose]
  omega

@[simp]
lemma height_close (cs : List Char) : height (')' :: cs) = height cs - 1 := by
  have hopen : List.count '(' (')' :: cs) = List.count '(' cs := List.count_cons_of_ne (by decide)
  have hclose : List.count ')' (')' :: cs) = List.count ')' cs + 1 := List.count_cons_self
  simp only [height, hopen, hclose]
  omega

/-! ## Balanced texts -/

/-- A text without parentheses is balanced. -/
lemma Plain.balanced (h : Plain cs) : Balanced cs := by
  have hflat (us : List Char) (hus : us <+: cs) : height us = 0 := by
    have hopen : us.count '(' = 0 :=
      List.count_eq_zero.mpr fun hmem => h _ (hus.subset hmem) (by simp)
    have hclose : us.count ')' = 0 :=
      List.count_eq_zero.mpr fun hmem => h _ (hus.subset hmem) (by simp)
    rw [height, hopen, hclose]
    rfl
  exact ⟨hflat cs List.prefix_rfl, fun us hus => (hflat us hus).symm ▸ Int.le_refl 0⟩

lemma Balanced.append (h : Balanced cs) (h' : Balanced ds) : Balanced (cs ++ ds) := by
  refine ⟨by rw [height_append, h.closed, h'.closed]; rfl, fun us hus => ?_⟩
  rcases List.prefix_or_prefix_of_prefix hus (List.prefix_append cs ds) with hus' | ⟨vs, rfl⟩
  · exact h.nonneg us hus'
  · have hrest := h'.nonneg vs ((List.prefix_append_right_inj cs).mp hus)
    rw [height_append, h.closed]
    omega

lemma Balanced.parens (h : Balanced cs) : Balanced ('(' :: cs ++ [')']) := by
  refine ⟨by simp [h.closed], fun us hus => ?_⟩
  rw [List.cons_append] at hus
  rcases List.prefix_cons_iff.mp hus with rfl | ⟨vs, rfl, hvs⟩
  · exact Int.le_refl 0
  · rw [height_open]
    rcases List.prefix_concat_iff.mp hvs with rfl | hvs
    · simp [h.closed]
    · have hrest := h.nonneg vs hvs
      omega

/-- A balanced text does not begin with one that closes too many. -/
lemma Balanced.not_cons_close (h : Balanced (cs ++ ')' :: ds)) (hcs : height cs = 0) : False := by
  have hsplit : cs ++ ')' :: ds = cs ++ [')'] ++ ds := by simp
  have hprefix := h.nonneg (cs ++ [')']) (hsplit ▸ List.prefix_append _ _)
  rw [height_append, hcs, height_close, height_nil] at hprefix
  omega

/-! ## Pairs -/

/-- Without a pair there is one parenthesis less to open. -/
lemma DropsPair.count_eq (h : DropsPair cs t) : cs.count '(' = t.count '(' + 1 := by
  obtain ⟨us, ms, ws, -, rfl, rfl⟩ := h
  have hclose : List.count '(' (')' :: ws) = List.count '(' ws := List.count_cons_of_ne (by decide)
  simp only [List.count_append, List.count_cons_self, hclose]
  omega

lemma Plain.not_dropsPair (hcs : Plain cs) : ¬ DropsPair cs t := by
  rintro ⟨us, ms, ws, -, rfl, -⟩
  exact hcs '(' (by simp) (by simp)

/-- The text from an opening parenthesis to the end of a balanced text is not the beginning of
what stands between the parenthesis and the one that matches it. -/
lemma Balanced.not_prefix (h : Balanced (us ++ '(' :: vs)) {ms : List Char} (hms : Balanced ms) :
    ¬ vs <+: ms := by
  intro hvs
  have hclosed := h.closed
  rw [height_append, height_open] at hclosed
  have hbefore := h.nonneg us (List.prefix_append _ _)
  have hbehind := hms.nonneg vs hvs
  omega

/-- A pair of two texts in a row, the first one balanced, is a pair of one of them. -/
lemma DropsPair.of_append (hcs : Balanced cs) (h : DropsPair (cs ++ ds) t) :
    (∃ cs', DropsPair cs cs' ∧ t = cs' ++ ds) ∨ ∃ ds', DropsPair ds ds' ∧ t = cs ++ ds' := by
  obtain ⟨us, ms, ws, hms, heq, rfl⟩ := h
  rcases List.append_eq_append_iff.mp heq with ⟨vs, rfl, rfl⟩ | ⟨vs, rfl, hvs⟩
  · exact .inr ⟨vs ++ (ms ++ ws), ⟨vs, ms, ws, hms, rfl, rfl⟩, by simp⟩
  · cases vs with
    | nil => exact .inr ⟨ms ++ ws, ⟨[], ms, ws, hms, hvs.symm, rfl⟩, by simp⟩
    | cons c vs =>
      -- the pair begins in the first text, so it ends there
      obtain ⟨rfl, hrest⟩ := List.cons.inj hvs
      have hlong := hcs.not_prefix hms
      rcases List.append_eq_append_iff.mp hrest with ⟨xs, rfl, hxs⟩ | ⟨xs, rfl, -⟩
      · cases xs with
        | nil => exact absurd (by simp) hlong
        | cons c xs =>
          obtain ⟨rfl, rfl⟩ := List.cons.inj hxs
          exact .inl ⟨us ++ (ms ++ xs), ⟨us, ms, xs, hms, rfl, rfl⟩, by simp⟩
      · exact absurd (List.prefix_append _ _) hlong

/-- A pair of a balanced text in parentheses is the outer one or a pair of the text. -/
lemma DropsPair.of_parens (hcs : Balanced cs) (h : DropsPair ('(' :: cs ++ [')']) t) :
    t = cs ∨ ∃ cs', DropsPair cs cs' ∧ t = '(' :: cs' ++ [')'] := by
  obtain ⟨us, ms, ws, hms, heq, rfl⟩ := h
  cases us with
  | nil =>
    -- the pair begins with the outer parenthesis, so it ends with the outer one
    have heq : cs ++ [')'] = ms ++ ')' :: ws := List.tail_eq_of_cons_eq heq
    left
    rcases List.append_eq_append_iff.mp heq with ⟨vs, rfl, hvs⟩ | ⟨vs, rfl, hvs⟩
    · obtain ⟨rfl, rfl⟩ : vs = [] ∧ ws = [] := by
        cases vs with
        | nil => simpa using hvs
        | cons c vs => simp at hvs
      simp
    · cases vs with
      | nil =>
        obtain rfl : ws = [] := by simpa using hvs
        rfl
      | cons c vs =>
        obtain ⟨rfl, -⟩ := List.cons.inj hvs
        exact (hcs.not_cons_close hms.closed).elim
  | cons c us =>
    obtain ⟨rfl, heq⟩ := List.cons.inj heq
    right
    rcases List.eq_nil_or_concat' ws with rfl | ⟨ws, d, rfl⟩
    · have hsplit : cs ++ [')'] = (us ++ '(' :: ms) ++ [')'] := by simpa using heq
      obtain rfl := List.append_cancel_right hsplit
      exact absurd List.prefix_rfl (hcs.not_prefix hms)
    · have hsplit : cs ++ [')'] = (us ++ '(' :: (ms ++ ')' :: ws)) ++ [d] := by simpa using heq
      obtain ⟨rfl, hd⟩ := List.append_inj' hsplit rfl
      obtain ⟨rfl, -⟩ := List.cons.inj hd
      exact ⟨us ++ (ms ++ ws), ⟨us, ms, ws, hms, rfl, rfl⟩, by simp⟩

end Formulary.Text
