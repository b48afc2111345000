/-
# Texts before and after unifying line breaks

Each pair of a carriage return and a line feed becomes one character, so that places move to the
front by one byte for every pair before them.  Still every place of the unified text comes from one
place of the text: from the only front part of it that unifies to what is in front of that place.
-/
import Mathlib.Tactic.Common
import Formulary.Proofs.Data.Lists
import Formulary.Proofs.Text.Spans
import Formulary.Text.LineBreak

namespace Formulary.Text

variable {c : Char} {cs ds text v w : List Char}

/-- The number of carriage returns that stand right before a line feed. -/
def pairCount : List Char → Nat
  | '\r' :: '\n' :: cs => pairCount cs + 1
  | _ :: cs => pairCount cs
  | [] => 0

lemma unifyLineBreaks_pair (cs : List Char) :
    unifyLineBreaks ('\r' :: '\n' :: cs) = '\n' :: unifyLineBreaks cs := by
  rw [unifyLineBreaks]

lemma unifyLineBreaks_cons (h : ¬(c = '\r' ∧ cs.head? = some '\n')) :
    unifyLineBreaks (c :: cs) = c :: unifyLineBreaks cs := by
  rw [unifyLineBreaks]
  rintro ds rfl rfl
  exact h ⟨rfl, rfl⟩

/-- Every pair is shorter by a byte afterwards. -/
lemma byteLength_unifyLineBreaks (cs : List Char) :
    byteLength cs = byteLength (unifyLineBreaks cs) + pairCount cs := by
  fun_induction unifyLineBreaks cs with
  | case1 cs ih =>
    rw [byteLength, byteLength, byteLength, pairCount, ih]
    have hreturn : '\r'.utf8Size = 1 := rfl
    omega
  | case2 c cs h ih => rw [byteLength, byteLength, pairCount, ih, Nat.add_assoc]; exact h
  | case3 => rfl

lemma eq_nil_of_unifyLineBreaks (h : unifyLineBreaks cs = []) : cs = [] := by
  cases cs with
  | nil => rfl
  | cons c cs =>
    unfold unifyLineBreaks at h
    split at h <;> simp_all

/-- The text unifies to `v ++ w` in two parts, and no other front part of it unifies to `v`. -/
structure SplitsAt (text v w front back : List Char) : Prop where
  text_eq : text = front ++ back
  front_eq : unifyLineBreaks front = v
  back_eq : unifyLineBreaks back = w
  unique : ∀ f, f <+: text → unifyLineBreaks f = v → f = front

lemma splitsAt_nil (h : unifyLineBreaks text = w) : SplitsAt text [] w [] text where
  text_eq := rfl
  front_eq := by rw [unifyLineBreaks]
  back_eq := h
  unique _ _ h := eq_nil_of_unifyLineBreaks h

/-- In front of a pair nothing changes: a text that ends between the two characters does not unify to
anything with a line feed at its place. -/
lemma SplitsAt.pair {front back : List Char} (h : SplitsAt text v w front back) :
    SplitsAt ('\r' :: '\n' :: text) ('\n' :: v) w ('\r' :: '\n' :: front) back where
  text_eq := by rw [h.text_eq]; rfl
  front_eq := by rw [unifyLineBreaks_pair, h.front_eq]
  back_eq := h.back_eq
  unique f hf hv := by
    cases f with
    | nil => simp [unifyLineBreaks] at hv
    | cons d f =>
      obtain ⟨rfl, htail⟩ := List.cons_prefix_cons.mp hf
      cases f with
      | nil => simp [unifyLineBreaks] at hv
      | cons d f =>
        obtain ⟨rfl, hrest⟩ := List.cons_prefix_cons.mp htail
        rw [unifyLineBreaks_pair, List.cons.injEq] at hv
        rw [h.unique f hrest hv.2]

lemma SplitsAt.cons {front back : List Char} (hc : ¬(c = '\r' ∧ text.head? = some '\n'))
    (h : SplitsAt text v w front back) : SplitsAt (c :: text) (c :: v) w (c :: front) back where
  text_eq := by rw [h.text_eq]; rfl
  front_eq := by
    rw [unifyLineBreaks_cons, h.front_eq]
    exact fun hpair => hc ⟨hpair.1, head?_of_prefix ⟨back, h.text_eq.symm⟩ hpair.2⟩
  back_eq := h.back_eq
  unique f hf hv := by
    cases f with
    | nil => simp [unifyLineBreaks] at hv
    | cons d f =>
      obtain ⟨rfl, htail⟩ := List.cons_prefix_cons.mp hf
      rw [unifyLineBreaks_cons fun hpair => hc ⟨hpair.1, head?_of_prefix htail hpair.2⟩,
        List.cons.injEq] at hv
      rw [h.unique f htail hv.2]

/-- A front part of the unified text comes from one front part of the text. -/
lemma exists_splitsAt (h : unifyLineBreaks text = v ++ w) :
    ∃ front back, SplitsAt text v w front back := by
  induction text using unifyLineBreaks.induct generalizing v with
  | case1 cs ih =>
    cases v with
    | nil => exact ⟨[], _, splitsAt_nil h⟩
    | cons d v =>
      rw [unifyLineBreaks_pair, List.cons_append, List.cons.injEq] at h
      obtain ⟨rfl, h⟩ := h
      obtain ⟨front, back, hsplits⟩ := ih h
      exact ⟨_, back, hsplits.pair⟩
  | case2 c cs hpair ih =>
    have hc : ¬(c = '\r' ∧ cs.head? = some '\n') := by
      rintro ⟨hc, hhead⟩
      obtain ⟨ds, rfl⟩ := List.head?_eq_some_iff.mp hhead
      exact hpair ds hc rfl
    cases v with
    | nil => exact ⟨[], _, splitsAt_nil h⟩
    | cons d v =>
      rw [unifyLineBreaks_cons hc, List.cons_append, List.cons.injEq] at h
      obtain ⟨rfl, h⟩ := h
      obtain ⟨front, back, hsplits⟩ := ih h
      exact ⟨_, back, hsplits.cons hc⟩
  | case3 =>
    obtain ⟨rfl, rfl⟩ := List.append_eq_nil_iff.mp h.symm
    exact ⟨[], [], splitsAt_nil rfl⟩

end Formulary.Text
