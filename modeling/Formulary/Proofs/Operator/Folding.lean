/-
# Folding chains of operators

Eighteen operators are listed in ten classes, and any other operator binds looser than all of
these.  A tree of operations is grouped as its operators demand if no left part of an operation
binds looser and no right part binds as loose as the operation itself.  The links of such a tree,
in their order, fold back to the tree.  Folding the tightest tier puts together all operations of
that tier, so that the tree stays grouped and loses the tier; in the end one operand is left.
-/
import Mathlib.Data.List.Forall2
import Mathlib.Tactic.Common
import Formulary.Operator

namespace Formulary

open Text Parsing

/-- Operands put together by operators. -/
inductive Operation (α : Type) where
  | operand (value : α)
  | apply (symbol : Located String) (left right : Operation α)

namespace Operation

variable {α β : Type}

/-- The operands and operators in their order. -/
def links : Operation α → List (Link α)
  | operand value => [.operand value]
  | apply symbol left right => left.links ++ .operator symbol :: right.links

/-- What an operation gives if parts are joined by `J`. -/
def value (J : Joining α) : Operation α → α
  | operand value => value
  | apply symbol left right => J.join symbol (left.value J) (right.value J)

/-- The operators with a place of their own.  Those of one class bind alike, and tighter than those
of the classes before. -/
def classes : List (List String) :=
  [["||"], ["&&"], ["==", "!="], [">=", "<=", ">", "<"], ["|"], ["&"], ["<<", ">>"], ["+", "-"],
    ["*", "/", "%"], ["^"]]

/-- How tightly an operator binds: as the place of its class says, or looser than all classes. -/
def strength (operator : String) : Nat :=
  match classes.findIdx? (·.contains operator) with
  | some place => place + 1
  | none => 0

/-- The strength of the outermost operator; an operand holds together tighter than any. -/
def tightness : Operation α → Nat
  | operand _ => classes.length + 1
  | apply symbol _ _ => strength symbol.value

/-- The operators are grouped as their strengths demand, those of equal strength to the left. -/
def Grouped : Operation α → Prop
  | operand _ => True
  | apply symbol left right =>
    strength symbol.value ≤ left.tightness ∧ strength symbol.value < right.tightness ∧
      left.Grouped ∧ right.Grouped

instance decidableGrouped : (x : Operation α) → Decidable x.Grouped
  | operand _ => isTrue trivial
  | apply symbol left right =>
    have := decidableGrouped left
    have := decidableGrouped right
    inferInstanceAs (Decidable (strength symbol.value ≤ left.tightness ∧
      strength symbol.value < right.tightness ∧ left.Grouped ∧ right.Grouped))

/-- Every operator belongs to one of these tiers. -/
def Within (tiers : List Tier) : Operation α → Prop
  | operand _ => True
  | apply symbol left right =>
    Tier.ofOperator symbol.value ∈ tiers ∧ left.Within tiers ∧ right.Within tiers

/-- The operations of a tier put together. -/
def collapse (J : Joining α) (tier : Tier) : Operation α → Operation α
  | operand value => operand value
  | apply symbol left right =>
    if Tier.ofOperator symbol.value = tier then operand (J.join symbol (left.value J) (right.value J))
    else apply symbol (left.collapse J tier) (right.collapse J tier)

/-- The tiers by which chains are folded bind as the classes do. -/
lemma tightness_ofOperator (operator : String) :
    (Tier.ofOperator operator).tightness = strength operator := by
  by_cases hmem : operator ∈ classes.flatten
  · have hall : ∀ s ∈ classes.flatten, (Tier.ofOperator s).tightness = strength s := by decide
    exact hall operator hmem
  · -- what is in no class is not in the table either
    have htable : ∀ entry ∈ Tier.table, entry.1 ∈ classes.flatten := by decide
    have hlookup : Tier.table.lookup operator = none := by
      refine List.lookup_eq_none_iff.mpr fun entry hentry => bne_iff_ne.mpr ?_
      rintro rfl
      exact hmem (htable entry hentry)
    have hplace : classes.findIdx? (·.contains operator) = none :=
      List.findIdx?_eq_none_iff.mpr fun row hrow => by
        rw [List.contains_eq_mem, decide_eq_false_iff_not]
        exact fun hop => hmem (List.mem_flatten.mpr ⟨row, hrow, hop⟩)
    rw [Tier.ofOperator, hlookup, strength, hplace]
    rfl

lemma tightness_le_power (t : Tier) : t.tightness ≤ Tier.power.tightness := by
  cases t <;> decide

/-- Every operator binds looser than an operand holds together. -/
lemma strength_lt (operator : String) : strength operator < classes.length + 1 := by
  rw [← tightness_ofOperator]
  exact Nat.lt_succ_of_le (tightness_le_power _)

lemma value_collapse (J : Joining α) (tier : Tier) (x : Operation α) :
    (x.collapse J tier).value J = x.value J := by
  induction x with
  | operand a => rfl
  | apply symbol left right ihl ihr =>
    rw [collapse]
    split
    · rfl
    · rw [value, value, ihl, ihr]

/-- Collapsing makes nothing looser. -/
lemma tightness_le_collapse (J : Joining α) (tier : Tier) (x : Operation α) :
    x.tightness ≤ (x.collapse J tier).tightness := by
  cases x with
  | operand a => exact Nat.le_refl _
  | apply symbol left right =>
    rw [collapse]
    split
    · exact Nat.le_of_lt (strength_lt _)
    · exact Nat.le_refl _

lemma Grouped.collapse {x : Operation α} (h : x.Grouped) (J : Joining α) (tier : Tier) :
    (x.collapse J tier).Grouped := by
  induction x with
  | operand a => trivial
  | apply symbol left right ihl ihr =>
    obtain ⟨hleft, hright, hl, hr⟩ := h
    rw [Operation.collapse]
    split
    · trivial
    · exact ⟨Nat.le_trans hleft (tightness_le_collapse J tier left),
        Nat.lt_of_lt_of_le hright (tightness_le_collapse J tier right), ihl hl, ihr hr⟩

lemma Within.collapse {x : Operation α} {tier : Tier} {tiers : List Tier}
    (h : x.Within (tier :: tiers)) (J : Joining α) : (x.collapse J tier).Within tiers := by
  induction x with
  | operand a => trivial
  | apply symbol left right ihl ihr =>
    obtain ⟨hmem, hl, hr⟩ := h
    rw [Operation.collapse]
    split
    · trivial
    · rename_i hne
      exact ⟨(List.mem_cons.mp hmem).resolve_left hne, ihl hl, ihr hr⟩

/-! ## One tier -/

/-- What is at least as tight as the tightest tier is put together as a whole. -/
lemma collapse_of_tight {J : Joining α} {tier : Tier} {tiers : List Tier} {x : Operation α}
    (hwithin : x.Within (tier :: tiers)) (hlooser : ∀ t ∈ tiers, t.tightness < tier.tightness)
    (htight : tier.tightness ≤ x.tightness) : x.collapse J tier = operand (x.value J) := by
  cases x with
  | operand a => rfl
  | apply symbol left right =>
    have heq : Tier.ofOperator symbol.value = tier := by
      rcases List.mem_cons.mp hwithin.1 with heq | hmem
      · exact heq
      · rw [tightness, ← tightness_ofOperator] at htight
        exact absurd htight (Nat.not_le.mpr (hlooser _ hmem))
    rw [collapse, if_pos heq, value]

/-- Nothing is tighter than the tightest tier but an operand. -/
lemma eq_operand_of_tighter {tier : Tier} {tiers : List Tier} {x : Operation α}
    (hwithin : x.Within (tier :: tiers)) (hlooser : ∀ t ∈ tiers, t.tightness < tier.tightness)
    (htight : tier.tightness < x.tightness) : ∃ a, x = operand a := by
  cases x with
  | operand a => exact ⟨a, rfl⟩
  | apply symbol left right =>
    rw [tightness, ← tightness_ofOperator] at htight
    rcases List.mem_cons.mp hwithin.1 with heq | hmem
    · rw [heq] at htight
      exact absurd htight (Nat.lt_irrefl _)
    · exact absurd (hlooser _ hmem) (Nat.not_lt.mpr (Nat.le_of_lt htight))

lemma foldTier_operator_of_ne {J : Joining α} {tier : Tier} {symbol : Located String}
    (h : Tier.ofOperator symbol.value ≠ tier) (passed rest : List (Link α)) :
    J.foldTier tier passed (.operator symbol :: rest) =
      J.foldTier tier (.operator symbol :: passed) rest := by
  rw [Joining.foldTier.eq_def]
  dsimp only
  rw [if_neg h]

/-- Folding the tightest tier passes the links of a grouped operation and leaves those of the
collapsed one. -/
lemma foldTier_links {J : Joining α} {tier : Tier} {tiers : List Tier} {x : Operation α}
    (hgrouped : x.Grouped) (hwithin : x.Within (tier :: tiers))
    (hlooser : ∀ t ∈ tiers, t.tightness < tier.tightness) (passed rest : List (Link α)) :
    J.foldTier tier passed (x.links ++ rest) =
      J.foldTier tier ((x.collapse J tier).links.reverse ++ passed) rest := by
  induction x generalizing passed rest with
  | operand a => rfl
  | apply symbol left right ihl ihr =>
    obtain ⟨hleft, hright, hl, hr⟩ := hgrouped
    obtain ⟨hmem, hwl, hwr⟩ := hwithin
    rw [links, List.append_assoc, List.cons_append, ihl hl hwl, collapse]
    by_cases htier : Tier.ofOperator symbol.value = tier
    · -- both sides are single operands by now, and the operator joins them
      rw [← tightness_ofOperator, htier] at hleft hright
      obtain ⟨b, rfl⟩ := eq_operand_of_tighter hwr hlooser hright
      rw [collapse_of_tight hwl hlooser hleft, if_pos htier]
      simp [links, value, Joining.foldTier, htier]
    · rw [if_neg htier]
      simp only [links, List.reverse_append, List.reverse_cons, List.append_assoc]
      rw [foldTier_operator_of_ne htier, ihr hr hwr]
      simp

/-! ## All tiers -/

lemma foldTiers_links {J : Joining α} {tiers : List Tier} {x : Operation α} (hgrouped : x.Grouped)
    (hwithin : x.Within tiers)
    (hsorted : tiers.Pairwise fun t u => u.tightness < t.tightness) :
    J.foldTiers tiers x.links = .ok [.operand (x.value J)] := by
  induction tiers generalizing x with
  | nil =>
    cases x with
    | operand a => rfl
    | apply symbol left right => exact absurd hwithin.1 List.not_mem_nil
  | cons tier tiers ih =>
    rw [List.pairwise_cons] at hsorted
    have hfold := foldTier_links (J := J) hgrouped hwithin hsorted.1 [] []
    rw [List.append_nil, List.append_nil, Joining.foldTier, List.reverse_reverse] at hfold
    rw [Joining.foldTiers, hfold, ← value_collapse J tier x]
    exact ih (hgrouped.collapse J tier) (hwithin.collapse J) hsorted.2

lemma within_tightestFirst (x : Operation α) : x.Within Tier.tightestFirst := by
  induction x with
  | operand a => trivial
  | apply symbol left right ihl ihr =>
    refine ⟨?_, ihl, ihr⟩
    cases Tier.ofOperator symbol.value <;> decide

/-- The links of an operation that is grouped as its operators demand fold back to it. -/
theorem fold_links {J : Joining α} {x : Operation α} (h : x.Grouped) :
    J.fold x.links = .ok (x.value J) := by
  rw [Joining.fold, foldTiers_links h x.within_tightestFirst (by decide)]
  rfl

/-! ## Operations on other operands -/

/-- The operators are the same, wherever they were read. -/
def SameSymbol (s t : Located String) : Prop := s.value = t.value

/-- Two links are of the same kind, with operands related by `R` or operators related by `Q`. -/
inductive Matches (R : α → β → Prop) (Q : Located String → Located String → Prop) :
    Link α → Link β → Prop
  | operand {a : α} {b : β} (h : R a b) : Matches R Q (.operand a) (.operand b)
  | operator {s t : Located String} (h : Q s t) : Matches R Q (.operator s) (.operator t)

/-- Two operations of the same form. -/
inductive Alike (R : α → β → Prop) (Q : Located String → Located String → Prop) :
    Operation α → Operation β → Prop
  | operand {a : α} {b : β} (h : R a b) : Alike R Q (operand a) (operand b)
  | apply {s t : Located String} {l r : Operation α} {l' r' : Operation β} (h : Q s t)
      (left : Alike R Q l l') (right : Alike R Q r r') : Alike R Q (apply s l r) (apply t l' r')

variable {R : α → β → Prop} {Q : Located String → Located String → Prop}

lemma Alike.tightness_eq {x : Operation α} {y : Operation β} (h : Alike R Q x y)
    (hQ : ∀ s t, Q s t → SameSymbol s t) : x.tightness = y.tightness := by
  cases h with
  | operand _ => rfl
  | apply hs _ _ => rw [tightness, tightness, hQ _ _ hs]

lemma Alike.grouped {x : Operation α} {y : Operation β} (h : Alike R Q x y)
    (hQ : ∀ s t, Q s t → SameSymbol s t) (hy : y.Grouped) : x.Grouped := by
  induction h with
  | operand _ => trivial
  | apply hs hleft hright ihl ihr =>
    obtain ⟨h₁, h₂, hl, hr⟩ := hy
    rw [← hQ _ _ hs] at h₁ h₂
    exact ⟨hleft.tightness_eq hQ ▸ h₁, hright.tightness_eq hQ ▸ h₂, ihl hl, ihr hr⟩

/-- Links that match those of an operation are those of an operation of the same form. -/
lemma exists_alike {ls : List (Link α)} {y : Operation β}
    (h : List.Forall₂ (Matches R Q) ls y.links) :
    ∃ x : Operation α, x.links = ls ∧ Alike R Q x y := by
  induction y generalizing ls with
  | operand b =>
    cases h with
    | cons hhead htail =>
      cases htail
      cases hhead with
      | operand ha => exact ⟨operand _, rfl, .operand ha⟩
  | apply symbol left right ihl ihr =>
    have hfront := List.forall₂_take_append ls left.links (.operator symbol :: right.links) h
    have hback := List.forall₂_drop_append ls left.links (.operator symbol :: right.links) h
    obtain ⟨l, hl, hleft⟩ := ihl hfront
    cases hdrop : ls.drop left.links.length with
    | nil =>
      rw [hdrop] at hback
      cases hback
    | cons s rs =>
      rw [hdrop] at hback
      cases hback with
      | cons hhead htail =>
        obtain ⟨r, hr, hright⟩ := ihr htail
        cases hhead with
        | operator hs =>
          refine ⟨apply _ l r, ?_, .apply hs hleft hright⟩
          rw [links, hl, hr, ← hdrop, List.take_append_drop]

end Operation

end Formulary
