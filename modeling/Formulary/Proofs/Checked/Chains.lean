/-
# Checked folding

A chain is folded in place: an index runs over its links, and where it meets an operator of the
tier, the operator and its neighbours are taken out of the chain and what they are joined to is put
in at the place of the first of them.  The links before the index are those that were passed, so
there is a neighbour on the left wherever one was passed.
-/
import Formulary.Operator
import Formulary.Proofs.Checked.Text
import Formulary.Proofs.Formula.Related

namespace Formulary.Checked

open Text Parsing

variable {α β : Type}

/-! ## Rows in place -/

/-- The items from one index up to another, and the others. -/
def drain (items : List β) (start stop : Nat) : Except Fault (List β × List β) :=
  if start ≤ stop ∧ stop ≤ items.length then
    .ok ((items.drop start).take (stop - start), items.take start ++ items.drop stop)
  else .error .range

/-- Puts an item in front of the one at an index. -/
def insert (items : List β) (index : Nat) (item : β) : Except Fault (List β) :=
  if index ≤ items.length then .ok (items.take index ++ item :: items.drop index)
  else .error .range

lemma drain_append (xs ys zs : List β) :
    drain (xs ++ ys ++ zs) xs.length (xs.length + ys.length) = .ok (ys, xs ++ zs) := by
  rw [drain, if_pos (by simp only [List.length_append]; omega), List.append_assoc,
    List.drop_left, Nat.add_sub_cancel_left, List.take_left, List.take_left, ← List.append_assoc,
    ← List.length_append, List.drop_left]

lemma insert_append (xs ys : List β) (item : β) :
    insert (xs ++ ys) xs.length item = .ok (xs ++ item :: ys) := by
  rw [insert, if_pos (by simp), List.take_left, List.drop_left]

lemma length_of_drain {items drained rest : List β} {start stop : Nat}
    (h : drain items start stop = .ok (drained, rest)) :
    drained.length + rest.length = items.length := by
  unfold drain at h
  split at h
  · cases h
    simp only [List.length_take, List.length_drop, List.length_append]
    omega
  · cases h

lemma length_of_insert {items items' : List β} {index : Nat} {item : β}
    (h : insert items index item = .ok items') : items'.length = items.length + 1 := by
  unfold insert at h
  split at h
  · cases h
    simp only [List.length_append, List.length_cons, List.length_take, List.length_drop]
    omega
  · cases h

/-! ## Tiers -/

section Joining

variable (J : Joining α)

/-- Joins what is around the operator at an index. -/
def joinAt (symbol : Located String) (items : List (Link α)) (index : Nat) :
    Except Fault (Except Failure (List (Link α))) := do
  let first ← subtract index 1
  let (drained, rest) ← drain items first (index + 2)
  match drained with
  | [.operand a, .operator joined, .operand b] =>
    let place ← subtract index 1
    return .ok (← insert rest place (.operand (J.join joined a b)))
  | _ => return .error (Joining.lonely symbol)

lemma length_of_joinAt {symbol : Located String} {items items' : List (Link α)} {index : Nat}
    (h : joinAt J symbol items index = .ok (.ok items')) : items'.length + 2 = items.length := by
  obtain ⟨first, -, h⟩ := bind_eq_ok_iff.mp h
  obtain ⟨⟨drained, rest⟩, hdrain, h⟩ := bind_eq_ok_iff.mp h
  have hlength := length_of_drain hdrain
  dsimp only at h
  split at h
  · obtain ⟨place, -, h⟩ := bind_eq_ok_iff.mp h
    obtain ⟨_, hinsert, h⟩ := bind_eq_ok_iff.mp h
    cases h
    have := length_of_insert hinsert
    simp only [List.length_cons, List.length_nil] at hlength
    omega
  · cases h

/-- Folds the operators of one tier from an index on. -/
def reduceTier (tier : Tier) (items : List (Link α)) (index : Nat) :
    Except Fault (Except Failure (List (Link α))) :=
  if _hlt : index < items.length then
    match items[index]? with
    | none => .error .index
    | some (.operand _) => reduceTier tier items (index + 1)
    | some (.operator symbol) =>
      if Tier.ofOperator symbol.value = tier then
        if index = 0 ∨ items.length ≤ index + 1 then .ok (.error (Joining.lonely symbol))
        else
          match _here : joinAt J symbol items index with
          | .error fault => .error fault
          | .ok (.error f) => .ok (.error f)
          | .ok (.ok items') => reduceTier tier items' index
      else reduceTier tier items (index + 1)
  else .ok (.ok items)
termination_by items.length - index
decreasing_by
  · omega
  · have := length_of_joinAt J _here
    omega
  · omega

/-- Folds the tiers one after the other. -/
def reduceTiers : List Tier → List (Link α) → Except Fault (Except Failure (List (Link α)))
  | [], items => .ok (.ok items)
  | tier :: tiers, items =>
    match reduceTier J tier items 0 with
    | .error fault => .error fault
    | .ok (.error f) => .ok (.error f)
    | .ok (.ok items') => reduceTiers tiers items'

/-- Puts a chain together. -/
def reduce (items : List (Link α)) : Except Fault (Except Failure α) :=
  match reduceTiers J Tier.tightestFirst items with
  | .error fault => .error fault
  | .ok (.error f) => .ok (.error f)
  | .ok (.ok [.operand a]) => .ok (.ok a)
  | .ok (.ok rest) => .ok (.error
      ⟨(rest.getLast?.map J.linkSpan).getD {}, .incompleteReduction rest.length, true⟩)

variable {J}

/-- An operator between two links has both of them beside it. -/
lemma joinAt_eq (symbol : Located String) (front back : List (Link α)) (left right : Link α) :
    joinAt J symbol (front ++ [left, .operator symbol, right] ++ back) (front.length + 1) =
      .ok (match left, right with
        | .operand a, .operand b => .ok (front ++ .operand (J.join symbol a b) :: back)
        | _, _ => .error (Joining.lonely symbol)) := by
  have hdrain := drain_append front [left, .operator symbol, right] back
  have hlength : front.length + [left, .operator symbol, right].length = front.length + 1 + 2 := rfl
  rw [hlength] at hdrain
  unfold joinAt
  rw [subtract_add]
  dsimp only [bind, Except.bind]
  rw [hdrain]
  cases left with
  | operator _ => rfl
  | operand a =>
    cases right with
    | operator _ => rfl
    | operand b =>
      dsimp only
      rw [insert_append]
      rfl

section Walk

variable (tier : Tier) (passed links : List (Link α)) {symbol : Located String}

private lemma getElem?_passed (link : Link α) :
    (passed.reverse ++ link :: links)[passed.length]? = some link := by
  rw [← passed.length_reverse, List.getElem?_append_right (Nat.le_refl _), Nat.sub_self]
  rfl

private lemma length_passed_lt (link : Link α) :
    passed.length < (passed.reverse ++ link :: links).length := by
  rw [List.length_append, List.length_reverse, List.length_cons]
  omega

private lemma append_passed (link : Link α) :
    passed.reverse ++ link :: links = (link :: passed).reverse ++ links := by
  rw [List.reverse_cons, List.append_assoc]
  rfl

lemma reduceTier_nil : reduceTier J tier (passed.reverse ++ []) passed.length =
    .ok (.ok passed.reverse) := by
  rw [List.append_nil, reduceTier, dif_neg (by simp)]

lemma reduceTier_operand (a : α) :
    reduceTier J tier (passed.reverse ++ .operand a :: links) passed.length =
      reduceTier J tier ((.operand a :: passed).reverse ++ links) (passed.length + 1) := by
  rw [reduceTier, dif_pos (length_passed_lt passed links _), getElem?_passed, append_passed]

lemma reduceTier_of_ne (h : Tier.ofOperator symbol.value ≠ tier) :
    reduceTier J tier (passed.reverse ++ .operator symbol :: links) passed.length =
      reduceTier J tier ((.operator symbol :: passed).reverse ++ links) (passed.length + 1) := by
  rw [reduceTier, dif_pos (length_passed_lt passed links _), getElem?_passed]
  dsimp only
  rw [if_neg h, append_passed]

lemma reduceTier_of_edge (h : Tier.ofOperator symbol.value = tier) (hedge : passed = [] ∨ links = []) :
    reduceTier J tier (passed.reverse ++ .operator symbol :: links) passed.length =
      .ok (.error (Joining.lonely symbol)) := by
  rw [reduceTier, dif_pos (length_passed_lt passed links _), getElem?_passed]
  dsimp only
  rw [if_pos h, if_pos]
  rcases hedge with rfl | rfl
  · exact .inl rfl
  · exact .inr (by simp)

lemma reduceTier_between (left right : Link α) (h : Tier.ofOperator symbol.value = tier) :
    reduceTier J tier ((left :: passed).reverse ++ .operator symbol :: right :: links)
        (left :: passed).length =
      match left, right with
      | .operand a, .operand b => reduceTier J tier
          (passed.reverse ++ .operand (J.join symbol a b) :: links) (passed.length + 1)
      | _, _ => .ok (.error (Joining.lonely symbol)) := by
  have hbeside : ¬((left :: passed).length = 0 ∨
      ((left :: passed).reverse ++ .operator symbol :: right :: links).length ≤
        (left :: passed).length + 1) := by
    simp only [List.length_append, List.length_reverse, List.length_cons]
    omega
  have hjoin := joinAt_eq (J := J) symbol passed.reverse links left right
  have hsplit : passed.reverse ++ [left, .operator symbol, right] ++ links =
      (left :: passed).reverse ++ .operator symbol :: right :: links := by simp
  rw [hsplit, List.length_reverse] at hjoin
  rw [reduceTier, dif_pos (length_passed_lt _ _ _), getElem?_passed]
  dsimp only
  rw [if_pos h, if_neg hbeside]
  -- what the neighbours are joined to is known, so one branch is left
  cases left with
  | operator _ =>
    split <;> cases hjoin.symm.trans ‹_›
    rfl
  | operand a =>
    cases right with
    | operator _ =>
      split <;> cases hjoin.symm.trans ‹_›
      rfl
    | operand b =>
      split <;> cases hjoin.symm.trans ‹_›
      rfl

end Walk

/-- The links in front of the index are those that were passed. -/
lemma reduceTier_eq (tier : Tier) (passed links : List (Link α)) :
    reduceTier J tier (passed.reverse ++ links) passed.length =
      .ok (J.foldTier tier passed links) := by
  induction passed, links using Joining.foldTier.induct J tier with
  | case1 passed =>
    rw [Joining.foldTier]
    exact reduceTier_nil tier passed
  | case2 passed a links ih =>
    rw [Joining.foldTier]
    exact (reduceTier_operand tier passed links a).trans ih
  | case3 symbol htier a passed b links ih =>
    rw [Joining.foldTier, if_pos htier, reduceTier_between tier passed links _ _ htier]
    dsimp only
    rw [append_passed]
    exact ih
  | case4 passed symbol links htier hlonely =>
    rw [Joining.foldTier.eq_def]
    dsimp only
    rw [if_pos htier]
    match passed, links, hlonely with
    | [], links, _ => exact reduceTier_of_edge tier [] links htier (.inl rfl)
    | left :: passed, [], _ =>
      rw [reduceTier_of_edge tier _ [] htier (.inr rfl)]
      cases left <;> rfl
    | .operator _ :: passed, right :: links, _ =>
      exact reduceTier_between tier passed links _ right htier
    | .operand a :: passed, .operator _ :: links, _ =>
      exact reduceTier_between tier passed links _ _ htier
    | .operand a :: passed, .operand b :: links, hlonely =>
      exact absurd rfl (hlonely a passed b links rfl)
  | case5 passed symbol links htier ih =>
    rw [Joining.foldTier.eq_def]
    dsimp only
    rw [if_neg htier]
    exact (reduceTier_of_ne tier passed links htier).trans ih

lemma reduceTiers_eq (tiers : List Tier) (links : List (Link α)) :
    reduceTiers J tiers links = .ok (J.foldTiers tiers links) := by
  induction tiers generalizing links with
  | nil => rfl
  | cons tier tiers ih =>
    have htier := reduceTier_eq (J := J) tier [] links
    rw [List.reverse_nil, List.nil_append, List.length_nil] at htier
    rw [reduceTiers, Joining.foldTiers, htier]
    cases J.foldTier tier [] links with
    | error f => rfl
    | ok links' => exact ih links'

/-- Putting a chain together meets no fault. -/
lemma reduce_eq (links : List (Link α)) : reduce J links = .ok (J.fold links) := by
  rw [reduce, Joining.fold, reduceTiers_eq]
  cases J.foldTiers Tier.tightestFirst links with
  | error f => rfl
  | ok rest =>
    rcases rest with _ | ⟨link, _ | ⟨_, _⟩⟩
    · rfl
    · cases link <;> rfl
    · cases link <;> rfl

end Joining

end Formulary.Checked
