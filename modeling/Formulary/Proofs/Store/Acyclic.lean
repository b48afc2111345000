/-
# Trees of nodes

A node is rooted if the way from a node to its owner, and on to the owner of that, comes to an
end.  Ties are acyclic if every node is rooted, so that no node is below one that it owns.

Of the steps on ties only one can close a cycle: a detached node is put below a node that is
itself below it.  Then that node has no way up that ends any more, and in every other case the
nodes stay rooted.
-/
import Formulary.Proofs.Store.Growth

namespace Formulary.Store.Ties

variable {t t' : Ties} {root n o : NodeKey}

/-- Following the owners of a node comes to an end. -/
inductive Rooted (t : Ties) : NodeKey → Prop
  | detached {n : NodeKey} (h : t.owner n = none) : Rooted t n
  | owned {n o : NodeKey} (h : t.owner n = some o) (ho : Rooted t o) : Rooted t n

/-- Every node is rooted. -/
def Acyclic (t : Ties) : Prop := ∀ n, t.Rooted n

/-- The way up from `m` leads to `n`. -/
def Climbs (t : Ties) (m n : NodeKey) : Prop :=
  Relation.ReflTransGen (fun a b => t.owner a = some b) m n

/-- The way up from a rooted node does not come back to it. -/
lemma Rooted.not_climbs (h : t.Rooted n) : ∀ o, t.owner n = some o → ¬ t.Climbs o n := by
  induction h with
  | detached h =>
    intro o hown
    simp [h] at hown
  | @owned n p h _ ih =>
    intro o hown hclimbs
    rw [h] at hown
    cases hown
    -- the way from `p` up to `n` starts with the owner of `p`, and goes on from `n` to `p`
    rcases Relation.ReflTransGen.cases_head hclimbs with rfl | ⟨q, hq, hrest⟩
    · exact ih _ h .refl
    · exact ih q hq (hrest.tail h)

/-- Being below is being met on the way up. -/
lemma Consistent.below_iff (h : t.Consistent root) {m : NodeKey} :
    t.Below m n ↔ t.Climbs n m := by
  unfold Below Climbs
  rw [← Relation.reflTransGen_swap]
  have hrel : (fun a b => b ∈ t.owned a) = Function.swap fun a b => t.owner a = some b := by
    funext a b
    exact propext (h.mem_owned_iff a b)
  rw [hrel]

lemma Rooted.not_below (h : t.Rooted n) (hc : t.Consistent root) (hmem : n ∈ t.owned o) :
    ¬ t.Below n o := by
  rw [hc.below_iff]
  exact h.not_climbs o ((hc.mem_owned_iff o n).mp hmem)

lemma Rooted.of_mem_owned (h : t.Rooted o) (hc : t.Consistent root) (hmem : n ∈ t.owned o) :
    t.Rooted n := .owned ((hc.mem_owned_iff o n).mp hmem) h

/-- If the ties of a node change only where the new owner is rooted, all nodes stay rooted. -/
lemma Acyclic.of_owner (h : t.Acyclic)
    (hstep : ∀ m p, t'.owner m = some p → t.owner m = some p ∨ t'.Rooted p) : t'.Acyclic := by
  intro m
  induction h m with
  | @detached m hm =>
    cases hown : t'.owner m with
    | none => exact .detached hown
    | some p =>
      rcases hstep m p hown with h | h
      · simp [hm] at h
      · exact .owned hown h
  | @owned m q hm _ ih =>
    cases hown : t'.owner m with
    | none => exact .detached hown
    | some p =>
      rcases hstep m p hown with h | h
      · rw [hm] at h
        cases h
        exact .owned hown ih
      · exact .owned hown h

/-! ## Steps that keep nodes rooted -/

lemma Acyclic.adopt (h : t.Acyclic) {ns : List NodeKey} (hns : ∀ m ∈ ns, (t m).isSome) :
    (t.adopt n ns).Acyclic := by
  have hroot : (t.adopt n ns).Rooted n := .detached (by rw [owner_adopt hns, if_pos rfl])
  refine h.of_owner fun m p hown => ?_
  rw [owner_adopt hns] at hown
  split at hown
  · cases hown
  · split at hown
    · cases hown
      exact .inr hroot
    · exact .inl hown

lemma Acyclic.unlink (h : t.Acyclic) (n : NodeKey) : (t.unlink n).Acyclic := by
  refine h.of_owner fun m p hown => ?_
  rw [owner_unlink] at hown
  split at hown
  · cases hown
  · exact .inl hown

lemma Acyclic.erase (h : t.Acyclic) (g : NodeKey → Prop) : (t.erase g).Acyclic := by
  classical
  refine h.of_owner fun m p hown => ?_
  rw [owner_erase] at hown
  split at hown
  · cases hown
  · exact .inl hown

lemma Acyclic.withoutBelow (h : t.Acyclic) (n : NodeKey) : (t.withoutBelow n).Acyclic :=
  h.erase _

/-- Nodes that are added below a rooted node are rooted. -/
lemma Acyclic.grow (h : t.Acyclic) (hc : t.Consistent root) {ks : List NodeKey}
    (hg : t.Grown t' o ks) (ho : (t o).isSome) : t'.Acyclic := by
  have hold : ∀ m, (t m).isSome → t'.Rooted m := by
    intro m hm
    induction h m with
    | detached h => exact .detached (by rw [hg.owner_eq hm, h])
    | @owned m p h _ ih =>
      have hp := isSome_of_mem_owned ((hc.mem_owned_iff p m).mpr h)
      exact .owned (by rw [hg.owner_eq hm, h]) (ih hp)
  intro m
  cases hm : t m with
  | some tie => exact hold m (by simp [hm])
  | none =>
    cases hm' : t' m with
    | none => exact .detached (by simp [owner, hm'])
    | some tie =>
      obtain ⟨k, hk, hbelow⟩ := hg.below m hm (by simp [hm'])
      -- from a top, which is owned by `o`, down to the node
      clear hm hm'
      induction hbelow with
      | refl => exact .owned (hg.tops k hk).2 (hold o ho)
      | @tail a b hka hab ih =>
        have ha := hg.new_of_below (hg.tops k hk).1 hka
        exact .owned ((hg.mem_owned_iff a ha b).mp hab).2 ih

/-! ## The step that can close a cycle -/

/-- Climbing up to `n` does not depend on the owner of `n`. -/
lemma climbs_iff_of_owner_eq (h : ∀ m, m ≠ n → t'.owner m = t.owner m) (m : NodeKey) :
    t'.Climbs m n ↔ t.Climbs m n := by
  have hmono : ∀ {t t' : Ties}, (∀ m, m ≠ n → t'.owner m = t.owner m) → t.Climbs m n →
      t'.Climbs m n := by
    intro t t' h hclimbs
    induction hclimbs using Relation.ReflTransGen.head_induction_on with
    | refl => exact .refl
    | @head a b hab _ ih =>
      by_cases ha : a = n
      · rw [ha]
        exact .refl
      · exact ih.head (by rw [h a ha, hab])
  exact ⟨hmono fun m hm => (h m hm).symm, hmono h⟩

/-- A detached node may be put below any node that is not below it. -/
lemma Acyclic.attach_iff (h : t.Acyclic) (hc : t.Consistent root) (hn : (t n).isSome)
    (o : NodeKey) (ns : List NodeKey) : (t.attach n o ns).Acyclic ↔ ¬ t.Below n o := by
  have howner : ∀ m, m ≠ n → (t.attach n o ns).owner m = t.owner m := by
    intro m hm
    rw [owner_attach hn, if_neg hm]
  have hn' : (t.attach n o ns).owner n = some o := by rw [owner_attach hn, if_pos rfl]
  rw [hc.below_iff, ← climbs_iff_of_owner_eq howner]
  refine ⟨fun hacyclic => (hacyclic n).not_climbs o hn', fun hclimbs => ?_⟩
  -- a way up that does not meet `n` is the same as before
  have hrooted : ∀ m, ¬ (t.attach n o ns).Climbs m n → (t.attach n o ns).Rooted m := by
    intro m hm
    have hmn : m ≠ n := by
      rintro rfl
      exact hm .refl
    induction h m with
    | detached hdet => exact .detached (by rw [howner _ hmn, hdet])
    | @owned m p hown _ ih =>
      have hown' : (t.attach n o ns).owner m = some p := by rw [howner m hmn, hown]
      have hp : ¬ (t.attach n o ns).Climbs p n := fun h => hm (h.head hown')
      have hpn : p ≠ n := by
        rintro rfl
        exact hp .refl
      exact .owned hown' (ih hp hpn)
  have ho := hrooted o hclimbs
  refine h.of_owner fun m p hown => ?_
  by_cases hm : m = n
  · rw [hm, hn'] at hown
    cases hown
    exact .inr ho
  · rw [howner m hm] at hown
    exact .inl hown

/-- A new node may be put anywhere. -/
lemma Acyclic.attach_adopt (h : t.Acyclic) (hc : t.Consistent root) (hn : t n = none)
    (ho : (t o).isSome) (ns : List NodeKey) : ((t.adopt n []).attach n o ns).Acyclic := by
  have hadopt : (t.adopt n []).Acyclic := h.adopt (by simp)
  have hc' : (t.adopt n []).Consistent root := hc.adopt hn List.nodup_nil (by simp)
  refine (hadopt.attach_iff hc' (by simp [Ties.adopt]) o ns).mpr ?_
  intro hbelow
  rcases Relation.ReflTransGen.cases_head hbelow with rfl | ⟨m, hm, -⟩
  · simp [hn] at ho
  · simp [owned_adopt] at hm

end Formulary.Store.Ties
