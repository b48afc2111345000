/-
# Growth

When a tree is stored under an owner, new nodes are added below that owner and nothing else
changes.  The new nodes that the owner is to own are the tops; every other new node hangs below
one of them.  While the tree is being stored the owner does not list the tops yet, so the ties
are not consistent in between; they are again as soon as it lists them.
-/
import Formulary.Proofs.Store.Ties

namespace Formulary.Store.Ties

variable {t t' t'' : Ties} {o root : NodeKey} {ks ls : List NodeKey}

/-- The ties `t'` come from `t` by adding new nodes below `o`, those in `ks` directly. -/
structure Grown (t t' : Ties) (o : NodeKey) (ks : List NodeKey) : Prop where
  /-- No other node changes. -/
  keep : ∀ n, (t n).isSome → n ≠ o → t' n = t n
  owner_isSome : (t' o).isSome
  owner_owner : t'.owner o = t.owner o
  /-- The tops are new and refer back to the owner. -/
  tops : ∀ n ∈ ks, t n = none ∧ t'.owner n = some o
  nodup : ks.Nodup
  /-- A new node owns the new nodes that refer back to it. -/
  mem_owned_iff : ∀ p, t p = none → ∀ n, n ∈ t'.owned p ↔ t n = none ∧ t'.owner n = some p
  nodup_owned : ∀ p, t p = none → (t'.owned p).Nodup
  /-- Every new node is below a top. -/
  below : ∀ n, t n = none → (t' n).isSome → ∃ k ∈ ks, t'.Below k n

namespace Grown

lemma isSome (h : t.Grown t' o ks) {n : NodeKey} (hn : (t n).isSome) : (t' n).isSome := by
  by_cases hno : n = o
  · rw [hno]
    exact h.owner_isSome
  · rw [h.keep n hn hno]
    exact hn

lemma eq_none (h : t.Grown t' o ks) {n : NodeKey} (hn : t' n = none) : t n = none := by
  by_contra hcon
  have := h.isSome (Option.isSome_iff_ne_none.mpr hcon)
  simp [hn] at this

lemma owner_eq (h : t.Grown t' o ks) {n : NodeKey} (hn : (t n).isSome) :
    t'.owner n = t.owner n := by
  by_cases hno : n = o
  · rw [hno, h.owner_owner]
  · rw [owner, h.keep n hn hno, owner]

/-- What is below a new node is new. -/
lemma new_of_below (h : t.Grown t' o ks) {m n : NodeKey} (hm : t m = none)
    (hbelow : t'.Below m n) : t n = none := by
  induction hbelow with
  | refl => exact hm
  | tail _ hab ih => exact ((h.mem_owned_iff _ ih _).mp hab).1

/-- A new node whose owner was there before is a top. -/
lemma top_of_owner (h : t.Grown t' o ks) {n p : NodeKey} (hn : t n = none) (hp : (t p).isSome)
    (hown : t'.owner n = some p) : p = o ∧ n ∈ ks := by
  obtain ⟨k, hk, hbelow⟩ := h.below n hn (isSome_of_owner hown)
  rcases Relation.ReflTransGen.cases_tail hbelow with rfl | ⟨q, hq, hmem⟩
  · have howner := (h.tops n hk).2
    rw [hown] at howner
    cases howner
    exact ⟨rfl, hk⟩
  · -- otherwise its owner is below a top, and new as well
    have hqnew := h.new_of_below (h.tops k hk).1 hq
    have hownq := ((h.mem_owned_iff q hqnew n).mp hmem).2
    rw [hown] at hownq
    cases hownq
    simp [hqnew] at hp

lemma refl (ho : (t o).isSome) : t.Grown t o [] where
  keep := fun _ _ _ => rfl
  owner_isSome := ho
  owner_owner := rfl
  tops := by simp
  nodup := List.nodup_nil
  mem_owned_iff := by
    intro p hp n
    simp only [owned, hp, Option.map_none, Option.getD_none, List.not_mem_nil, false_iff, not_and]
    intro hn
    simp [owner, hn]
  nodup_owned := by
    intro p hp
    simp [owned, hp]
  below := by
    intro n hn hsome
    simp [hn] at hsome

lemma ne_of_new (ho : (t o).isSome) {p : NodeKey} (hp : t p = none) : p ≠ o := by
  rintro rfl
  simp [hp] at ho

lemma owned_eq (h : t.Grown t' o ks) {n : NodeKey} (hn : (t n).isSome) (hno : n ≠ o) :
    t'.owned n = t.owned n := by
  rw [owned, h.keep n hn hno, owned]

/-- Below a node that is not the owner, nothing changes as long as the owner is not met. -/
lemma below_mono (h : t.Grown t' o ks) (h' : t'.Grown t'' o ls) (ho : (t o).isSome)
    {m n : NodeKey} (hm : t m = none) (hsome : (t' m).isSome) (hbelow : t'.Below m n) :
    t''.Below m n ∧ (t' n).isSome := by
  induction hbelow with
  | refl => exact ⟨.refl, hsome⟩
  | @tail a b hma hab ih =>
    have ha := h.new_of_below hm hma
    refine ⟨ih.1.tail ?_, isSome_of_owner ((h.mem_owned_iff a ha b).mp hab).2⟩
    rwa [h'.owned_eq ih.2 (ne_of_new ho ha)]

lemma mem_owned_iff_append (h : t.Grown t' o ks) (h' : t'.Grown t'' o ls) (ho : (t o).isSome)
    {p : NodeKey} (hp : t p = none) (n : NodeKey) :
    n ∈ t''.owned p ↔ t n = none ∧ t''.owner n = some p := by
  cases hp' : t' p with
  | none =>
    rw [h'.mem_owned_iff p hp' n]
    refine ⟨fun hn => ⟨h.eq_none hn.1, hn.2⟩, fun hn => ⟨?_, hn.2⟩⟩
    -- a node that was new before has its owner among the nodes that there were then
    by_contra hcon
    have howner := hn.2
    rw [h'.owner_eq (Option.isSome_iff_ne_none.mpr hcon)] at howner
    have hsome := isSome_of_mem_owned ((h.mem_owned_iff p hp n).mpr ⟨hn.1, howner⟩)
    simp [hp'] at hsome
  | some tie =>
    have hsome : (t' p).isSome := by simp [hp']
    have hpo := ne_of_new ho hp
    rw [h'.owned_eq hsome hpo, h.mem_owned_iff p hp n]
    refine and_congr_right fun hn => ?_
    cases hn' : t' n with
    | some _ => rw [h'.owner_eq (by simp [hn'])]
    | none =>
      have hleft : t'.owner n ≠ some p := by simp [owner, hn']
      exact ⟨fun hown => absurd hown hleft,
        fun hown => absurd (h'.top_of_owner hn' hsome hown).1 hpo⟩

/-- Growing twice below the same owner. -/
lemma append (h : t.Grown t' o ks) (h' : t'.Grown t'' o ls) (ho : (t o).isSome) :
    t.Grown t'' o (ks ++ ls) where
  keep := by
    intro n hn hno
    rw [h'.keep n (h.isSome hn) hno, h.keep n hn hno]
  owner_isSome := h'.owner_isSome
  owner_owner := by rw [h'.owner_owner, h.owner_owner]
  tops := by
    intro n hn
    rcases List.mem_append.mp hn with hn | hn
    · have htop := h.tops n hn
      exact ⟨htop.1, (h'.owner_eq (isSome_of_owner htop.2)).trans htop.2⟩
    · have htop := h'.tops n hn
      exact ⟨h.eq_none htop.1, htop.2⟩
  nodup := by
    refine List.Nodup.append h.nodup h'.nodup ?_
    intro n hn hn'
    have hlive := isSome_of_owner (h.tops n hn).2
    simp [(h'.tops n hn').1] at hlive
  mem_owned_iff := fun _ hp => h.mem_owned_iff_append h' ho hp
  nodup_owned := by
    intro p hp
    cases hp' : t' p with
    | none => exact h'.nodup_owned p hp'
    | some tie =>
      rw [h'.owned_eq (by simp [hp']) (ne_of_new ho hp)]
      exact h.nodup_owned p hp
  below := by
    intro n hn hsome
    cases hn' : t' n with
    | none =>
      obtain ⟨k, hk, hbelow⟩ := h'.below n hn' hsome
      exact ⟨k, by simp [hk], hbelow⟩
    | some tie =>
      obtain ⟨k, hk, hbelow⟩ := h.below n hn (by simp [hn'])
      have htop := h.tops k hk
      exact ⟨k, by simp [hk],
        (h.below_mono h' ho htop.1 (isSome_of_owner htop.2) hbelow).1⟩

/-- Which nodes the owner lists does not matter. -/
lemma setOwned (h : t.Grown t' o ks) (ho : (t o).isSome) (ns : List NodeKey) :
    t.Grown (t'.setOwned o ns) o ks := by
  have howned : ∀ p, p ≠ o → (t'.setOwned o ns).owned p = t'.owned p := by
    intro p hp
    rw [owned_setOwned h.owner_isSome, if_neg hp]
  refine ⟨?_, by simpa using h.owner_isSome, by simpa using h.owner_owner, ?_, h.nodup, ?_, ?_, ?_⟩
  · intro n hn hno
    rw [Ties.setOwned, write_apply, if_neg hno, h.keep n hn hno]
  · simpa using h.tops
  · intro p hp n
    rw [howned p (ne_of_new ho hp), owner_setOwned]
    exact h.mem_owned_iff p hp n
  · intro p hp
    rw [howned p (ne_of_new ho hp)]
    exact h.nodup_owned p hp
  · intro n hn hsome
    obtain ⟨k, hk, hbelow⟩ := h.below n hn (by simpa using hsome)
    refine ⟨k, hk, ?_⟩
    -- the way down from a top only meets new nodes
    induction hbelow with
    | refl => exact .refl
    | @tail a b hka hab ih =>
      have ha := h.new_of_below (h.tops k hk).1 hka
      have hb := ((h.mem_owned_iff a ha b).mp hab).2
      have hsomea := isSome_of_mem_owned hab
      exact (ih ha (by simpa using hsomea)).tail (by rwa [howned a (ne_of_new ho ha)])

section Node

variable {key : NodeKey}

lemma write_of_isSome {tie : Tie} (hkey : t key = none) {n : NodeKey} (hn : (t n).isSome) :
    t.write key (some tie) n = t n := by
  rw [write_apply, if_neg]
  rintro rfl
  simp [hkey] at hn

lemma write_eq_none_iff {tie : Tie} (hkey : t key = none) (n : NodeKey) :
    t.write key (some tie) n = none ↔ n ≠ key ∧ t n = none := by
  rw [write_apply]
  split
  · simp_all
  · simp_all

/-- A new node owns the new nodes that refer back to it. -/
lemma mem_owned_iff_node (hkey : t key = none) (ho : (t o).isSome)
    (h : (t.write key (some ⟨some o, []⟩)).Grown t' key ks) (hperm : (t'.owned key).Perm ks)
    {p : NodeKey} (hp : t p = none) (n : NodeKey) :
    n ∈ t'.owned p ↔ t n = none ∧ t'.owner n = some p := by
  have howner : t'.owner key = some o := by
    rw [h.owner_owner]
    simp [owner, write_apply]
  have hpo : o ≠ p := (ne_of_new ho hp).symm
  by_cases hpk : p = key
  · subst hpk
    rw [hperm.mem_iff]
    constructor
    · intro hn
      have htop := h.tops n hn
      exact ⟨((write_eq_none_iff hkey n).mp htop.1).2, htop.2⟩
    · rintro ⟨hn, hown⟩
      have hnp : n ≠ p := by
        rintro rfl
        exact hpo (Option.some.inj (howner.symm.trans hown))
      exact (h.top_of_owner ((write_eq_none_iff hkey n).mpr ⟨hnp, hn⟩) (by simp [write_apply])
        hown).2
  · rw [h.mem_owned_iff p ((write_eq_none_iff hkey p).mpr ⟨hpk, hp⟩), write_eq_none_iff hkey n]
    refine ⟨fun hn => ⟨hn.1.2, hn.2⟩, fun hn => ⟨⟨?_, hn.1⟩, hn.2⟩⟩
    rintro rfl
    exact hpo (Option.some.inj (howner.symm.trans hn.2))

/-- A new node below the owner, with all that was added below the new node. -/
lemma node (hkey : t key = none) (ho : (t o).isSome)
    (h : (t.write key (some ⟨some o, []⟩)).Grown t' key ks) (hperm : (t'.owned key).Perm ks) :
    t.Grown t' o [key] ∧ t' o = t o := by
  have hkeep : ∀ n, (t n).isSome → t' n = t n := by
    intro n hn
    have hnk : n ≠ key := by
      rintro rfl
      simp [hkey] at hn
    rw [h.keep n (by rwa [write_of_isSome hkey hn]) hnk, write_of_isSome hkey hn]
  have hsame := hkeep o ho
  refine ⟨⟨fun n hn _ => hkeep n hn, by rwa [hsame], by rw [owner, hsame, owner], ?_,
    List.nodup_singleton _, fun _ hp => mem_owned_iff_node hkey ho h hperm hp, ?_, ?_⟩, hsame⟩
  · intro n hn
    rw [List.mem_singleton.mp hn, h.owner_owner]
    exact ⟨hkey, by simp [owner, write_apply]⟩
  · intro p hp
    by_cases hpk : p = key
    · rw [hpk, hperm.nodup_iff]
      exact h.nodup
    · exact h.nodup_owned p ((write_eq_none_iff hkey p).mpr ⟨hpk, hp⟩)
  · intro n hn hsome
    refine ⟨key, List.mem_singleton_self key, ?_⟩
    -- a new node is the top itself, or below one of those that the top owns
    by_cases hnk : n = key
    · rw [hnk]
      exact .refl
    · obtain ⟨k, hk, hbelow⟩ :=
        h.below n ((write_eq_none_iff hkey n).mpr ⟨hnk, hn⟩) hsome
      exact Relation.ReflTransGen.head (hperm.mem_iff.mpr hk) hbelow

end Node

end Grown

section Grow

variable (hc : t.Consistent root) (h : t.Grown t' o ks)
  (hperm : (t'.owned o).Perm (t.owned o ++ ks))
include hc h hperm

lemma Consistent.mem_owned_iff_grow (p n : NodeKey) :
    n ∈ t'.owned p ↔ t'.owner n = some p := by
  cases hp : t p with
  | none =>
    rw [h.mem_owned_iff p hp]
    refine ⟨fun hn => hn.2, fun hown => ⟨?_, hown⟩⟩
    by_contra hcon
    rw [h.owner_eq (Option.isSome_iff_ne_none.mpr hcon), ← hc.mem_owned_iff] at hown
    have hsome := isSome_of_mem_owned hown
    simp [hp] at hsome
  | some tie =>
    have hsome : (t p).isSome := by simp [hp]
    have hlisted : n ∈ t'.owned p ↔ n ∈ t.owned p ∨ (p = o ∧ n ∈ ks) := by
      by_cases hpo : p = o
      · rw [hpo, hperm.mem_iff]
        simp
      · rw [h.owned_eq hsome hpo]
        simp [hpo]
    rw [hlisted, hc.mem_owned_iff]
    constructor
    · rintro (hown | ⟨rfl, hn⟩)
      · rw [h.owner_eq (isSome_of_owner hown), hown]
      · exact (h.tops n hn).2
    · intro hown
      cases hn : t n with
      | some _ => exact .inl (by rw [← h.owner_eq (by simp [hn]), hown])
      | none => exact .inr (h.top_of_owner hn hsome hown)

/-- Once the owner lists the tops, both directions of ownership agree again. -/
lemma Consistent.grow : t'.Consistent root := by
  refine ⟨hc.mem_owned_iff_grow h hperm, ?_, h.isSome hc.root_isSome, ?_⟩
  · intro p
    cases hp : t p with
    | none => exact h.nodup_owned p hp
    | some tie =>
      by_cases hpo : p = o
      · rw [hpo, hperm.nodup_iff]
        refine List.Nodup.append (hc.nodup o) h.nodup ?_
        intro n hn hn'
        have hlive := isSome_of_owner ((hc.mem_owned_iff o n).mp hn)
        simp [(h.tops n hn').1] at hlive
      · rw [h.owned_eq (by simp [hp]) hpo]
        exact hc.nodup p
  · rw [h.owner_eq hc.root_isSome, hc.owner_root]

end Grow

end Formulary.Store.Ties
