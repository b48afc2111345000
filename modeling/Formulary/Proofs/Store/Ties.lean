/-
# Ties

Of a store that is edited, ownership only sees which nodes exist, which node owns each of them,
and which nodes each of them owns in which order.  This is what the ties of a store keep.  They
are a function, so that a step of an edit is the change of that function at one or two nodes.

Ties are consistent if both directions of ownership agree: a node is listed by a node exactly if
it refers back to it, and nowhere twice.  The steps below are the ones that every edit is made
of, and each of them keeps ties consistent.
-/
import Mathlib.Data.List.Nodup
import Mathlib.Logic.Relation
import Mathlib.Tactic.Common
import Formulary.Store.Basic

namespace Formulary.Store

/-- What a node shows of ownership. -/
structure Tie where
  /-- The node that owns it. -/
  owner : Option NodeKey
  /-- The nodes that it owns, in their order. -/
  owned : List NodeKey

/-- The tie of every node; there is none under a key without a node. -/
def Ties : Type := NodeKey → Option Tie

namespace Ties

/-- The node that owns a node. -/
def owner (t : Ties) (n : NodeKey) : Option NodeKey := (t n).bind Tie.owner

/-- The nodes that a node owns. -/
def owned (t : Ties) (n : NodeKey) : List NodeKey := ((t n).map Tie.owned).getD []

/-- Both directions of ownership agree, and the root is a node without an owner. -/
structure Consistent (t : Ties) (root : NodeKey) : Prop where
  mem_owned_iff : ∀ o n, n ∈ t.owned o ↔ t.owner n = some o
  nodup : ∀ o, (t.owned o).Nodup
  root_isSome : (t root).isSome
  owner_root : t.owner root = none

lemma isSome_of_owner {t : Ties} {n o : NodeKey} (h : t.owner n = some o) : (t n).isSome := by
  obtain ⟨tie, htie, -⟩ := Option.bind_eq_some_iff.mp h
  simp [htie]

lemma isSome_of_mem_owned {t : Ties} {n o : NodeKey} (h : n ∈ t.owned o) : (t o).isSome := by
  cases ho : t o with
  | none => simp [owned, ho] at h
  | some tie => rfl

/-! ## Changing a tie -/

/-- The ties after that of one node was replaced. -/
def write (t : Ties) (n : NodeKey) (tie : Option Tie) : Ties :=
  fun m => if m = n then tie else t m

/-- The ties after a node was given an owner, or none. -/
def setOwner (t : Ties) (n : NodeKey) (owner : Option NodeKey) : Ties :=
  t.write n ((t n).map fun tie => { tie with owner := owner })

/-- The ties after the nodes that a node owns were replaced. -/
def setOwned (t : Ties) (n : NodeKey) (owned : List NodeKey) : Ties :=
  t.write n ((t n).map fun tie => { tie with owned := owned })

lemma write_apply (t : Ties) (n : NodeKey) (tie : Option Tie) (m : NodeKey) :
    t.write n tie m = if m = n then tie else t m := rfl

lemma owner_write (t : Ties) (n : NodeKey) (tie : Option Tie) (m : NodeKey) :
    (t.write n tie).owner m = if m = n then tie.bind Tie.owner else t.owner m := by
  unfold owner write
  split <;> rfl

lemma owned_write (t : Ties) (n : NodeKey) (tie : Option Tie) (m : NodeKey) :
    (t.write n tie).owned m = if m = n then (tie.map Tie.owned).getD [] else t.owned m := by
  unfold owned write
  split <;> rfl

lemma owner_setOwner {t : Ties} {n : NodeKey} (hn : (t n).isSome) (owner : Option NodeKey)
    (m : NodeKey) :
    (t.setOwner n owner).owner m = if m = n then owner else t.owner m := by
  obtain ⟨tie, htie⟩ := Option.isSome_iff_exists.mp hn
  simp [setOwner, owner_write, htie]

@[simp] lemma owned_setOwner (t : Ties) (n : NodeKey) (owner : Option NodeKey) (m : NodeKey) :
    (t.setOwner n owner).owned m = t.owned m := by
  rw [setOwner, owned_write]
  split
  · rename_i h
    subst h
    cases h : t m <;> simp [owned, h]
  · rfl

@[simp] lemma owner_setOwned (t : Ties) (n : NodeKey) (ns : List NodeKey) (m : NodeKey) :
    (t.setOwned n ns).owner m = t.owner m := by
  rw [setOwned, owner_write]
  split
  · rename_i h
    subst h
    cases h : t m <;> simp [owner, h]
  · rfl

lemma owned_setOwned {t : Ties} {n : NodeKey} (hn : (t n).isSome) (ns : List NodeKey)
    (m : NodeKey) :
    (t.setOwned n ns).owned m = if m = n then ns else t.owned m := by
  obtain ⟨tie, htie⟩ := Option.isSome_iff_exists.mp hn
  simp [setOwned, owned_write, htie]

lemma isSome_write {t : Ties} {n : NodeKey} {tie : Option Tie} (h : tie.isSome = (t n).isSome)
    (m : NodeKey) : (t.write n tie m).isSome = (t m).isSome := by
  rw [write_apply]
  split
  · rename_i hm
    rw [hm, h]
  · rfl

@[simp] lemma isSome_setOwner (t : Ties) (n : NodeKey) (owner : Option NodeKey) (m : NodeKey) :
    (t.setOwner n owner m).isSome = (t m).isSome :=
  isSome_write (by simp) m

@[simp] lemma isSome_setOwned (t : Ties) (n : NodeKey) (ns : List NodeKey) (m : NodeKey) :
    (t.setOwned n ns m).isSome = (t m).isSome :=
  isSome_write (by simp) m

lemma setOwner_setOwned (t : Ties) (n o : NodeKey) (owner : Option NodeKey)
    (ns : List NodeKey) :
    (t.setOwned o ns).setOwner n owner = (t.setOwner n owner).setOwned o ns := by
  funext m
  by_cases hm : m = n
  · subst hm
    by_cases ho : m = o
    · subst ho
      cases h : t m <;> simp [setOwner, setOwned, write_apply, h]
    · simp [setOwner, setOwned, write_apply, ho]
  · by_cases ho : m = o
    · subst ho
      simp [setOwner, setOwned, write_apply, hm]
    · simp [setOwner, setOwned, write_apply, hm, ho]

/-! ## Steps -/

variable {t : Ties} {root : NodeKey}

/-- A new node that owns the given nodes. -/
def adopt (t : Ties) (n : NodeKey) (ns : List NodeKey) : Ties := fun m =>
  if m = n then some ⟨none, ns⟩
  else if m ∈ ns then (t m).map fun tie => { tie with owner := some n }
  else t m

/-- A detached node `n` is put among those that `o` owns, which are `ns` then. -/
def attach (t : Ties) (n o : NodeKey) (ns : List NodeKey) : Ties :=
  (t.setOwner n (some o)).setOwned o ns

/-- A node `n` is taken away from its owner `o`. -/
def detach (t : Ties) (n o : NodeKey) : Ties :=
  (t.setOwner n none).setOwned o ((t.owned o).filter (· ≠ n))

/-- A node is taken away from its owner, if it has one. -/
def unlink (t : Ties) (n : NodeKey) : Ties :=
  match t.owner n with
  | none => t
  | some o => t.detach n o

open Classical in
/-- The nodes of a class are gone. -/
noncomputable def erase (t : Ties) (gone : NodeKey → Prop) : Ties := fun m =>
  if gone m then none else t m

lemma owner_adopt {n : NodeKey} {ns : List NodeKey} (hns : ∀ m ∈ ns, (t m).isSome)
    (m : NodeKey) :
    (t.adopt n ns).owner m =
      if m = n then none else if m ∈ ns then some n else t.owner m := by
  unfold adopt owner
  by_cases hm : m = n
  · simp [hm]
  · by_cases hmem : m ∈ ns
    · obtain ⟨tie, htie⟩ := Option.isSome_iff_exists.mp (hns m hmem)
      simp [hm, hmem, htie]
    · simp [hm, hmem]

lemma owned_adopt {n : NodeKey} {ns : List NodeKey} (m : NodeKey) :
    (t.adopt n ns).owned m = if m = n then ns else t.owned m := by
  unfold adopt owned
  by_cases hm : m = n
  · simp [hm]
  · by_cases hmem : m ∈ ns
    · cases h : t m <;> simp [hm, hmem, h]
    · simp [hm, hmem]

lemma Consistent.adopt (h : t.Consistent root) {n : NodeKey} {ns : List NodeKey}
    (hn : t n = none) (hnodup : ns.Nodup)
    (hns : ∀ m ∈ ns, (t m).isSome ∧ t.owner m = none ∧ m ≠ root) :
    (t.adopt n ns).Consistent root := by
  have hnot : n ∉ ns := by
    intro hmem
    have := (hns n hmem).1
    simp [hn] at this
  have hroot : root ≠ n := by
    rintro rfl
    have := h.root_isSome
    simp [hn] at this
  have hownedn : t.owned n = [] := by simp [owned, hn]
  have hownern : t.owner n = none := by simp [owner, hn]
  refine ⟨?_, ?_, ?_, ?_⟩
  · intro o m
    rw [owner_adopt (fun m hm => (hns m hm).1), owned_adopt]
    have hiff := h.mem_owned_iff o m
    -- the new node gets the nodes that had no owner, all others keep theirs
    by_cases ho : o = n
    · subst ho
      by_cases hm : m = o
      · simp [hm, hnot]
      · have hnone : t.owner m ≠ some o := by
          rw [Ne, ← h.mem_owned_iff, hownedn]
          simp
        by_cases hmem : m ∈ ns <;> simp [hm, hmem, hnone]
    · by_cases hm : m = n
      · subst hm
        rw [hownern] at hiff
        simp_all
      · by_cases hmem : m ∈ ns
        · rw [(hns m hmem).2.1] at hiff
          simp_all [Ne.symm ho]
        · simp [ho, hm, hmem, hiff]
  · intro o
    rw [owned_adopt]
    split
    · exact hnodup
    · exact h.nodup o
  · have hmem : root ∉ ns := fun hmem => (hns root hmem).2.2 rfl
    simpa [Ties.adopt, hroot, hmem] using h.root_isSome
  · have hmem : root ∉ ns := fun hmem => (hns root hmem).2.2 rfl
    rw [owner_adopt (fun m hm => (hns m hm).1)]
    simp [hroot, hmem, h.owner_root]

lemma owner_attach {n o : NodeKey} (hn : (t n).isSome) (ns : List NodeKey) (m : NodeKey) :
    (t.attach n o ns).owner m = if m = n then some o else t.owner m := by
  rw [attach, owner_setOwned, owner_setOwner hn]

lemma owned_attach {n o : NodeKey} (ho : (t o).isSome) (ns : List NodeKey) (m : NodeKey) :
    (t.attach n o ns).owned m = if m = o then ns else t.owned m := by
  rw [attach, owned_setOwned (by simpa using ho), owned_setOwner]

lemma Consistent.attach (h : t.Consistent root) {n o : NodeKey} {ns : List NodeKey}
    (hn : (t n).isSome) (hfree : t.owner n = none) (hroot : n ≠ root) (ho : (t o).isSome)
    (hperm : ns.Perm (n :: t.owned o)) : (t.attach n o ns).Consistent root := by
  have hns : ∀ m, m ∈ ns ↔ m = n ∨ m ∈ t.owned o := fun m => by
    rw [hperm.mem_iff, List.mem_cons]
  have hnot : n ∉ t.owned o := by
    rw [h.mem_owned_iff, hfree]
    simp
  refine ⟨?_, ?_, ?_, ?_⟩
  · intro p m
    rw [owner_attach hn, owned_attach ho]
    have hiff := h.mem_owned_iff p m
    -- only `o` lists another node, and only `n` has another owner
    by_cases hp : p = o
    · subst hp
      by_cases hm : m = n
      · simp [hm, hns]
      · simp [hm, hns, hiff]
    · by_cases hm : m = n
      · subst hm
        rw [hfree] at hiff
        simp [hp, Ne.symm hp, hiff]
      · simp [hp, hm, hiff]
  · intro p
    rw [owned_attach ho]
    split
    · exact hperm.nodup_iff.mpr (List.nodup_cons.mpr ⟨hnot, h.nodup o⟩)
    · exact h.nodup p
  · simpa [Ties.attach] using h.root_isSome
  · rw [owner_attach hn, if_neg hroot.symm, h.owner_root]

/-- A new node is put among those that an owner has. -/
lemma owner_attach_adopt {n o : NodeKey} {ns : List NodeKey} (m : NodeKey) :
    ((t.adopt n []).attach n o ns).owner m = if m = n then some o else t.owner m := by
  rw [owner_attach (by simp [adopt]), owner_adopt (by simp)]
  split <;> simp

lemma Consistent.attach_adopt (h : t.Consistent root) {n o : NodeKey} {ns : List NodeKey}
    (hn : t n = none) (ho : (t o).isSome) (hperm : ns.Perm (n :: t.owned o)) :
    ((t.adopt n []).attach n o ns).Consistent root := by
  have hon : o ≠ n := by
    rintro rfl
    simp [hn] at ho
  have hroot : n ≠ root := by
    rintro rfl
    have := h.root_isSome
    simp [hn] at this
  refine (h.adopt hn List.nodup_nil (by simp)).attach (by simp [Ties.adopt]) ?_ hroot ?_ ?_
  · rw [owner_adopt (by simp), if_pos rfl]
  · simpa [Ties.adopt, hon] using ho
  · rwa [owned_adopt, if_neg hon]

lemma owner_detach {n o : NodeKey} (hn : (t n).isSome) (m : NodeKey) :
    (t.detach n o).owner m = if m = n then none else t.owner m := by
  rw [detach, owner_setOwned, owner_setOwner hn]

lemma owned_detach {n o : NodeKey} (ho : (t o).isSome) (m : NodeKey) :
    (t.detach n o).owned m = if m = o then (t.owned o).filter (· ≠ n) else t.owned m := by
  rw [detach, owned_setOwned (by simpa using ho), owned_setOwner]

lemma Consistent.detach (h : t.Consistent root) {n o : NodeKey} (hown : t.owner n = some o) :
    (t.detach n o).Consistent root := by
  have hn := isSome_of_owner hown
  have ho := isSome_of_mem_owned ((h.mem_owned_iff o n).mpr hown)
  refine ⟨?_, ?_, ?_, ?_⟩
  · intro p m
    rw [owner_detach hn, owned_detach ho]
    have hiff := h.mem_owned_iff p m
    -- only `o` loses a node, and only `n` its owner
    by_cases hp : p = o
    · subst hp
      by_cases hm : m = n
      · simp [hm]
      · simp [hm, hiff]
    · by_cases hm : m = n
      · subst hm
        rw [hown] at hiff
        simp_all [Ne.symm hp]
      · simp [hp, hm, hiff]
  · intro p
    rw [owned_detach ho]
    split
    · exact (h.nodup o).filter _
    · exact h.nodup p
  · simpa [Ties.detach] using h.root_isSome
  · have hroot : root ≠ n := by
      rintro rfl
      simp [h.owner_root] at hown
    rw [owner_detach hn, if_neg hroot, h.owner_root]

lemma Consistent.unlink (h : t.Consistent root) (n : NodeKey) :
    (t.unlink n).Consistent root := by
  unfold Ties.unlink
  cases hown : t.owner n with
  | none => exact h
  | some o => exact h.detach hown

lemma owner_unlink (n m : NodeKey) :
    (t.unlink n).owner m = if m = n then none else t.owner m := by
  unfold unlink
  cases hown : t.owner n with
  | none =>
    by_cases hm : m = n
    · simp [hm, hown]
    · simp [hm]
  | some o => exact owner_detach (isSome_of_owner hown) m

@[simp] lemma isSome_unlink (n m : NodeKey) : (t.unlink n m).isSome = (t m).isSome := by
  unfold unlink
  cases t.owner n <;> simp [detach]

/-! ## Removing -/

/-- `n` is `m` or lies below it. -/
def Below (t : Ties) (m n : NodeKey) : Prop :=
  Relation.ReflTransGen (fun a b => b ∈ t.owned a) m n

/-- A node is gone, and all that is below it. -/
noncomputable def withoutBelow (t : Ties) (n : NodeKey) : Ties := t.erase (t.Below n)

variable {g : NodeKey → Prop}

open Classical in
lemma owner_erase (m : NodeKey) :
    (t.erase g).owner m = if g m then none else t.owner m := by
  by_cases h : g m <;> simp [erase, owner, h]

open Classical in
lemma owned_erase (m : NodeKey) :
    (t.erase g).owned m = if g m then [] else t.owned m := by
  by_cases h : g m <;> simp [erase, owned, h]

lemma erase_apply_of_gone {m : NodeKey} (h : g m) : t.erase g m = none := by
  simp [erase, h]

lemma erase_apply_of_not_gone {m : NodeKey} (h : ¬ g m) : t.erase g m = t m := by
  simp [erase, h]

/-- Nodes can be removed if with every node all that it owns goes, and its owner goes as well,
if it has one. -/
lemma Consistent.erase (h : t.Consistent root) (hroot : ¬ g root)
    (hdown : ∀ o n, g o → t.owner n = some o → g n)
    (hup : ∀ o n, g n → t.owner n = some o → g o) :
    (t.erase g).Consistent root := by
  refine ⟨?_, ?_, ?_, ?_⟩
  · intro o n
    rw [owner_erase, owned_erase]
    have hiff := h.mem_owned_iff o n
    by_cases ho : g o
    · by_cases hn : g n
      · simp [ho, hn]
      · have : t.owner n ≠ some o := fun hown => hn (hdown o n ho hown)
        simp [ho, hn, this]
    · by_cases hn : g n
      · have : t.owner n ≠ some o := fun hown => ho (hup o n hn hown)
        simp [ho, hn, hiff, this]
      · simp [ho, hn, hiff]
  · intro o
    rw [owned_erase]
    split
    · exact List.nodup_nil
    · exact h.nodup o
  · simpa [Ties.erase, hroot] using h.root_isSome
  · rw [owner_erase, if_neg hroot, h.owner_root]

/-- The nodes below a detached node can be removed. -/
lemma Consistent.withoutBelow (h : t.Consistent root) {n : NodeKey} (hn : t.owner n = none)
    (hroot : n ≠ root) : (t.withoutBelow n).Consistent root := by
  refine h.erase ?_ ?_ ?_
  · intro hbelow
    rcases Relation.ReflTransGen.cases_tail hbelow with heq | ⟨m, -, hm⟩
    · exact hroot heq.symm
    · rw [h.mem_owned_iff, h.owner_root] at hm
      cases hm
  · intro o m ho hown
    exact ho.tail ((h.mem_owned_iff o m).mpr hown)
  · intro o m hm hown
    rcases Relation.ReflTransGen.cases_tail hm with rfl | ⟨p, hp, hmem⟩
    · rw [hn] at hown
      cases hown
    · rw [h.mem_owned_iff, hown] at hmem
      cases hmem
      exact hp

/-- What is below `n` and below the nodes of a list: `n` itself, and what is below the nodes that
`n` owns and below those of the list once `n` is gone. -/
lemma below_cons_iff {n m : NodeKey} {ns : List NodeKey} :
    (∃ r ∈ n :: ns, t.Below r m) ↔
      m = n ∨ ∃ r ∈ t.owned n ++ ns, (t.write n none).Below r m := by
  constructor
  · rintro ⟨r, hr, hbelow⟩
    induction hbelow with
    | refl =>
      rcases List.mem_cons.mp hr with rfl | hr
      · exact .inl rfl
      · exact .inr ⟨r, by simp [hr], .refl⟩
    | @tail a b _ hab ih =>
      -- a way down that meets `n` may as well begin at a node that `n` owns
      by_cases ha : a = n
      · subst ha
        exact .inr ⟨b, by simp [hab], .refl⟩
      · rcases ih with h | ⟨c, hc, hca⟩
        · exact absurd h ha
        · exact .inr ⟨c, hc, hca.tail (by rwa [owned_write, if_neg ha])⟩
  · have hmono : ∀ r, (t.write n none).Below r m → t.Below r m := by
      intro r hr
      refine Relation.ReflTransGen.mono (fun a b hab => ?_) _ _ hr
      rw [owned_write] at hab
      split at hab
      · simp at hab
      · exact hab
    rintro (rfl | ⟨r, hr, hbelow⟩)
    · exact ⟨m, by simp, .refl⟩
    · rcases List.mem_append.mp hr with hr | hr
      · exact ⟨n, by simp, Relation.ReflTransGen.head hr (hmono r hbelow)⟩
      · exact ⟨r, by simp [hr], hmono r hbelow⟩

/-- Removing a node and then what is below the nodes it owned. -/
lemma erase_write_none (n : NodeKey) (ns : List NodeKey) :
    ((t.write n none).erase fun m => ∃ r ∈ t.owned n ++ ns, (t.write n none).Below r m) =
      t.erase fun m => ∃ r ∈ n :: ns, t.Below r m := by
  funext m
  by_cases h : ∃ r ∈ n :: ns, t.Below r m
  · rw [erase_apply_of_gone (g := fun m => ∃ r ∈ n :: ns, t.Below r m) h]
    rcases below_cons_iff.mp h with rfl | h'
    · by_cases hgone : ∃ r ∈ t.owned m ++ ns, (t.write m none).Below r m
      · exact erase_apply_of_gone hgone
      · rw [erase_apply_of_not_gone hgone, write_apply, if_pos rfl]
    · exact erase_apply_of_gone h'
  · rw [erase_apply_of_not_gone (g := fun m => ∃ r ∈ n :: ns, t.Below r m) h]
    rw [below_cons_iff, not_or] at h
    rw [erase_apply_of_not_gone h.2, write_apply, if_neg h.1]

/-- Nothing but the key itself is below a key without a node. -/
lemma erase_cons_of_eq_none {n : NodeKey} (hn : t n = none) (ns : List NodeKey) :
    (t.erase fun m => ∃ r ∈ ns, t.Below r m) = t.erase fun m => ∃ r ∈ n :: ns, t.Below r m := by
  have hownedn : t.owned n = [] := by simp [owned, hn]
  have hbelow : ∀ m, t.Below n m → m = n := by
    intro m hm
    rcases Relation.ReflTransGen.cases_head hm with h | ⟨c, hc, -⟩
    · exact h.symm
    · simp [hownedn] at hc
  funext m
  by_cases hm : m = n
  · subst hm
    simp [erase, hn]
  · have hiff : (∃ r ∈ n :: ns, t.Below r m) ↔ ∃ r ∈ ns, t.Below r m := by
      simp only [List.mem_cons, exists_eq_or_imp, or_iff_right_iff_imp]
      exact fun h => absurd (hbelow m h) hm
    by_cases h : ∃ r ∈ ns, t.Below r m
    · rw [erase_apply_of_gone (g := fun m => ∃ r ∈ n :: ns, t.Below r m) (hiff.mpr h)]
      exact erase_apply_of_gone h
    · rw [erase_apply_of_not_gone (g := fun m => ∃ r ∈ n :: ns, t.Below r m)
        (fun h' => h (hiff.mp h'))]
      exact erase_apply_of_not_gone h

lemma erase_singleton (n : NodeKey) :
    (t.erase fun m => ∃ r ∈ [n], t.Below r m) = t.withoutBelow n := by
  simp [withoutBelow]

/-- The owner of a node does not matter if the node is removed. -/
lemma withoutBelow_setOwner (n : NodeKey) (owner : Option NodeKey) :
    (t.setOwner n owner).withoutBelow n = t.withoutBelow n := by
  have hbelow : (t.setOwner n owner).Below n = t.Below n := by
    unfold Below
    simp only [owned_setOwner]
  unfold withoutBelow
  rw [hbelow]
  funext m
  by_cases h : t.Below n m
  · rw [erase_apply_of_gone h, erase_apply_of_gone h]
  · have hm : m ≠ n := by
      rintro rfl
      exact h .refl
    rw [erase_apply_of_not_gone h, erase_apply_of_not_gone h]
    simp [setOwner, write_apply, hm]

end Ties

end Formulary.Store
