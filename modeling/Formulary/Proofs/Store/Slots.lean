/-
# Looking up what was stored

A store of slots behaves like a function from keys to nodes: inserting, changing and removing a
node each change the value of that function at a single key.  For insertion this rests on an
invariant of the list of free slots: it names every free slot at most once and no other.
-/
import Mathlib.Logic.Function.Basic
import Mathlib.Tactic.Common
import Formulary.Store.Slots

namespace Formulary.Store.Slots

variable {kind : NodeKind} {α : Type}

attribute [ext] Key

/-- The list of free slots is in order: it has no repetitions, and the slots in it are free. -/
structure Valid (s : Slots kind α) : Prop where
  nodup : s.free.Nodup
  isFree : ∀ i ∈ s.free, ∃ version, s.slots[i]? = some ⟨version, none⟩

lemma get?_eq_some_iff {s : Slots kind α} {key : Key kind} {node : α} :
    s.get? key = some node ↔ s.slots[key.slot]? = some ⟨key.version, some node⟩ := by
  unfold get?
  cases h : s.slots[key.slot]? with
  | none => simp
  | some slot =>
    obtain ⟨version, node?⟩ := slot
    by_cases hv : version = key.version
    · simp [hv]
    · simp [hv]

lemma get?_nextKey (s : Slots kind α) : s.get? s.nextKey = none := by
  rw [Option.eq_none_iff_forall_ne_some]
  intro node hnode
  rw [get?_eq_some_iff] at hnode
  unfold nextKey at hnode
  split at hnode
  · rename_i i free _
    cases h : s.slots[i]? with
    | none => simp [h] at hnode
    | some slot =>
      obtain ⟨version, _⟩ := slot
      simp [h] at hnode
  · simp at hnode

/-- Looking up a node after one slot was overwritten. -/
lemma get?_set {s : Slots kind α} {i : Nat} (hi : i < s.slots.length) (slot : Slot α)
    (free : List Nat) (key : Key kind) :
    (⟨s.slots.set i slot, free⟩ : Slots kind α).get? key =
      if key.slot = i then (if slot.version = key.version then slot.node? else none)
      else s.get? key := by
  by_cases h : key.slot = i
  · subst h
    simp [get?, hi]
  · simp [get?, h, List.getElem?_set_ne (Ne.symm h)]

/-- Looking up a node after the slot of a node was overwritten: no other version of that slot
had a node before, and none has one now. -/
lemma get?_set_of_get? {s : Slots kind α} {key : Key kind} {node : α}
    (hkey : s.get? key = some node) (slot : Slot α) (free : List Nat)
    (hslot : slot.version = key.version ∨ slot.node? = none) :
    (⟨s.slots.set key.slot slot, free⟩ : Slots kind α).get? =
      Function.update s.get? key slot.node? := by
  have hold := get?_eq_some_iff.mp hkey
  have hlt := (List.getElem?_eq_some_iff.mp hold).1
  funext k
  rw [get?_set hlt, Function.update_apply]
  by_cases hk : k = key
  · subst hk
    rcases hslot with h | h
    · simp [h]
    · simp [h]
  · by_cases hi : k.slot = key.slot
    · have hv : key.version ≠ k.version := fun hv => hk (Key.ext hi hv.symm)
      have hnone : s.get? k = none := by
        rw [← hi] at hold
        simp only [get?, hold, if_neg hv]
      rcases hslot with h | h
      · simp [hi, hk, hnone, h, hv]
      · simp [hi, hk, hnone, h]
    · simp [hi, hk]

lemma valid_empty : (empty : Slots kind α).Valid :=
  ⟨List.nodup_nil, by simp [empty]⟩

@[simp] lemma get?_empty (key : Key kind) : (empty : Slots kind α).get? key = none := by
  unfold get? empty
  obtain ⟨slot, version⟩ := key
  cases slot <;> simp

/-! ## Inserting -/

lemma get?_insert {s : Slots kind α} (hs : s.Valid) (node : α) :
    (s.insert node).get? = Function.update s.get? s.nextKey (some node) := by
  funext key
  cases hfree : s.free with
  | nil =>
    have hnext : s.nextKey = ⟨s.slots.length, 1⟩ := by simp [nextKey, hfree]
    have hinsert : s.insert node = ⟨s.slots ++ [⟨1, some node⟩], []⟩ := by
      simp [insert, hfree, hnext]
    obtain ⟨i, v⟩ := key
    rw [hnext, hinsert, Function.update_apply]
    rcases Nat.lt_trichotomy i s.slots.length with hi | rfl | hi
    · have hne : (⟨i, v⟩ : Key kind) ≠ ⟨s.slots.length, 1⟩ := by
        intro h
        injection h with h
        omega
      rw [if_neg hne]
      simp [get?, List.getElem?_append_left hi]
    · by_cases hv : v = 1
      · subst hv
        simp [get?]
      · simp [get?, hv, Ne.symm hv]
    · have hne : (⟨i, v⟩ : Key kind) ≠ ⟨s.slots.length, 1⟩ := by
        intro h
        injection h with h
        omega
      have hlen : (s.slots ++ [(⟨1, some node⟩ : Slot α)]).length ≤ i := by simp; omega
      rw [if_neg hne]
      simp only [get?, List.getElem?_eq_none hlen, List.getElem?_eq_none (Nat.le_of_lt hi)]
  | cons i free =>
    obtain ⟨version, hi⟩ := hs.isFree i (by simp [hfree])
    have hlt : i < s.slots.length := (List.getElem?_eq_some_iff.mp hi).1
    have hnext : s.nextKey = ⟨i, version + 1⟩ := by simp [nextKey, hfree, hi]
    have hinsert : s.insert node = ⟨s.slots.set i ⟨version + 1, some node⟩, free⟩ := by
      simp [insert, hfree, hnext]
    rw [hnext, hinsert, Function.update_apply, get?_set hlt]
    obtain ⟨j, v⟩ := key
    by_cases hj : j = i
    · subst hj
      by_cases hv : v = version + 1
      · simp [hv]
      · -- the slot was free before, so no version of it had a node
        have hnone : s.get? ⟨j, v⟩ = none := by simp [get?, hi]
        simp [hv, Ne.symm hv, hnone]
    · simp [hj]

/-- A node stays when another one is stored. -/
lemma get?_insert_of_some {s : Slots kind α} (hs : s.Valid) {key : Key kind} {n : α}
    (h : s.get? key = some n) (node : α) : (s.insert node).get? key = some n := by
  have hne : key ≠ s.nextKey := by
    rintro rfl
    rw [get?_nextKey] at h
    cases h
  rw [get?_insert hs, Function.update_of_ne hne, h]

lemma Valid.insert {s : Slots kind α} (hs : s.Valid) (node : α) : (s.insert node).Valid := by
  cases hfree : s.free with
  | nil =>
    refine ⟨by simp [Slots.insert, hfree], ?_⟩
    intro i hi
    simp [Slots.insert, hfree] at hi
  | cons i free =>
    have hnodup : (i :: free).Nodup := hfree ▸ hs.nodup
    have hinsert : s.insert node = ⟨s.slots.set i ⟨s.nextKey.version, some node⟩, free⟩ := by
      simp [Slots.insert, hfree]
    rw [hinsert]
    refine ⟨hnodup.of_cons, ?_⟩
    intro j hj
    have hne : i ≠ j := by
      rintro rfl
      exact (List.nodup_cons.mp hnodup).1 hj
    rw [List.getElem?_set_ne hne]
    exact hs.isFree j (by simp [hfree, hj])

/-! ## Changing -/

lemma get?_modify (s : Slots kind α) (key : Key kind) (f : α → α) :
    (s.modify key f).get? = Function.update s.get? key ((s.get? key).map f) := by
  cases hkey : s.get? key with
  | none => simp [modify, hkey]
  | some node =>
    simp only [modify, hkey]
    exact get?_set_of_get? hkey ⟨key.version, some (f node)⟩ s.free (.inl rfl)

lemma get?_modify_of_ne (s : Slots kind α) {key k : Key kind} (h : k ≠ key) (f : α → α) :
    (s.modify key f).get? k = s.get? k := by
  rw [get?_modify, Function.update_of_ne h]

lemma get?_modify_self {s : Slots kind α} {key : Key kind} {n : α} (h : s.get? key = some n)
    (f : α → α) : (s.modify key f).get? key = some (f n) := by
  rw [get?_modify, Function.update_self, h, Option.map_some]

lemma Valid.modify {s : Slots kind α} (hs : s.Valid) (key : Key kind) (f : α → α) :
    (s.modify key f).Valid := by
  cases hkey : s.get? key with
  | none => simpa [Slots.modify, hkey] using hs
  | some node =>
    have hslot := get?_eq_some_iff.mp hkey
    simp only [Slots.modify, hkey]
    refine ⟨hs.nodup, ?_⟩
    intro i hi
    obtain ⟨version, hfree⟩ := hs.isFree i hi
    have hne : key.slot ≠ i := by
      rintro rfl
      simp [hfree] at hslot
    exact ⟨version, by rw [List.getElem?_set_ne hne]; exact hfree⟩

/-! ## Removing -/

lemma get?_remove (s : Slots kind α) (key : Key kind) :
    (s.remove key).get? = Function.update s.get? key none := by
  cases hkey : s.get? key with
  | none => simp [remove, hkey]
  | some node =>
    simp only [remove, hkey]
    exact get?_set_of_get? hkey ⟨key.version + 1, none⟩ (key.slot :: s.free) (.inr rfl)

lemma Valid.remove {s : Slots kind α} (hs : s.Valid) (key : Key kind) : (s.remove key).Valid := by
  cases hkey : s.get? key with
  | none => simpa [Slots.remove, hkey] using hs
  | some node =>
    have hslot := get?_eq_some_iff.mp hkey
    have hlt := (List.getElem?_eq_some_iff.mp hslot).1
    -- a slot that holds a node is not among the free ones
    have hnot : key.slot ∉ s.free := by
      intro hmem
      obtain ⟨version, hfree⟩ := hs.isFree _ hmem
      simp [hfree] at hslot
    simp only [Slots.remove, hkey]
    refine ⟨List.nodup_cons.mpr ⟨hnot, hs.nodup⟩, ?_⟩
    intro i hi
    rcases List.mem_cons.mp hi with rfl | hi
    · exact ⟨key.version + 1, by simp [hlt]⟩
    · obtain ⟨version, hfree⟩ := hs.isFree i hi
      have hne : key.slot ≠ i := by
        rintro rfl
        exact hnot hi
      exact ⟨version, by rw [List.getElem?_set_ne hne]; exact hfree⟩

/-! ## All nodes -/

lemma mem_entries_iff {s : Slots kind α} {key : Key kind} {node : α} :
    (key, node) ∈ s.entries ↔ s.get? key = some node := by
  rw [get?_eq_some_iff]
  simp only [entries, List.mem_filterMap, Prod.exists, List.mem_zipIdx_iff_getElem?,
    Option.map_eq_some_iff, Prod.mk.injEq]
  constructor
  · rintro ⟨slot, i, hslot, node', hnode, rfl, rfl⟩
    rw [hslot]
    obtain ⟨version, node?⟩ := slot
    simp_all
  · intro h
    exact ⟨⟨key.version, some node⟩, key.slot, h, node, rfl, rfl, rfl⟩

end Formulary.Store.Slots
