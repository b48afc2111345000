/-
# Lists

Facts on lists and on the texts that they spell, of any items: what stands at the front of a list,
two lists that are related place by place, and a list without one of its items.
-/
import Mathlib.Data.List.Forall2
import Mathlib.Data.List.Nodup

namespace Formulary

variable {α α' β β' γ : Type}

lemma forall_mem_pair {P : α → Prop} {a b : α} (ha : P a) (hb : P b) : ∀ c ∈ [a, b], P c :=
  List.forall_mem_cons.mpr ⟨ha, List.forall_mem_singleton.mpr hb⟩

/-- A text is spelled by its characters. -/
lemma ofList_eq_iff {cs : List Char} {s : String} : String.ofList cs = s ↔ cs = s.toList := by
  rw [← String.toList_inj, String.toList_ofList]

/-! ## The front of a list -/

section front

variable {a : α} {as bs : List α} {q : α → Bool}

lemma not_prefix_of_head (h : bs.head? ≠ some a) : ¬(a :: as) <+: bs := by
  rintro ⟨cs, rfl⟩
  exact h rfl

lemma head?_of_prefix (h : as <+: bs) (ha : as.head? = some a) : bs.head? = some a := by
  obtain ⟨cs, rfl⟩ := h
  rw [List.head?_append, ha]
  rfl

/-- What is in a class is none of the items that are not. -/
lemma not_mem_of_class (h : q a = true) (has : ∀ b ∈ as, q b = false) : a ∉ as := by
  intro ha
  rw [has a ha] at h
  cases h

/-- What a run leaves does not begin in its class. -/
lemma not_head_dropWhile (q : α → Bool) (as : List α) :
    ∀ b ∈ (as.dropWhile q).head?, q b = false := by
  intro b hb
  have hhead := List.head?_dropWhile_not q as
  rw [Option.mem_def.mp hb] at hhead
  simpa using hhead

/-- The run at the front of a row, and what it leaves. -/
lemma exists_run (q : α → Bool) (items : List α) :
    ∃ as bs, items = as ++ bs ∧ (∀ a ∈ as, q a = true) ∧ ∀ b ∈ bs.head?, q b = false :=
  ⟨items.takeWhile q, items.dropWhile q, List.takeWhile_append_dropWhile.symm,
    fun _ ha => List.all_eq_true.mp List.all_takeWhile _ ha, not_head_dropWhile q items⟩

lemma takeWhile_run (has : ∀ a ∈ as, q a = true) (hbs : ∀ b ∈ bs.head?, q b = false) :
    (as ++ bs).takeWhile q = as := by
  rw [List.takeWhile_append_of_pos has]
  cases bs with
  | nil => simp
  | cons b bs => simp [hbs b rfl]

lemma dropWhile_run (has : ∀ a ∈ as, q a = true) (hbs : ∀ b ∈ bs.head?, q b = false) :
    (as ++ bs).dropWhile q = bs := by
  rw [List.dropWhile_append_of_pos has]
  cases bs with
  | nil => rfl
  | cons b bs => simp [hbs b rfl]

end front

/-! ## Related lists -/

section related

variable {R : α → β → Prop} {as : List α} {bs : List β}

lemma exists_of_forall₂ (h : List.Forall₂ R as bs) : ∀ b ∈ bs, ∃ a ∈ as, R a b := by
  induction h with
  | nil => exact fun _ hb => absurd hb List.not_mem_nil
  | cons hab _ ih =>
    refine List.forall_mem_cons.mpr ⟨⟨_, List.mem_cons_self, hab⟩, fun b hb => ?_⟩
    obtain ⟨a, ha, hab⟩ := ih b hb
    exact ⟨a, List.mem_cons_of_mem _ ha, hab⟩

/-- What relates the items to others gives a list that both lists are related to. -/
lemma exists_forall₂ {R' : α → γ → Prop} {S : β → γ → Prop} (h : List.Forall₂ R as bs)
    (hR : ∀ a b, R a b → ∃ c, R' a c ∧ S b c) :
    ∃ cs, List.Forall₂ R' as cs ∧ List.Forall₂ S bs cs := by
  induction h with
  | nil => exact ⟨[], .nil, .nil⟩
  | cons hab _ ih =>
    obtain ⟨c, hac, hbc⟩ := hR _ _ hab
    obtain ⟨cs, hacs, hbcs⟩ := ih
    exact ⟨c :: cs, .cons hac hacs, .cons hbc hbcs⟩

lemma forall₂_congr_of_mem {R' : α → β → Prop} (h : ∀ a ∈ as, ∀ b, R a b ↔ R' a b) :
    List.Forall₂ R as bs ↔ List.Forall₂ R' as bs := by
  induction as generalizing bs with
  | nil => rw [List.forall₂_nil_left_iff, List.forall₂_nil_left_iff]
  | cons a as ih =>
    rw [List.forall_mem_cons] at h
    cases bs with
    | nil => simp
    | cons b bs => rw [List.forall₂_cons, List.forall₂_cons, h.1 b, ih h.2]

lemma forall₂_map_iff {R' : α' → β' → Prop} {f : α' → α} {g : β' → β} {as : List α'}
    {bs : List β'} (h : ∀ a ∈ as, ∀ b, R (f a) (g b) ↔ R' a b) :
    List.Forall₂ R (as.map f) (bs.map g) ↔ List.Forall₂ R' as bs := by
  rw [List.forall₂_map_left_iff, List.forall₂_map_right_iff]
  exact forall₂_congr_of_mem h

/-- What is made of two lists without a look at the first one. -/
lemma zipWith_const (f : β → γ) (h : List.Forall₂ R as bs) :
    List.zipWith (fun _ => f) as bs = bs.map f := by
  induction h with
  | nil => rfl
  | cons _ _ ih => exact congrArg (_ :: ·) ih

/-- Lists are related by what two maps make of their members if the maps make the same of them. -/
lemma forall₂_iff_map_eq {f : α → γ} {g : β → γ} :
    List.Forall₂ (fun a b => f a = g b) as bs ↔ as.map f = bs.map g := by
  rw [← List.forall₂_eq_eq_eq, List.forall₂_map_left_iff, List.forall₂_map_right_iff]

end related

/-! ## Parts of a list -/

/-- An item is the first one with a property, or it is left when that one is taken out. -/
lemma mem_iff_find?_or_mem_eraseP {a : α} {as : List α} (q : α → Bool) :
    a ∈ as ↔ as.find? q = some a ∨ a ∈ as.eraseP q := by
  induction as with
  | nil => simp
  | cons b as ih =>
    rw [List.mem_cons, List.find?_cons, List.eraseP_cons]
    cases q b with
    | true => simp only [Option.some.injEq, cond_true, eq_comm]
    | false => simp only [ih, cond_false, List.mem_cons, or_left_comm]

/-- A list without one of its items, which it holds once. -/
lemma exists_filter_ne [DecidableEq α] {a : α} {as : List α} (hnodup : as.Nodup) (h : a ∈ as) :
    ∃ before after, as = before ++ a :: after ∧ as.filter (· ≠ a) = before ++ after := by
  obtain ⟨before, after, -, hsplit, herase⟩ := List.exists_erase_eq h
  refine ⟨before, after, hsplit, ?_⟩
  rw [← herase, hnodup.erase_eq_filter]
  exact List.filter_congr fun b _ => by simp [bne, beq_eq_decide]

/-- Sorting leaves items that may stand in any order in the order that they have. -/
lemma filter_mergeSort {le : α → α → Bool} {p : α → Bool}
    (htrans : ∀ a b c, le a b = true → le b c = true → le a c = true)
    (htotal : ∀ a b, (le a b || le b a) = true)
    (hp : ∀ a b, p a = true → p b = true → le a b = true) (as : List α) :
    (as.mergeSort le).filter p = as.filter p := by
  -- these items are in order as they are, so they stay a sublist
  have hordered : (as.filter p).Pairwise (le · · = true) :=
    List.pairwise_of_forall_mem_list fun a ha b hb =>
      hp a b (List.mem_filter.mp ha).2 (List.mem_filter.mp hb).2
  have hsublist := (List.sublist_mergeSort htrans htotal hordered List.filter_sublist).filter p
  rw [List.filter_filter] at hsublist
  simp only [Bool.and_self] at hsublist
  exact (hsublist.eq_of_length ((List.mergeSort_perm as _).filter _).length_eq.symm).symm

end Formulary
