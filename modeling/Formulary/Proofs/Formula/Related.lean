/-
# Related layers

Two first layers are related if they are of one kind, agree in what is written in them, and what
is below them is related one by one.  Changing all that is below a layer, where that may fail,
gives a layer related to it, and what is related to a changed layer can be carried over piece by
piece.
-/
import Mathlib.Data.List.Forall2
import Formulary.Proofs.Data.Results
import Formulary.Proofs.Data.Lists
import Formulary.Proofs.Formula.Bare
import Formulary.Store.View

namespace Formulary

variable {ε δ σ : Type} {χ χ' χ'' β β' β'' : Type} {R : χ → χ' → Prop} {T : β → β' → Prop}

/-- The formulas of two cases are related. -/
inductive Case.Related (R : χ → χ' → Prop) : Case χ → Case χ' → Prop
  | when {c v : χ} {c' v' : χ'} (hc : R c c') (hv : R v v') :
      Case.Related R (.when c v) (.when c' v')
  | otherwise {v : χ} {v' : χ'} (hv : R v v') : Case.Related R (.otherwise v) (.otherwise v')

/-- What is below two first layers is related: formulas by `R`, sets by `T`. -/
inductive Shape.Related (R : χ → χ' → Prop) (T : β → β' → Prop) : Shape χ β → Shape χ' β' → Prop
  | null : Shape.Related R T .null .null
  | bool (value : Bool) : Shape.Related R T (.bool value) (.bool value)
  | number (value : Binary64) : Shape.Related R T (.number value) (.number value)
  | text (value : String) : Shape.Related R T (.text value) (.text value)
  | name (n : String) : Shape.Related R T (.name n) (.name n)
  | matrix (value : Matrix) : Shape.Related R T (.matrix value) (.matrix value)
  | call {callee : χ} {callee' : χ'} {arguments : List χ} {arguments' : List χ'}
      (hcallee : R callee callee') (harguments : List.Forall₂ R arguments arguments') :
      Shape.Related R T (.call callee arguments) (.call callee' arguments')
  | list {items : List χ} {items' : List χ'} (hitems : List.Forall₂ R items items') :
      Shape.Related R T (.list items) (.list items')
  | closure (parameters : List String) {body : β} {body' : β'} (hbody : T body body') :
      Shape.Related R T (.closure parameters body) (.closure parameters body')
  | switch {cases : List (Case χ)} {cases' : List (Case χ')}
      (hcases : List.Forall₂ (Case.Related R) cases cases') :
      Shape.Related R T (.switch cases) (.switch cases')

/-! ## Carrying over -/

section Carry

variable {R' : χ → χ'' → Prop} {S : χ' → χ'' → Prop} {T' : β → β'' → Prop} {U : β' → β'' → Prop}

lemma Case.Related.exists {c : Case χ} {c' : Case χ'} (h : Case.Related R c c')
    (hR : ∀ a b, R a b → ∃ x, R' a x ∧ S b x) :
    ∃ c'', Case.Related R' c c'' ∧ Case.Related S c' c'' := by
  cases h with
  | when hc hv =>
    obtain ⟨x, hx, hx'⟩ := hR _ _ hc
    obtain ⟨y, hy, hy'⟩ := hR _ _ hv
    exact ⟨.when x y, .when hx hy, .when hx' hy'⟩
  | otherwise hv =>
    obtain ⟨y, hy, hy'⟩ := hR _ _ hv
    exact ⟨.otherwise y, .otherwise hy, .otherwise hy'⟩

/-- If all that is related is carried over to something else, so is the layer. -/
lemma Shape.Related.exists {s : Shape χ β} {s' : Shape χ' β'} (h : Shape.Related R T s s')
    (hR : ∀ a b, R a b → ∃ x, R' a x ∧ S b x) (hT : ∀ a b, T a b → ∃ x, T' a x ∧ U b x) :
    ∃ s'', Shape.Related R' T' s s'' ∧ Shape.Related S U s' s'' := by
  cases h with
  | null => exact ⟨.null, .null, .null⟩
  | bool value => exact ⟨.bool value, .bool value, .bool value⟩
  | number value => exact ⟨.number value, .number value, .number value⟩
  | text value => exact ⟨.text value, .text value, .text value⟩
  | name n => exact ⟨.name n, .name n, .name n⟩
  | matrix value => exact ⟨.matrix value, .matrix value, .matrix value⟩
  | call hcallee harguments =>
    obtain ⟨x, hx, hx'⟩ := hR _ _ hcallee
    obtain ⟨xs, hxs, hxs'⟩ := exists_forall₂ harguments hR
    exact ⟨.call x xs, .call hx hxs, .call hx' hxs'⟩
  | list hitems =>
    obtain ⟨xs, hxs, hxs'⟩ := exists_forall₂ hitems hR
    exact ⟨.list xs, .list hxs, .list hxs'⟩
  | closure parameters hbody =>
    obtain ⟨x, hx, hx'⟩ := hT _ _ hbody
    exact ⟨.closure parameters x, .closure parameters hx, .closure parameters hx'⟩
  | switch hcases =>
    obtain ⟨xs, hxs, hxs'⟩ := exists_forall₂ hcases fun a b hab => hab.exists hR
    exact ⟨.switch xs, .switch hxs, .switch hxs'⟩

end Carry

lemma Case.Related.mono {R' : χ → χ' → Prop} {c : Case χ} {c' : Case χ'} (h : Case.Related R c c')
    (hR : ∀ a b, R a b → R' a b) : Case.Related R' c c' := by
  cases h with
  | when hc hv => exact .when (hR _ _ hc) (hR _ _ hv)
  | otherwise hv => exact .otherwise (hR _ _ hv)

lemma Shape.Related.mono {R' : χ → χ' → Prop} {T' : β → β' → Prop} {s : Shape χ β}
    {s' : Shape χ' β'} (h : Shape.Related R T s s') (hR : ∀ a b, R a b → R' a b)
    (hT : ∀ a b, T a b → T' a b) : Shape.Related R' T' s s' := by
  cases h with
  | null => exact .null
  | bool value => exact .bool value
  | number value => exact .number value
  | text value => exact .text value
  | name n => exact .name n
  | matrix value => exact .matrix value
  | call hcallee harguments => exact .call (hR _ _ hcallee) (harguments.imp hR)
  | list hitems => exact .list (hitems.imp hR)
  | closure parameters hbody => exact .closure parameters (hT _ _ hbody)
  | switch hcases => exact .switch (hcases.imp fun a b hab => hab.mono hR)

/-- Cases that are never written can be left out on both sides. -/
lemma Shape.Related.written {s : Shape χ β} {s' : Shape χ' β'} (h : Shape.Related R T s s') :
    Shape.Related R T s.written s'.written := by
  cases h with
  | switch hcases =>
    refine .switch ?_
    induction hcases with
    | nil => exact .nil
    | cons hc _ ih =>
      cases hc with
      | when hc hv => exact .cons (.when hc hv) ih
      | otherwise hv => exact .cons (.otherwise hv) .nil
  | call hcallee harguments => exact .call hcallee harguments
  | list hitems => exact .list hitems
  | closure parameters hbody => exact .closure parameters hbody
  | null => exact .null
  | bool value => exact .bool value
  | number value => exact .number value
  | text value => exact .text value
  | name n => exact .name n
  | matrix value => exact .matrix value

/-! ## Changing a layer -/

lemma Case.mapM_eq_ok_iff {f : χ → Except ε χ'} {c : Case χ} {c' : Case χ'} :
    Case.mapM f c = .ok c' ↔ Case.Related (fun a b => f a = .ok b) c c' := by
  constructor
  · intro h
    cases c with
    | when condition value =>
      obtain ⟨x, hx, h⟩ := bind_eq_ok_iff.mp h
      obtain ⟨y, hy, h⟩ := bind_eq_ok_iff.mp h
      cases h
      exact .when hx hy
    | otherwise value =>
      obtain ⟨y, hy, h⟩ := bind_eq_ok_iff.mp h
      cases h
      exact .otherwise hy
  · intro h
    cases h with
    | when hc hv =>
      rw [Case.mapM, hc, hv]
      rfl
    | otherwise hv =>
      rw [Case.mapM, hv]
      rfl

/-- A layer is changed to one that what is below it is related to by the change. -/
theorem Shape.mapM_eq_ok_iff {f : χ → Except ε χ'} {g : β → Except ε β'} {s : Shape χ β}
    {s' : Shape χ' β'} : s.mapM f g = .ok s' ↔
      Shape.Related (fun a b => f a = .ok b) (fun a b => g a = .ok b) s s' := by
  constructor
  · intro h
    cases s with
    | call callee arguments =>
      obtain ⟨x, hx, h⟩ := bind_eq_ok_iff.mp h
      obtain ⟨xs, hxs, h⟩ := bind_eq_ok_iff.mp h
      cases h
      exact .call hx (Formulary.mapM_eq_ok_iff.mp hxs)
    | list items =>
      obtain ⟨xs, hxs, h⟩ := bind_eq_ok_iff.mp h
      cases h
      exact .list (Formulary.mapM_eq_ok_iff.mp hxs)
    | closure parameters body =>
      obtain ⟨x, hx, h⟩ := bind_eq_ok_iff.mp h
      cases h
      exact .closure parameters hx
    | switch cases =>
      obtain ⟨xs, hxs, h⟩ := bind_eq_ok_iff.mp h
      cases h
      exact .switch ((Formulary.mapM_eq_ok_iff.mp hxs).imp fun _ _ => Case.mapM_eq_ok_iff.mp)
    | _ =>
      cases h
      constructor
  · intro h
    cases h with
    | call hcallee harguments =>
      rw [Shape.mapM, hcallee, Formulary.mapM_eq_ok_iff.mpr harguments]
      rfl
    | list hitems =>
      rw [Shape.mapM, Formulary.mapM_eq_ok_iff.mpr hitems]
      rfl
    | closure parameters hbody =>
      rw [Shape.mapM, hbody]
      rfl
    | switch hcases =>
      rw [Shape.mapM, Formulary.mapM_eq_ok_iff.mpr (hcases.imp fun _ _ => Case.mapM_eq_ok_iff.mpr)]
      rfl
    | _ => rfl

/-! ## Maps -/

lemma Case.related_map {f : Formula ε δ σ → χ'} {g : Formula ε δ σ → χ''} {c : Case (Formula ε δ σ)}
    {R : χ' → χ'' → Prop} (h : ∀ x ∈ c.parts, R (f x) (g x)) :
    Case.Related R (c.map f) (c.map g) := by
  cases c with
  | when condition value =>
    exact .when (h condition (by simp [Case.parts])) (h value (by simp [Case.parts]))
  | otherwise value => exact .otherwise (h value (by simp [Case.parts]))

/-- Two ways to change the formulas and the set below a layer. -/
lemma Shape.related_map {f : Formula ε δ σ → χ'} {g : Formula ε δ σ → χ''}
    {f' : DefinitionSet ε δ σ → β'} {g' : DefinitionSet ε δ σ → β''} {R : χ' → χ'' → Prop}
    {T : β' → β'' → Prop} {s : Shape (Formula ε δ σ) (DefinitionSet ε δ σ)}
    (hR : ∀ x ∈ s.children, R (f x) (g x))
    (hT : ∀ ps body, s = .closure ps body → T (f' body) (g' body)) :
    Shape.Related R T (s.map f f') (s.map g g') := by
  cases s with
  | call callee arguments =>
    refine .call (hR callee List.mem_cons_self) ?_
    rw [List.forall₂_map_left_iff, List.forall₂_map_right_iff, List.forall₂_same]
    exact fun a ha => hR a (List.mem_cons_of_mem _ ha)
  | list items =>
    refine .list ?_
    rw [List.forall₂_map_left_iff, List.forall₂_map_right_iff, List.forall₂_same]
    exact hR
  | closure parameters body => exact .closure parameters (hT parameters body rfl)
  | switch cases =>
    refine .switch ?_
    rw [List.forall₂_map_left_iff, List.forall₂_map_right_iff, List.forall₂_same]
    exact fun c hc => Case.related_map fun x hx => hR x (List.mem_flatMap.mpr ⟨c, hc, hx⟩)
  | _ => constructor

end Formulary
