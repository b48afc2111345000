/-
# Programs of one structure

Two formulas have one structure if they are the same up to their notes, to the sign of zero and
to the order of the definitions of every set in them; definitions of one name stay in their order.
No program is sorted to say so: the definitions of two sets are matched.  Snapshots are alike
exactly if what they were taken of has one structure, as long as all numbers have a value.
-/
import Formulary.Proofs.Data.Lists
import Formulary.Proofs.Formula.Normal
import Formulary.Proofs.Formula.Ranking

namespace Formulary

variable {ε δ σ ε' δ' σ' : Type} {χ χ' β β' : Type}

/-! ## Numbers -/

/-- Two numbers have one value: they are the same, or both are zero of whichever sign. -/
def Binary64.SameValue (x y : Binary64) : Prop := x = y ∨ x.isZero ∧ y.isZero

/-- Numbers are alike if they have one value; what is not a number is not even like itself. -/
lemma Binary64.alike_iff {x y : Binary64} (h : x.isNaN = false) :
    x.alike y = true ↔ x.SameValue y := by
  obtain ⟨negative, rank, hrank⟩ := x
  obtain ⟨negative', rank', hrank'⟩ := y
  simp only [Binary64.alike, h, Binary64.SameValue, Binary64.isZero, Bool.not_false, Bool.true_and,
    Bool.and_eq_true, Bool.or_eq_true, beq_iff_eq, Binary64.mk.injEq]
  constructor
  · rintro ⟨rfl, rfl | hzero⟩
    · exact .inl ⟨rfl, rfl⟩
    · exact .inr ⟨hzero, hzero⟩
  · rintro (⟨rfl, rfl⟩ | ⟨rfl, rfl⟩)
    · exact ⟨rfl, .inl rfl⟩
    · exact ⟨rfl, .inr rfl⟩

/-- The numbers in a first layer. -/
def Shape.numbers : Shape χ β → List Binary64
  | .number value => [value]
  | .matrix value => value.numbers
  | _ => []

/-- All numbers in the first layer of a formula have a value. -/
def Formula.Numeric (f : Formula ε δ σ) : Prop := ∀ x ∈ f.shape.numbers, x.isNaN = false

instance : DecidablePred (Formula.Numeric (ε := ε) (δ := δ) (σ := σ)) := fun f =>
  inferInstanceAs (Decidable (∀ x ∈ f.shape.numbers, x.isNaN = false))

/-! ## One structure -/

/-- Two values that are written out in full have one structure. -/
inductive Matrix.Same : Matrix → Matrix → Prop
  | null : Matrix.Same .null .null
  | bool (value : Bool) : Matrix.Same (.bool value) (.bool value)
  | number {x y : Binary64} (h : x.SameValue y) : Matrix.Same (.number x) (.number y)
  | text (value : String) : Matrix.Same (.text value) (.text value)
  | array {ms ns : List Matrix} (h : List.Forall₂ Matrix.Same ms ns) :
      Matrix.Same (.array ms) (.array ns)

/-- Two first layers are of one kind and agree in what is written in them, numbers by value, and
what is below them is related: formulas by `R`, in their order, and sets by `T`. -/
inductive Shape.Same (R : χ → χ' → Prop) (T : β → β' → Prop) : Shape χ β → Shape χ' β' → Prop
  | null : Shape.Same R T .null .null
  | bool (value : Bool) : Shape.Same R T (.bool value) (.bool value)
  | number {x y : Binary64} (h : x.SameValue y) : Shape.Same R T (.number x) (.number y)
  | text (value : String) : Shape.Same R T (.text value) (.text value)
  | name (n : String) : Shape.Same R T (.name n) (.name n)
  | call {callee : χ} {callee' : χ'} {arguments : List χ} {arguments' : List χ'}
      (hcallee : R callee callee') (harguments : List.Forall₂ R arguments arguments') :
      Shape.Same R T (.call callee arguments) (.call callee' arguments')
  | list {items : List χ} {items' : List χ'} (hitems : List.Forall₂ R items items') :
      Shape.Same R T (.list items) (.list items')
  | matrix {m n : Matrix} (h : Matrix.Same m n) : Shape.Same R T (.matrix m) (.matrix n)
  | closure (parameters : List String) {body : β} {body' : β'} (hbody : T body body') :
      Shape.Same R T (.closure parameters body) (.closure parameters body')
  | switch {cases : List (Case χ)} {cases' : List (Case χ')}
      (hcases : List.Forall₂ (Case.Related R) cases cases') :
      Shape.Same R T (.switch cases) (.switch cases')

mutual

/-- Two formulas have one structure. -/
inductive Formula.Same : Formula ε δ σ → Formula ε' δ' σ' → Prop
  | node {note : ε} {note' : ε'} {s : Shape (Formula ε δ σ) (DefinitionSet ε δ σ)}
      {t : Shape (Formula ε' δ' σ') (DefinitionSet ε' δ' σ')}
      (h : Shape.Same Formula.Same DefinitionSet.Same s t) :
      Formula.Same (.node note s) (.node note' t)

/-- Two sets have one structure: a permutation matches their definitions so that matched ones have
the same name and values of one structure, if they have values, and that definitions of one name
stay in their order.  Formulas without a name correspond in their order. -/
inductive DefinitionSet.Same : DefinitionSet ε δ σ → DefinitionSet ε' δ' σ' → Prop
  | node {note : σ} {note' : σ'} {ds : List (Definition ε δ σ)} {es : List (Definition ε' δ' σ')}
      {fs : List (Formula ε δ σ)} {gs : List (Formula ε' δ' σ')}
      (π : Fin ds.length ≃ Fin es.length)
      (hname : ∀ i, (ds.get i).name = (es.get (π i)).name)
      (hvalue : ∀ i, Option.Rel Formula.Same (ds.get i).value (es.get (π i)).value)
      (horder : ∀ i j, i < j → (ds.get i).name = (ds.get j).name → π i < π j)
      (hfloating : List.Forall₂ Formula.Same fs gs) :
      DefinitionSet.Same (.node note ds fs) (.node note' es gs)

end

/-! ## Comparing one layer -/

mutual

lemma Matrix.alike_iff {m n : Matrix} (h : ∀ x ∈ m.numbers, x.isNaN = false) :
    m.alike n = true ↔ m.Same n := by
  cases m <;> cases n <;> simp only [Matrix.alike, Bool.false_eq_true, beq_iff_eq] 
  case null.null => exact iff_of_true trivial .null
  case bool.bool => exact ⟨fun h => h ▸ .bool _, fun h => by cases h; rfl⟩
  case text.text => exact ⟨fun h => h ▸ .text _, fun h => by cases h; rfl⟩
  case number.number x y =>
    rw [Binary64.alike_iff (h x (List.mem_singleton.mpr rfl))]
    exact ⟨.number, fun h => by cases h; assumption⟩
  case array.array ms ns =>
    rw [Matrix.allAlike_iff h]
    exact ⟨.array, fun h => by cases h; assumption⟩
  all_goals exact iff_of_false id fun h => by cases h

lemma Matrix.allAlike_iff {ms ns : List Matrix} (h : ∀ x ∈ Matrix.numbersOf ms, x.isNaN = false) :
    Matrix.allAlike ms ns = true ↔ List.Forall₂ Matrix.Same ms ns := by
  cases ms with
  | nil => cases ns <;> simp [Matrix.allAlike]
  | cons m ms =>
    rw [Matrix.numbersOf, List.forall_mem_append] at h
    cases ns with
    | nil => simp [Matrix.allAlike]
    | cons n ns =>
      rw [Matrix.allAlike, Bool.and_eq_true, Matrix.alike_iff h.1, Matrix.allAlike_iff h.2,
        List.forall₂_cons]

end

lemma Formula.allAlike_iff {fs gs : List (Formula ε δ σ)} :
    Formula.allAlike fs gs = true ↔ List.Forall₂ (·.alike · = true) fs gs := by
  induction fs generalizing gs with
  | nil => cases gs <;> simp [Formula.allAlike]
  | cons f fs ih => cases gs <;> simp [Formula.allAlike, ih]

lemma Case.related_when_iff {R : χ → χ' → Prop} {c v : χ} {c' v' : χ'} :
    Case.Related R (.when c v) (.when c' v') ↔ R c c' ∧ R v v' :=
  ⟨fun h => by cases h with | when hc hv => exact ⟨hc, hv⟩, fun h => .when h.1 h.2⟩

lemma Case.related_otherwise_iff {R : χ → χ' → Prop} {v : χ} {v' : χ'} :
    Case.Related R (.otherwise v) (.otherwise v') ↔ R v v' :=
  ⟨fun h => by cases h with | otherwise hv => exact hv, .otherwise⟩

lemma Case.allAlike_iff {cs ds : List (Case (Formula ε δ σ))} :
    Case.allAlike cs ds = true ↔ List.Forall₂ (Case.Related (·.alike · = true)) cs ds := by
  induction cs generalizing ds with
  | nil => cases ds <;> simp [Case.allAlike]
  | cons c cs ih =>
    cases ds with
    | nil => cases c <;> simp [Case.allAlike]
    | cons d ds =>
      rw [List.forall₂_cons]
      cases c <;> cases d <;> simp only [Case.allAlike, Bool.and_eq_true, ih, Bool.false_eq_true]
      case when.when => rw [Case.related_when_iff]
      case otherwise.otherwise => rw [Case.related_otherwise_iff]
      all_goals exact iff_of_false id fun h => by cases h.1

/-- The definitions have one name, and values that are alike if they have values. -/
def Definition.Alike (d e : Definition ε δ σ) : Prop :=
  d.name = e.name ∧ Option.Rel (·.alike · = true) d.value e.value

lemma Definition.allAlike_iff {ds es : List (Definition ε δ σ)} :
    Definition.allAlike ds es = true ↔ List.Forall₂ Definition.Alike ds es := by
  induction ds generalizing es with
  | nil => cases es <;> simp [Definition.allAlike]
  | cons d ds ih =>
    obtain ⟨note, name, value⟩ := d
    cases es with
    | nil => cases value <;> simp [Definition.allAlike]
    | cons e es =>
      obtain ⟨note', name', value'⟩ := e
      rw [List.forall₂_cons]
      cases value <;> cases value' <;>
        simp [Definition.allAlike, Definition.Alike, Definition.name, Definition.value, ih,
          and_assoc]

/-- Two first layers are alike if they have one structure and what is below them is alike. -/
lemma Shape.alike_iff {s t : Shape (Formula ε δ σ) (DefinitionSet ε δ σ)}
    (h : ∀ x ∈ s.numbers, x.isNaN = false) :
    Shape.alike s t = true ↔ Shape.Same (·.alike · = true) (·.alike · = true) s t := by
  cases s <;> cases t <;> simp only [Shape.alike, Bool.false_eq_true, Bool.and_eq_true, beq_iff_eq]
  case null.null => exact iff_of_true trivial .null
  case bool.bool => exact ⟨fun h => h ▸ .bool _, fun h => by cases h; rfl⟩
  case number.number x y =>
    rw [Binary64.alike_iff (h x (List.mem_singleton.mpr rfl))]
    exact ⟨.number, fun h => by cases h; assumption⟩
  case text.text => exact ⟨fun h => h ▸ .text _, fun h => by cases h; rfl⟩
  case name.name => exact ⟨fun h => h ▸ .name _, fun h => by cases h; rfl⟩
  case call.call =>
    rw [Formula.allAlike_iff]
    exact ⟨fun h => .call h.1 h.2, fun h => by cases h; constructor <;> assumption⟩
  case list.list =>
    rw [Formula.allAlike_iff]
    exact ⟨.list, fun h => by cases h; assumption⟩
  case matrix.matrix =>
    rw [Matrix.alike_iff h]
    exact ⟨.matrix, fun h => by cases h; assumption⟩
  case closure.closure =>
    constructor
    · rintro ⟨rfl, h⟩
      exact .closure _ h
    · rintro (_ | _)
      exact ⟨rfl, ‹_›⟩
  case switch.switch =>
    rw [Case.allAlike_iff]
    exact ⟨.switch, fun h => by cases h; assumption⟩
  -- two kinds of layers are never alike
  all_goals exact iff_of_false id fun h => by cases h

/-! ## Changing what is below -/

lemma Case.related_map_iff {R : χ → χ' → Prop} {R' : ε → ε' → Prop} {f : ε → χ} {g : ε' → χ'}
    {c : Case ε} {d : Case ε'} (h : ∀ a ∈ c.parts, ∀ b, R (f a) (g b) ↔ R' a b) :
    Case.Related R (c.map f) (d.map g) ↔ Case.Related R' c d := by
  cases c with
  | when condition value =>
    cases d with
    | when condition' value' =>
      rw [Case.map, Case.map, Case.related_when_iff, Case.related_when_iff,
        h condition (by simp [Case.parts]), h value (by simp [Case.parts])]
    | otherwise value' => exact iff_of_false (fun h => by cases h) fun h => by cases h
  | otherwise value =>
    cases d with
    | when condition' value' => exact iff_of_false (fun h => by cases h) fun h => by cases h
    | otherwise value' =>
      rw [Case.map, Case.map, Case.related_otherwise_iff, Case.related_otherwise_iff,
        h value (by simp [Case.parts])]

/-- If what is below two layers is related as it is after a change, so are the layers. -/
lemma Shape.same_map_iff {R : χ → χ' → Prop} {T : β → β' → Prop}
    {R' : Formula ε δ σ → Formula ε' δ' σ' → Prop}
    {T' : DefinitionSet ε δ σ → DefinitionSet ε' δ' σ' → Prop} {f : Formula ε δ σ → χ}
    {g : Formula ε' δ' σ' → χ'} {f' : DefinitionSet ε δ σ → β} {g' : DefinitionSet ε' δ' σ' → β'}
    {s : Shape (Formula ε δ σ) (DefinitionSet ε δ σ)}
    {t : Shape (Formula ε' δ' σ') (DefinitionSet ε' δ' σ')}
    (hR : ∀ a ∈ s.children, ∀ b, R (f a) (g b) ↔ R' a b)
    (hT : ∀ ps body, s = .closure ps body → ∀ b, T (f' body) (g' b) ↔ T' body b) :
    Shape.Same R T (s.map f f') (t.map g g') ↔ Shape.Same R' T' s t := by
  cases s <;> cases t <;> simp only [Shape.map]
  case call.call callee arguments callee' arguments' =>
    rw [Shape.children, List.forall_mem_cons] at hR
    constructor
    · rintro (_ | _)
      exact .call ((hR.1 _).mp ‹_›) ((forall₂_map_iff hR.2).mp ‹_›)
    · rintro (_ | _)
      exact .call ((hR.1 _).mpr ‹_›) ((forall₂_map_iff hR.2).mpr ‹_›)
  case list.list items items' =>
    constructor
    · rintro (_ | _)
      exact .list ((forall₂_map_iff hR).mp ‹_›)
    · rintro (_ | _)
      exact .list ((forall₂_map_iff hR).mpr ‹_›)
  case closure.closure ps body ps' body' =>
    constructor
    · rintro (_ | _)
      exact .closure _ ((hT _ _ rfl _).mp ‹_›)
    · rintro (_ | _)
      exact .closure _ ((hT _ _ rfl _).mpr ‹_›)
  case switch.switch cases cases' =>
    have hcases : ∀ c ∈ cases, ∀ d, Case.Related R (c.map f) (Case.map g d) ↔ Case.Related R' c d :=
      fun c hc d => Case.related_map_iff fun a ha => hR a (List.mem_flatMap.mpr ⟨c, hc, ha⟩)
    constructor
    · rintro (_ | _)
      exact .switch ((forall₂_map_iff hcases).mp ‹_›)
    · rintro (_ | _)
      exact .switch ((forall₂_map_iff hcases).mpr ‹_›)
  -- layers with nothing below them, or of two kinds
  all_goals
    constructor
    · intro h
      cases h <;> constructor <;> assumption
    · intro h
      cases h <;> constructor <;> assumption

/-! ## Snapshots -/

lemma DefinitionSet.same_node_iff {note : σ} {note' : σ'} {ds : List (Definition ε δ σ)}
    {es : List (Definition ε' δ' σ')} {fs : List (Formula ε δ σ)} {gs : List (Formula ε' δ' σ')} :
    DefinitionSet.Same (.node note ds fs) (.node note' es gs) ↔
      (∃ π : Fin ds.length ≃ Fin es.length,
        (∀ i, (ds.get i).name = (es.get (π i)).name ∧
          Option.Rel Formula.Same (ds.get i).value (es.get (π i)).value) ∧
        ∀ i j, i < j → (ds.get i).name = (ds.get j).name → π i < π j) ∧
      List.Forall₂ Formula.Same fs gs := by
  constructor
  · intro h
    cases h with
    | node π hname hvalue horder hfloating =>
      exact ⟨⟨π, fun i => ⟨hname i, hvalue i⟩, horder⟩, hfloating⟩
  · rintro ⟨⟨π, h, horder⟩, hfloating⟩
    exact .node π (fun i => (h i).1) (fun i => (h i).2) horder hfloating

lemma Definition.name_toBare (f : Formula ε δ σ → Formula.Bare) (d : Definition ε δ σ) :
    (d.toBare f).name = d.name := by
  cases d
  rfl

lemma Definition.map_toBare_eq_ofFn (f : Formula ε δ σ → Formula.Bare)
    (ds : List (Definition ε δ σ)) :
    ds.map (Definition.toBare f) = List.ofFn fun i => (ds.get i).toBare f := by
  conv => lhs; rw [← List.ofFn_get ds, List.map_ofFn]
  rfl

lemma DefinitionSet.alike_snapshot_iff_of_formulas {set : DefinitionSet ε δ σ}
    (h : ∀ f ∈ set.formulas, ∀ g : Formula ε' δ' σ',
      f.snapshot.alike g.snapshot = true ↔ Formula.Same f g) (set' : DefinitionSet ε' δ' σ') :
    set.snapshot.alike set'.snapshot = true ↔ DefinitionSet.Same set set' := by
  obtain ⟨note, ds, fs⟩ := set
  obtain ⟨note', es, gs⟩ := set'
  have hvalue (d : Definition ε δ σ) (hd : d ∈ ds) (e : Definition ε' δ' σ') :
      Definition.Alike (d.toBare Formula.snapshot) (e.toBare Formula.snapshot) ↔
        d.name = e.name ∧ Option.Rel Formula.Same d.value e.value := by
    obtain ⟨ν, name, value⟩ := d
    obtain ⟨ν', name', value'⟩ := e
    refine and_congr Iff.rfl ?_
    cases value with
    | none => cases value' <;> simp [Definition.toBare, Definition.value]
    | some f =>
      have hf := h f (DefinitionSet.mem_formulas_of_value hd rfl)
      cases value' <;> simp [Definition.toBare, Definition.value, hf]
  rw [DefinitionSet.snapshot, DefinitionSet.snapshot, DefinitionSet.alike, Bool.and_eq_true,
    Definition.allAlike_iff, Formula.allAlike_iff, DefinitionSet.same_node_iff]
  refine and_congr ?_ ?_
  · rw [Definition.snapshots_eq_map, Definition.snapshots_eq_map, Definition.map_toBare_eq_ofFn,
      Definition.map_toBare_eq_ofFn, forall₂_mergeSort_iff fun _ _ hd => hd.1]
    refine exists_congr fun π => and_congr
      (forall_congr' fun i => hvalue _ (List.get_mem ds i) _) ?_
    simp only [Definition.name_toBare]
  · rw [Formula.snapshots_eq_map, Formula.snapshots_eq_map]
    exact forall₂_map_iff fun f hf => h f (DefinitionSet.mem_formulas_of_floating hf)

/-- Snapshots of formulas are alike exactly if the formulas have one structure. -/
theorem Formula.alike_snapshot_iff {f : Formula ε δ σ} (h : f.Throughout Formula.Numeric)
    (g : Formula ε' δ' σ') : f.snapshot.alike g.snapshot = true ↔ Formula.Same f g := by
  induction h generalizing g with
  | @intro note s here below ih =>
    obtain ⟨note', t⟩ := g
    have hnumbers : ∀ x ∈ (s.map Formula.snapshot DefinitionSet.snapshot).numbers,
        x.isNaN = false := by
      have hmap : (s.map Formula.snapshot DefinitionSet.snapshot).numbers = s.numbers := by
        cases s <;> rfl
      rw [hmap]
      exact here
    have hsame : Formula.Same (.node note s) (.node note' t) ↔
        Shape.Same Formula.Same DefinitionSet.Same s t :=
      ⟨fun h => by cases h with | node h => exact h, .node⟩
    rw [Formula.snapshot_node, Formula.snapshot_node, Formula.alike, Shape.alike_iff hnumbers, hsame]
    refine Shape.same_map_iff ih fun ps body hbody => ?_
    subst hbody
    exact DefinitionSet.alike_snapshot_iff_of_formulas ih

/-- Snapshots are alike exactly if what they were taken of has one structure. -/
theorem DefinitionSet.alike_snapshot_iff {set : DefinitionSet ε δ σ}
    (h : set.Throughout Formula.Numeric) (set' : DefinitionSet ε' δ' σ') :
    set.snapshot.alike set'.snapshot = true ↔ DefinitionSet.Same set set' :=
  DefinitionSet.alike_snapshot_iff_of_formulas (fun f hf => Formula.alike_snapshot_iff (h f hf)) _

end Formulary
