/-
# Formulas at other places

A map of positions carries a formula to other places and leaves all else as it is.  What the
grammar makes of parts commutes with such a map, as long as the least span that covers two others
is carried to the least span that covers what they are carried to.
-/
import Formulary.Formula.Placed
import Formulary.Proofs.Formula.Bare
import Formulary.Proofs.Operator.Climbing

namespace Formulary

open Text

variable {φ ψ : Position → Position}

/-! ## Spans -/

/-- The span between the positions that the ends are carried to. -/
def Text.Span.move (φ : Position → Position) (s : Span) : Span := ⟨φ s.start, φ s.stop⟩

/-- A map of positions that carries least spans to least spans. -/
def KeepsHulls (φ : Position → Position) : Prop :=
  ∀ s t : Span, (s.hull t).move φ = (s.move φ).hull (t.move φ)

/-- A map that keeps the order of bytes, and what is at one byte together, keeps least spans. -/
lemma keepsHulls_of_monotone (hle : ∀ x y : Position, x.byte ≤ y.byte → (φ x).byte ≤ (φ y).byte)
    (heq : ∀ x y : Position, y.byte < x.byte → (φ x).byte ≤ (φ y).byte → φ x = φ y) :
    KeepsHulls φ := by
  intro s t
  rw [Span.move, Span.hull, Span.hull, Span.move, Span.move, Span.mk.injEq]
  dsimp only
  constructor
  · split
    · rename_i h
      rw [if_pos (hle _ _ h)]
    · rename_i h
      split
      · rename_i h'
        exact (heq _ _ (Nat.lt_of_not_le h) h').symm
      · rfl
  · split
    · rename_i h
      rw [if_pos (hle _ _ h)]
    · rename_i h
      split
      · rename_i h'
        exact heq _ _ (Nat.lt_of_not_le h) h'
      · rfl

/-! ## Formulas -/

mutual

/-- A formula at other places. -/
def Formula.move (φ : Position → Position) : Formula.Placed → Formula.Placed
  | .node span shape => .node (span.move φ) (Shape.move φ shape)

/-- A first layer with what is below it at other places. -/
def Shape.move (φ : Position → Position) :
    Shape Formula.Placed DefinitionSet.Placed → Shape Formula.Placed DefinitionSet.Placed
  | .null => .null
  | .bool value => .bool value
  | .number value => .number value
  | .text value => .text value
  | .name name => .name name
  | .call callee arguments => .call (Formula.move φ callee) (Formula.moves φ arguments)
  | .list items => .list (Formula.moves φ items)
  | .matrix value => .matrix value
  | .closure parameters body => .closure parameters (DefinitionSet.move φ body)
  | .switch cases => .switch (Case.moves φ cases)

/-- Formulas at other places. -/
def Formula.moves (φ : Position → Position) : List Formula.Placed → List Formula.Placed
  | [] => []
  | f :: fs => Formula.move φ f :: Formula.moves φ fs

/-- Cases at other places. -/
def Case.moves (φ : Position → Position) :
    List (Case Formula.Placed) → List (Case Formula.Placed)
  | [] => []
  | .when condition value :: cases =>
    .when (Formula.move φ condition) (Formula.move φ value) :: Case.moves φ cases
  | .otherwise value :: cases => .otherwise (Formula.move φ value) :: Case.moves φ cases

/-- Definitions at other places. -/
def Definition.moves (φ : Position → Position) :
    List Definition.Placed → List Definition.Placed
  | [] => []
  | .node span name none :: ds => .node (span.move φ) name none :: Definition.moves φ ds
  | .node span name (some value) :: ds =>
    .node (span.move φ) name (some (Formula.move φ value)) :: Definition.moves φ ds

/-- A set at other places. -/
def DefinitionSet.move (φ : Position → Position) : DefinitionSet.Placed → DefinitionSet.Placed
  | .node note definitions floating =>
    .node note (Definition.moves φ definitions) (Formula.moves φ floating)

end

/-- A case at other places. -/
def Case.move (φ : Position → Position) : Case Formula.Placed → Case Formula.Placed :=
  Case.map (Formula.move φ)

/-- A definition at other places. -/
def Definition.move (φ : Position → Position) : Definition.Placed → Definition.Placed
  | .node span name value => .node (span.move φ) name (value.map (Formula.move φ))

lemma Formula.moves_eq_map (fs : List Formula.Placed) :
    Formula.moves φ fs = fs.map (Formula.move φ) := by
  induction fs with
  | nil => rw [Formula.moves, List.map_nil]
  | cons f fs ih => rw [Formula.moves, List.map_cons, ih]

lemma Case.moves_eq_map (cs : List (Case Formula.Placed)) :
    Case.moves φ cs = cs.map (Case.move φ) := by
  induction cs with
  | nil => rw [Case.moves, List.map_nil]
  | cons c cs ih => cases c <;> rw [Case.moves, List.map_cons, ih] <;> rfl

lemma Definition.moves_eq_map (ds : List Definition.Placed) :
    Definition.moves φ ds = ds.map (Definition.move φ) := by
  induction ds with
  | nil => rw [Definition.moves, List.map_nil]
  | cons d ds ih =>
    obtain ⟨span, name, _ | value⟩ := d <;> rw [Definition.moves, List.map_cons, ih] <;> rfl

lemma Formula.move_node (span : Span) (s : Shape Formula.Placed DefinitionSet.Placed) :
    Formula.move φ (.node span s) =
      .node (span.move φ) (s.map (Formula.move φ) (DefinitionSet.move φ)) := by
  rw [Formula.move]
  cases s with
  | call callee arguments => rw [Shape.move, Formula.moves_eq_map, Shape.map]
  | list items => rw [Shape.move, Formula.moves_eq_map, Shape.map]
  | closure ps body => rw [Shape.move, Shape.map]
  | switch cases => rw [Shape.move, Case.moves_eq_map, Shape.map]; rfl
  | _ => rw [Shape.move, Shape.map]

@[simp] lemma Formula.note_move (f : Formula.Placed) : (f.move φ).note = f.note.move φ := by
  obtain ⟨span, s⟩ := f
  rw [Formula.move_node]
  rfl

lemma DefinitionSet.move_ofDefinitions (ds : List Definition.Placed) :
    (DefinitionSet.ofDefinitions ds).move φ = .ofDefinitions (ds.map (Definition.move φ)) := by
  rw [DefinitionSet.ofDefinitions, DefinitionSet.move, Definition.moves_eq_map, Formula.moves]
  rfl

lemma DefinitionSet.move_node (ds : List Definition.Placed) (floating : List Formula.Placed) :
    (DefinitionSet.node () ds floating).move φ =
      .node () (ds.map (Definition.move φ)) (floating.map (Formula.move φ)) := by
  rw [DefinitionSet.move, Definition.moves_eq_map, Formula.moves_eq_map]

/-! ## Nothing but places -/

lemma DefinitionSet.bare_move_of_formulas {set : DefinitionSet.Placed}
    (h : ∀ f ∈ set.formulas, (f.move φ).bare = f.bare) : (set.move φ).bare = set.bare := by
  obtain ⟨_, ds, floating⟩ := set
  rw [DefinitionSet.move_node, DefinitionSet.bare_node, DefinitionSet.bare_node, List.map_map,
    List.map_map]
  congr 1
  · refine List.map_congr_left fun d hd => ?_
    obtain ⟨span, name, value⟩ := d
    cases value with
    | none => rfl
    | some f =>
      show Definition.node () name (some _) = Definition.node () name (some _)
      rw [h f (DefinitionSet.mem_formulas_of_value hd rfl)]
  · exact List.map_congr_left fun f hf => h f (DefinitionSet.mem_formulas_of_floating hf)

/-- Without their places, formulas are the same at other places. -/
@[simp] lemma Formula.bare_move (f : Formula.Placed) : (f.move φ).bare = f.bare := by
  induction f using Formula.induction with
  | h span shape ih =>
    rw [Formula.move_node, Formula.bare_node, Formula.bare_node, Shape.map_map]
    congr 1
    refine Shape.map_congr ih fun ps body hbody => ?_
    subst hbody
    exact DefinitionSet.bare_move_of_formulas ih

lemma Definition.bare_move (d : Definition.Placed) : (d.move φ).bare = d.bare := by
  obtain ⟨span, name, value⟩ := d
  cases value with
  | none => rfl
  | some f =>
    show Definition.node () name (some _) = Definition.node () name (some _)
    rw [Formula.bare_move]

lemma DefinitionSet.move_id_of_formulas {set : DefinitionSet.Placed}
    (h : ∀ f ∈ set.formulas, f.move id = f) : set.move id = set := by
  obtain ⟨_, ds, floating⟩ := set
  rw [DefinitionSet.move_node]
  congr 1
  · refine (List.map_congr_left (g := id) fun d hd => ?_).trans (List.map_id ds)
    obtain ⟨span, name, value⟩ := d
    cases value with
    | none => rfl
    | some f =>
      show Definition.node span name (some _) = Definition.node span name (some _)
      rw [h f (DefinitionSet.mem_formulas_of_value hd rfl)]
  · exact (List.map_congr_left (g := id) fun f hf =>
      h f (DefinitionSet.mem_formulas_of_floating hf)).trans (List.map_id floating)

@[simp] lemma Formula.move_id (f : Formula.Placed) : f.move id = f := by
  induction f using Formula.induction with
  | h span shape ih =>
    rw [Formula.move_node]
    have hshape : shape.map (Formula.move id) (DefinitionSet.move id) = shape.map id id :=
      Shape.map_congr ih fun ps body hbody => by
        subst hbody
        exact DefinitionSet.move_id_of_formulas ih
    rw [hshape, Shape.map_id]
    rfl

lemma Definition.move_id (d : Definition.Placed) : d.move id = d := by
  obtain ⟨span, name, value⟩ := d
  show Definition.node span name _ = _
  cases value <;> simp

/-! ## What is made of parts -/

lemma Formula.matrix?_move (f : Formula.Placed) : (f.move φ).matrix? = f.matrix? := by
  obtain ⟨span, s⟩ := f
  rw [Formula.move_node]
  cases s <;> rfl

lemma Formula.move_ofItems (span : Span) (items : List Formula.Placed) :
    (Formula.ofItems span items).move φ =
      Formula.ofItems (span.move φ) (items.map (Formula.move φ)) := by
  have hentries : (items.map (Formula.move φ)).mapM Formula.matrix? =
      items.mapM Formula.matrix? := by
    induction items with
    | nil => rfl
    | cons f fs ih => rw [List.map_cons, List.mapM_cons, List.mapM_cons, ih, Formula.matrix?_move]
  unfold Formula.ofItems
  rw [hentries]
  cases items.mapM Formula.matrix? with
  | some entries => rw [Formula.move_node]; rfl
  | none => rw [Formula.move_node]; rfl

lemma Formula.move_operation (hφ : KeepsHulls φ) (symbol : Located String)
    (left right : Formula.Placed) :
    (Formula.operation symbol left right).move φ =
      Formula.operation ⟨symbol.value, symbol.span.move φ⟩ (left.move φ) (right.move φ) := by
  rw [Formula.operation, Formula.operation, Formula.move_node, Formula.note_move,
    Formula.note_move, hφ, Shape.map, Formula.move_node]
  rfl

/-- Two formulas that are carried to the same formula at the same places. -/
def Formula.Meet (φ ψ : Position → Position) (f g : Formula.Placed) : Prop := f.move φ = g.move ψ

/-- Two operators that are the same and are carried to the same places. -/
def MeetAt (φ ψ : Position → Position) (s t : Located String) : Prop :=
  s.value = t.value ∧ s.span.move φ = t.span.move ψ

lemma Formula.meet_operation (hφ : KeepsHulls φ) (hψ : KeepsHulls ψ) {s t : Located String}
    {f f' g g' : Formula.Placed} (hs : MeetAt φ ψ s t) (hf : f.Meet φ ψ f') (hg : g.Meet φ ψ g') :
    (Formula.operation s f g).Meet φ ψ (Formula.operation t f' g') := by
  rw [Formula.Meet, Formula.move_operation hφ, Formula.move_operation hψ, hf, hg, hs.1, hs.2]

lemma Formula.meet_negation (hφ : KeepsHulls φ) (hψ : KeepsHulls ψ) {s t : Span}
    {f g : Formula.Placed} (hs : s.move φ = t.move ψ) (hf : f.Meet φ ψ g) :
    (Formula.negation s f).Meet φ ψ (Formula.negation t g) := by
  refine Formula.meet_operation hφ hψ ⟨rfl, hs⟩ ?_ hf
  have hstart : φ s.start = ψ t.start := (Span.mk.inj hs).1
  rw [Formula.Meet, Formula.move_node, Formula.move_node, Span.move, Span.move, Span.point,
    Span.point]
  dsimp only
  rw [hstart]
  rfl

/-- Chains of operands and operators that meet are folded to formulas that meet. -/
lemma Formula.meet_fold (hφ : KeepsHulls φ) (hψ : KeepsHulls ψ) {ls ms : List (Link Formula.Placed)}
    {f : Formula.Placed} (h : List.Forall₂ (Operation.Matches (Formula.Meet φ ψ) (MeetAt φ ψ)) ls ms)
    (hfold : Formula.joining.fold ls = .ok f) :
    ∃ g, Formula.joining.fold ms = .ok g ∧ f.Meet φ ψ g := by
  obtain ⟨x, hx, rfl, rfl⟩ := Joining.exists_of_fold_eq_ok hfold
  have hflip : List.Forall₂ (Operation.Matches (flip (Formula.Meet φ ψ)) (flip (MeetAt φ ψ))) ms
      x.links := by
    refine h.flip.imp fun l m hlm => ?_
    cases hlm with
    | operand h => exact .operand h
    | operator h => exact .operator h
  obtain ⟨y, rfl, hyx⟩ := Operation.exists_alike hflip
  refine ⟨_, Operation.fold_links (hyx.grouped (fun s t hst => hst.1.symm) hx), ?_⟩
  clear hfold hflip h hx
  induction hyx with
  | operand h => exact h
  | apply hs _ _ ihl ihr => exact Formula.meet_operation hφ hψ hs ihl ihr

end Formulary
