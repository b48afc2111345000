/-
# Programs in a store

A program that is stored is kept as it is: what is read back from the root, in the order in which
it is stored, has all its definitions, names, formulas, parameters and cases, and every node keeps
the span it was read from.  Nodes refer back to the nodes that list them.  There are no other
nodes in the store, so none is left over and none is without its contents.
-/
import Formulary.Proofs.Formula.Sorted
import Formulary.Proofs.Store.Contents
import Formulary.Proofs.Store.Frame
import Formulary.Proofs.Store.RoundTrip
import Formulary.Proofs.Store.Traversal

namespace Formulary.Store

variable {s : Store}

/-- The span that a formula was read from. -/
def formulaSpan? (s : Store) (key : FormulaKey) : Option Text.Span :=
  (s.formulas.get? key).bind FormulaNode.span

/-- The span that a definition was read from. -/
def definitionSpan? (s : Store) (key : DefinitionKey) : Option Text.Span :=
  (s.definitions.get? key).bind DefinitionNode.span

/-! ## Spans -/

variable {P : NodeKey → Prop}

lemma Shows.span_eq {v : PlacedView} (h : Shows P s v) : s.formulaSpan? v.key = some v.note.2 := by
  obtain ⟨node, hnode, -, hspan⟩ := h.node
  simp [formulaSpan?, hnode, hspan]

lemma ShowsDefinition.span_eq {d : PlacedDefinitionView} (h : ShowsDefinition P s d) :
    s.definitionSpan? d.key = some d.note.2 := by
  obtain ⟨node, hnode, -, -, hspan⟩ := h.node
  simp [definitionSpan?, hnode, hspan]

/-- The spans of the nodes of a set are those that its view shows. -/
lemma ShowsSet.spans_eq_of_formulas {set : PlacedSetView} (h : ShowsSet P s set)
    (hformulas : ∀ v ∈ set.formulas,
      v.mapNotes (s.formulaSpan? ∘ Prod.fst) (s.definitionSpan? ∘ Prod.fst) (fun _ => ()) =
        v.mapNotes (some ∘ Prod.snd) (some ∘ Prod.snd) fun _ => ()) :
    set.mapNotes (s.formulaSpan? ∘ Prod.fst) (s.definitionSpan? ∘ Prod.fst) (fun _ => ()) =
      set.mapNotes (some ∘ Prod.snd) (some ∘ Prod.snd) fun _ => () := by
  rw [DefinitionSet.mapNotes_eq_mapWith, DefinitionSet.mapNotes_eq_mapWith]
  exact DefinitionSet.mapWith_congr rfl (fun d hd => (h.definitions d hd).span_eq) hformulas

lemma spans_eq_of_shows {v : PlacedView} (h : v.Throughout (Shows P s)) :
    v.mapNotes (s.formulaSpan? ∘ Prod.fst) (s.definitionSpan? ∘ Prod.fst) (fun _ => ()) =
      v.mapNotes (some ∘ Prod.snd) (some ∘ Prod.snd) fun _ => () := by
  induction h with
  | @intro note shape here _ ih =>
    have hspan : (s.formulaSpan? ∘ Prod.fst) note = (some ∘ Prod.snd) note := here.span_eq
    rw [Formula.mapNotes_node, Formula.mapNotes_node, hspan]
    refine congrArg (Formula.node _) (Shape.map_congr ih fun ps body hbody => ?_)
    subst hbody
    exact (here.body ps body rfl).spans_eq_of_formulas ih

/-- What is read of a program that was stored has the spans that the program has. -/
lemma exists_view_spans_ofProgram (program : DefinitionSet.Placed) :
    ∃ v, (ofProgram program).view .whole = .ok v ∧
      v.mapNotes (ofProgram program).formulaSpan? (ofProgram program).definitionSpan?
        (fun _ => ()) = program.mapNotes some some fun _ => () := by
  obtain ⟨t, hview, hplaced, hset, hformulas⟩ := exists_placedView_ofProgram program
  have hprogram : program.mapNotes some some (fun _ => ()) =
      t.mapNotes (some ∘ Prod.snd) (some ∘ Prod.snd) fun _ => () := by
    rw [← hplaced, DefinitionSet.placed, DefinitionSet.mapNotes_mapNotes]
  refine ⟨t.keyed, hview, ?_⟩
  rw [hprogram, DefinitionSet.keyed, DefinitionSet.mapNotes_mapNotes]
  exact hset.spans_eq_of_formulas fun v hv => spans_eq_of_shows (hformulas v hv)

/-! ## Nodes -/

/-- All nodes of a program that was stored are below the root. -/
lemma below_root_ofProgram (program : DefinitionSet.Placed) {n : NodeKey} :
    (ofProgram program).ties.Below (.set (ofProgram program).root) n ↔
      ((ofProgram program).content? n).isSome := by
  have hs := sound_ofProgram program
  obtain ⟨ks, hgrows, -⟩ := ofProgram_grows program
  refine ⟨hs.live_of_below (by rw [isSome_content?]; exact hs.consistent.root_isSome),
    fun hn => ?_⟩
  rw [isSome_content?] at hn
  rw [hgrows.root_eq]
  by_cases hroot : n = .set empty.root
  · rw [hroot]
    exact .refl
  · -- every node but the root is new, so it is below one that the root owns
    have hnew : empty.ties n = none := by rw [ties_empty, if_neg hroot]
    obtain ⟨k, hk, hbelow⟩ := hgrows.grown.below n hnew hn
    have hlisted := (hs.consistent.mem_owned_iff _ k).mpr (hgrows.grown.tops k hk).2
    exact Relation.ReflTransGen.head hlisted hbelow

/-- The nodes that a program is read from are all different, and are those below the root. -/
lemma Sound.nodes_view (hs : s.Sound) {v : SetView} (hv : s.view .whole = .ok v) :
    v.nodes.Nodup ∧ ∀ n, n ∈ v.nodes ↔ s.ties.Below (.set s.root) n := by
  have hc := hs.consistent
  have hvisits : Visits s.ties.owned [.set s.root] v.nodes := by
    rw [← shown_whole]
    exact (visits_read s .whole _).2 _ _ hv
  refine ⟨hvisits.nodup hc ?_ (List.nodup_singleton _) ?_, fun n => by simpa using hvisits.mem_iff⟩
  · rintro r hr
    rw [List.mem_singleton.mp hr]
    exact .detached hc.owner_root
  · intro a ha b hb hab
    exact absurd ((List.mem_singleton.mp ha).trans (List.mem_singleton.mp hb).symm) hab

/-- A store that a program was put into holds that program: it is read back as it was, with its
spans; its snapshot is the program with all sets sorted by name; every node refers back to the
node that lists it; and its nodes are those that are read, each of them once. -/
theorem ofProgram_spec (program : DefinitionSet.Placed) :
    ∃ v d, (ofProgram program).view .whole = .ok v ∧
      v.mapNotes (ofProgram program).formulaSpan? (ofProgram program).definitionSpan?
        (fun _ => ()) = program.mapNotes some some (fun _ => ()) ∧
      (ofProgram program).snapshot = .ok d ∧ DefinitionSet.SortsTo program.bare d ∧
      (∀ o n, n ∈ (ofProgram program).ties.owned o ↔
        (ofProgram program).ties.owner n = some o) ∧
      (ofProgram program).ties.owner (.set (ofProgram program).root) = none ∧
      v.nodes.Nodup ∧ ∀ n, ((ofProgram program).content? n).isSome ↔ n ∈ v.nodes := by
  have hs := sound_ofProgram program
  obtain ⟨v, hview, hspans⟩ := exists_view_spans_ofProgram program
  obtain ⟨hnodup, hmem⟩ := hs.nodes_view hview
  refine ⟨v, program.snapshot, hview, hspans, snapshot_ofProgram program,
    program.sortsTo_snapshot, hs.consistent.mem_owned_iff, hs.consistent.owner_root, hnodup,
    fun n => ?_⟩
  rw [hmem, below_root_ofProgram]

end Formulary.Store
