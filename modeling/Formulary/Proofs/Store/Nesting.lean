/-
# Requests that nest a node in itself

A request that puts a formula somewhere checks that the formula is detached, or detaches it.
It does not look where the new owner is.  If that lies below the formula, the formula is then
below itself, and so nothing below it can be read as a tree.  Every other request keeps the
nodes of a store rooted.
-/
import Formulary.Proofs.Data.Results
import Formulary.Proofs.Store.Acyclic
import Formulary.Proofs.Store.Ownership
import Formulary.Proofs.Store.Viewing

namespace Formulary.Store

variable {s : Store} {t : Ties}

namespace Request

/-- The formula that a request puts somewhere, and the node that is to own it. -/
def move? : Request → Option (NodeKey × NodeKey)
  | addDefinition set _ (some value) => some (.formula value, .set set)
  | setValue definition (some value) => some (.formula value, .definition definition)
  | addFloating set formula => some (.formula formula, .set set)
  | detachFormula formula into => some (.formula formula, .set into)
  | addFormula _ | addSet | addDefinition _ _ none | renameDefinition _ _ | setValue _ none
  | removeFormula _ | removeDefinition _ => none

/-- The request goes through and puts a formula below itself. -/
def Nests (r : Request) (s : Store) : Prop :=
  (∃ s', r.edit s = .ok () s') ∧ ∃ n o, r.move? = some (n, o) ∧ s.ties.Below n o

end Request

/-! ## One request -/

namespace Ties

variable {root : NodeKey}

/-- A new node at the end of a set: what is below a formula that existed before changes only in
that the new node is below the set. -/
lemma Consistent.below_new_iff (hc : t.Consistent root) {d o v : NodeKey} {ns : List NodeKey}
    (hd : t d = none) (ho : (t o).isSome) (hv : (t v).isSome)
    (hc' : ((t.adopt d []).attach d o ns).Consistent root) :
    ((t.adopt d []).attach d o ns).Below v d ↔ t.Below v o := by
  have howner : ∀ m, ((t.adopt d []).attach d o ns).owner m =
      if m = d then some o else t.owner m := owner_attach_adopt
  have hne : ∀ m, (t m).isSome → m ≠ d := by
    rintro m hm rfl
    simp [hd] at hm
  rw [hc'.below_iff, hc.below_iff]
  constructor
  · intro h
    rcases Relation.ReflTransGen.cases_head h with heq | ⟨p, hp, hrest⟩
    · exact absurd heq.symm (hne v hv)
    · rw [howner, if_pos rfl] at hp
      cases hp
      -- from `o` on, the way up only meets nodes that existed before
      have hup : ∀ m, Relation.ReflTransGen
          (fun a b => ((t.adopt d []).attach d o ns).owner a = some b) o m →
          t.Climbs o m ∧ (t m).isSome := by
        intro m hm
        induction hm with
        | refl => exact ⟨.refl, ho⟩
        | @tail a b _ hab ih =>
          rw [howner, if_neg (hne a ih.2)] at hab
          exact ⟨ih.1.tail hab, isSome_of_mem_owned ((hc.mem_owned_iff b a).mpr hab)⟩
      exact (hup v hrest).1
  · intro h
    refine Relation.ReflTransGen.head (b := o) (by rw [howner, if_pos rfl]) ?_
    refine Relation.ReflTransGen.mono (fun a b hab => ?_) _ _ h
    rw [howner, if_neg (hne a (isSome_of_owner hab)), hab]

/-- Taking away the value of a definition does not change what the definition is below. -/
lemma Acyclic.below_detachValue_iff (h : t.Acyclic) {d : DefinitionKey} {old : Option FormulaKey}
    (hold : ∀ w ∈ old, t.owner (.formula w) = some (.definition d)) (hc : t.Consistent root)
    (hc' : (t.detachValue d old).Consistent root) (v : NodeKey) :
    (t.detachValue d old).Below v (.definition d) ↔ t.Below v (.definition d) := by
  cases old with
  | none => exact Iff.rfl
  | some w =>
    have hw := hold w rfl
    have howner : ∀ m, (t.detachValue d (some w)).owner m =
        if m = .formula w then none else t.owner m :=
      fun m => owner_detach (isSome_of_owner hw) m
    rw [hc'.below_iff, hc.below_iff]
    constructor
    · refine fun hclimbs => Relation.ReflTransGen.mono (fun a b hab => ?_) _ _ hclimbs
      rw [howner] at hab
      split at hab
      · cases hab
      · exact hab
    · intro hclimbs
      induction hclimbs with
      | refl => exact .refl
      | @tail a b hda hab ih =>
        refine ih.tail ?_
        have ha : a ≠ .formula w := by
          rintro rfl
          exact (h _).not_climbs _ hw hda
        rw [howner, if_neg ha, hab]

lemma Acyclic.detachValue (h : t.Acyclic) {d : DefinitionKey} {old : Option FormulaKey}
    (hold : ∀ w ∈ old, (t (.formula w)).isSome) : (t.detachValue d old).Acyclic := by
  cases old with
  | none => exact h
  | some w =>
    refine h.of_owner fun m p hown => ?_
    rw [Ties.detachValue, owner_detach (hold w rfl)] at hown
    split at hown
    · cases hown
    · exact .inl hown

end Ties

/-- A request that goes through keeps all nodes rooted exactly if it does not put a formula
below itself. -/
theorem Effect.acyclic_iff (hs : s.Sound) (hac : s.ties.Acyclic) {r : Request}
    (heffect : Effect s r t) :
    t.Acyclic ↔ ∀ n o, r.move? = some (n, o) → ¬ s.ties.Below n o := by
  have hc := hs.consistent
  cases heffect with
  | addFormula hnodup hdet =>
    simpa [Request.move?] using hac.adopt fun m hm => (hdet m hm).1
  | addSet => simpa [Request.move?] using hac.adopt (n := .set s.sets.nextKey) (by simp)
  | @addDefinition set name value ns hset hdet hperm =>
    have hfresh : s.ties (.definition s.definitions.nextKey) = none := by
      simp [ties, Slots.get?_nextKey]
    -- the definition is new, so nothing is above it but its set and what is above that
    have hc₂ := hc.attach_adopt hfresh hset hperm
    have hac₂ := hac.attach_adopt hc hfresh hset ns
    cases value with
    | none => simpa [Request.move?, Ties.attachValue] using hac₂
    | some v =>
      have hv := (hdet v rfl).1
      have hv₂ : ((s.ties.adopt (.definition s.definitions.nextKey) []).attach
          (.definition s.definitions.nextKey) (.set set) ns (.formula v)).isSome := by
        simpa [Ties.attach, Ties.adopt] using hv
      have hiff := hac₂.attach_iff hc₂ hv₂ (.definition s.definitions.nextKey) [.formula v]
      rw [hc.below_new_iff hfresh hset hv hc₂] at hiff
      simpa [Request.move?, Ties.attachValue] using hiff
  | renameDefinition => simpa [Request.move?] using hac
  | @setValue d value node hnode hdet =>
    obtain ⟨hc₁, howned, hlive⟩ := hs.detachValue hnode
    have hold : ∀ w ∈ node.value, s.ties.owner (.formula w) = some (.definition d) :=
      fun w hw => hs.owner_value hnode hw
    -- the old value is taken away first, and it was not above the definition
    have hac₁ := hac.detachValue (d := d) fun w hw => Ties.isSome_of_owner (hold w hw)
    cases value with
    | none => simpa [Request.move?, Ties.attachValue] using hac₁
    | some v =>
      have hv : (s.ties.detachValue d node.value (.formula v)).isSome := by
        rw [hlive]
        exact (hdet v rfl).1
      have hiff := hac₁.attach_iff hc₁ hv (.definition d) [.formula v]
      rw [hac.below_detachValue_iff hold hc hc₁] at hiff
      simpa [Request.move?, Ties.attachValue] using hiff
  | @addFloating set f ns hset hf hperm =>
    simpa [Request.move?] using hac.attach_iff hc hf.1 (.set set) ns
  | @detachFormula f into ns hf hinto hperm =>
    have hf' : (s.ties.unlink (.formula f) (.formula f)).isSome := by rwa [Ties.isSome_unlink]
    have hiff := (hac.unlink (.formula f)).attach_iff (hc.unlink _) hf' (.set into) ns
    -- on the way up from the set only the owner of the formula itself has changed
    have howner : ∀ m, m ≠ .formula f → (s.ties.unlink (.formula f)).owner m = s.ties.owner m := by
      intro m hm
      rw [Ties.owner_unlink, if_neg hm]
    rw [(hc.unlink _).below_iff, Ties.climbs_iff_of_owner_eq howner, ← hc.below_iff] at hiff
    simpa [Request.move?] using hiff
  | removeFormula hf => simpa [Request.move?] using (hac.unlink _).withoutBelow _
  | removeDefinition hd => simpa [Request.move?] using (hac.unlink _).withoutBelow _

/-- After a request all nodes are still rooted, unless it put a formula below itself. -/
theorem Request.acyclic_after_iff (hs : s.Sound) (hac : s.ties.Acyclic) (r : Request) :
    (r.after s).ties.Acyclic ↔ ¬ r.Nests s := by
  unfold Request.after Request.Nests
  rcases r.refuses_or_effect hs with ⟨reason, hr⟩ | ⟨t, heffect, s', hrun, -, -, hties⟩
  · simp [hr, hac]
  · rw [hrun, hties, heffect.acyclic_iff hs hac]
    simp

/-! ## Runs of requests -/

/-- The program without definitions has only a root. -/
lemma acyclic_empty : empty.ties.Acyclic := by
  intro n
  refine .detached ?_
  rw [Ties.owner, ties_empty]
  split <;> rfl

/-- A program that was stored has no node below itself. -/
lemma acyclic_ofProgram (program : DefinitionSet.Placed) : (ofProgram program).ties.Acyclic := by
  obtain ⟨ks, hgrows, -⟩ := ofProgram_grows program
  exact acyclic_empty.grow sound_empty.consistent hgrows.grown sound_empty.consistent.root_isSome

/-- A store in which editing begins. -/
def Initial (s : Store) : Prop := s = empty ∨ ∃ text, ofText text = .ok s

lemma Initial.reachable (h : s.Initial) : s.Reachable := by
  rcases h with rfl | ⟨text, h⟩
  · exact .empty
  · exact .read h

lemma Initial.acyclic (h : s.Initial) : s.ties.Acyclic := by
  rcases h with rfl | ⟨text, h⟩
  · exact acyclic_empty
  · obtain ⟨program, -, rfl⟩ := exists_of_ofText h
    exact acyclic_ofProgram program

/-- The stores that a run of requests comes through, the first and the last one included. -/
def stores (s : Store) : List Request → List Store
  | [] => [s]
  | r :: rs => s :: stores (r.after s) rs

/-- No request of a run puts a formula below itself. -/
def NeverNests (s : Store) : List Request → Prop
  | [] => True
  | r :: rs => ¬ r.Nests s ∧ NeverNests (r.after s) rs

lemma mem_stores_self (s : Store) (rs : List Request) : s ∈ stores s rs := by
  cases rs <;> simp [stores]

lemma Reachable.of_mem_stores (h : s.Reachable) {rs : List Request} {s' : Store}
    (hmem : s' ∈ stores s rs) : s'.Reachable := by
  induction rs generalizing s with
  | nil =>
    rw [stores, List.mem_singleton] at hmem
    rwa [hmem]
  | cons r rs ih =>
    rcases List.mem_cons.mp hmem with rfl | hmem
    · exact h
    · exact ih (h.after r) hmem

/-- All nodes stay rooted along a run exactly as long as no request of it puts a formula below
itself. -/
lemma acyclic_stores_iff (h : s.Sound) (hac : s.ties.Acyclic) (rs : List Request) :
    (∀ s' ∈ stores s rs, s'.ties.Acyclic) ↔ NeverNests s rs := by
  induction rs generalizing s with
  | nil => simp [stores, NeverNests, hac]
  | cons r rs ih =>
    rw [stores, List.forall_mem_cons, NeverNests, ← r.acyclic_after_iff h hac]
    constructor
    · rintro ⟨-, hrest⟩
      have hnext := hrest _ (mem_stores_self _ rs)
      exact ⟨hnext, (ih (h.after r) hnext).mp hrest⟩
    · rintro ⟨hnext, hrest⟩
      exact ⟨hac, (ih (h.after r) hnext).mpr hrest⟩

/-- Along a run of requests the way up from every node comes to an end exactly as long as no
request puts a formula below itself.  In a store where it does, every formula and every set can
be read as a tree and written. -/
theorem rooted_along_run_iff (h : s.Initial) (rs : List Request) :
    ((∀ s' ∈ stores s rs, ∀ n, s'.ties.Rooted n) ↔ NeverNests s rs) ∧
    ∀ s' ∈ stores s rs, (∀ n, s'.ties.Rooted n) →
      (∀ key, (s'.formulas.get? key).isSome →
        (∃ view, s'.viewFormula .whole key = .ok view) ∧
        ∃ text, s'.writeFormula key = .ok text) ∧
      ∀ key, (s'.sets.get? key).isSome →
        (∃ view, s'.viewSet .whole key = .ok view) ∧ ∃ text, s'.writeSet key = .ok text := by
  refine ⟨acyclic_stores_iff h.reachable.sound h.acyclic rs, ?_⟩
  intro s' hmem hac
  have hs := (h.reachable.of_mem_stores hmem).sound
  constructor
  · intro key hkey
    have hlive : (s'.ties (.formula key)).isSome := by simpa [ties] using hkey
    have hview := fun extent => exists_viewFormula hs.consistent hac extent hlive
    exact ⟨hview .whole, map_eq_ok _ (hview .written)⟩
  · intro key hkey
    have hlive : (s'.ties (.set key)).isSome := by simpa [ties] using hkey
    have hview := fun extent => exists_viewSet hs.consistent hac extent hlive
    exact ⟨hview .whole, map_eq_ok _ (hview .written)⟩

/-- A closure is added with a new set as its body, and bound to a name in the root. -/
theorem rooted_of_bound_closure :
    let rs : List Request :=
      [.addSet, .addFormula (.closure [] ⟨2, 1⟩), .addDefinition empty.root "f" (some ⟨1, 1⟩)]
    empty.Initial ∧ NeverNests empty rs ∧ ∀ s ∈ stores empty rs, ∀ n, s.ties.Rooted n := by
  intro rs
  have hinitial : empty.Initial := .inl rfl
  have hnever : NeverNests empty rs := by
    refine ⟨by simp [Request.Nests, Request.move?], by simp [Request.Nests, Request.move?], ?_,
      trivial⟩
    rintro ⟨-, n, o, hmove, hbelow⟩
    cases hmove
    have hsound := ((hinitial.reachable.after .addSet).after
      (.addFormula (.closure [] ⟨2, 1⟩))).sound
    rw [hsound.consistent.below_iff] at hbelow
    -- the root has no owner, so the way up from it does not come to the closure
    rcases Relation.ReflTransGen.cases_head hbelow with heq | ⟨m, hm, -⟩
    · cases heq
    · cases hsound.consistent.owner_root.symm.trans hm
  exact ⟨hinitial, hnever, (rooted_along_run_iff hinitial rs).1.mpr hnever⟩

/-- A closure is added with a new set as its body, and then put into that set. -/
theorem closure_inside_its_body :
    let rs : List Request :=
      [.addSet, .addFormula (.closure [] ⟨2, 1⟩), .addFloating ⟨2, 1⟩ ⟨1, 1⟩]
    ∃ s ∈ stores empty rs, ¬ s.ties.Rooted (.formula ⟨1, 1⟩) := by
  intro rs
  refine ⟨(Request.addFloating ⟨2, 1⟩ ⟨1, 1⟩).after
    ((Request.addFormula (.closure [] ⟨2, 1⟩)).after (Request.addSet.after empty)), ?_, ?_⟩
  · simp [rs, stores]
  · intro hrooted
    refine hrooted.not_climbs (.set ⟨2, 1⟩) rfl ?_
    exact Relation.ReflTransGen.single rfl

end Formulary.Store
