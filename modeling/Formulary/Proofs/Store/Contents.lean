/-
# What a stored program holds

A program that was stored is read back from the store as it was, whatever its notes were.  While a
part of the program is stored its nodes are added one by one, and each of them refers to the nodes
below it as the part does.  Later steps change none of these nodes: the only node that they
complete was there before the part.
-/
import Formulary.Proofs.Formula.Notes
import Formulary.Proofs.Store.Loading
import Formulary.Proofs.Store.Nesting
import Formulary.Proofs.Store.Writing

namespace Formulary

open Text

/-! ## Views with spans -/

namespace Store

/-- A formula whose parts carry their keys and the spans they were read from. -/
abbrev PlacedView := Formula (FormulaKey × Span) (DefinitionKey × Span) SetKey

/-- A definition whose parts carry their keys and the spans they were read from. -/
abbrev PlacedDefinitionView := Definition (FormulaKey × Span) (DefinitionKey × Span) SetKey

/-- A set whose parts carry their keys and the spans they were read from. -/
abbrev PlacedSetView := DefinitionSet (FormulaKey × Span) (DefinitionKey × Span) SetKey

end Store

open Store

/-- The key of a formula. -/
def Formula.key (v : PlacedView) : FormulaKey := v.note.1

/-- The key of a definition. -/
def Definition.key (d : PlacedDefinitionView) : DefinitionKey := d.note.1

/-- The view without spans. -/
def Formula.keyed : PlacedView → FormulaView := Formula.mapNotes Prod.fst Prod.fst id

/-- The view of a definition without spans. -/
def Definition.keyed : PlacedDefinitionView → DefinitionView :=
  Definition.mapWith Prod.fst Formula.keyed

/-- The view of a set without spans. -/
def DefinitionSet.keyed : PlacedSetView → SetView := DefinitionSet.mapNotes Prod.fst Prod.fst id

/-- The formula without keys. -/
def Formula.placed : PlacedView → Formula.Placed := Formula.mapNotes Prod.snd Prod.snd fun _ => ()

/-- The definition without keys. -/
def Definition.placed : PlacedDefinitionView → Definition.Placed :=
  Definition.mapWith Prod.snd Formula.placed

/-- The set without keys. -/
def DefinitionSet.placed : PlacedSetView → DefinitionSet.Placed :=
  DefinitionSet.mapNotes Prod.snd Prod.snd fun _ => ()

namespace Store

variable {s s' s'' : Store} {o : Option NodeKey} {P Q : NodeKey → Prop}

/-! ## Nodes that stay -/

/-- The nodes of `s` stay in `s'`, but for the node `o`. -/
structure Keeps (s s' : Store) (o : Option NodeKey) : Prop where
  formula : ∀ ⦃key node⦄, s.formulas.get? key = some node → .formula key ∉ o →
    s'.formulas.get? key = some node
  definition : ∀ ⦃key node⦄, s.definitions.get? key = some node → .definition key ∉ o →
    s'.definitions.get? key = some node
  set : ∀ ⦃key node⦄, s.sets.get? key = some node → .set key ∉ o → s'.sets.get? key = some node

lemma Keeps.refl (s : Store) (o : Option NodeKey) : Keeps s s o :=
  ⟨fun _ _ h _ => h, fun _ _ h _ => h, fun _ _ h _ => h⟩

lemma Keeps.trans (h : Keeps s s' o) (h' : Keeps s' s'' o) : Keeps s s'' o :=
  ⟨fun _ _ hn hne => h'.formula (h.formula hn hne) hne,
    fun _ _ hn hne => h'.definition (h.definition hn hne) hne,
    fun _ _ hn hne => h'.set (h.set hn hne) hne⟩

lemma Keeps.weaken (h : Keeps s s' none) (o : Option NodeKey) : Keeps s s' o :=
  ⟨fun _ _ hn _ => h.formula hn (by simp), fun _ _ hn _ => h.definition hn (by simp),
    fun _ _ hn _ => h.set hn (by simp)⟩

/-- What is not there after a step was not there before it, the excepted node aside. -/
lemma Keeps.new (h : Keeps s s' o) {n : NodeKey} (hn : s'.ties n = none) (hne : n ∉ o) :
    s.ties n = none := by
  by_contra hlive
  obtain ⟨tie, htie⟩ := Option.ne_none_iff_exists'.mp hlive
  cases n with
  | formula key =>
    obtain ⟨node, hnode, -⟩ := Option.map_eq_some_iff.mp htie
    simp [ties, h.formula hnode hne] at hn
  | definition key =>
    obtain ⟨node, hnode, -⟩ := Option.map_eq_some_iff.mp htie
    simp [ties, h.definition hnode hne] at hn
  | set key =>
    obtain ⟨node, hnode, -⟩ := Option.map_eq_some_iff.mp htie
    simp [ties, h.set hnode hne] at hn

/-! ## Views that show the store -/

/-- The view of a definition shows what its node refers to; the node has the property `P`. -/
structure ShowsDefinition (P : NodeKey → Prop) (s : Store) (d : PlacedDefinitionView) : Prop where
  here : P (.definition d.key)
  node : ∃ node, s.definitions.get? d.key = some node ∧ node.name = d.name ∧
    node.value = d.value.map Formula.key ∧ node.span = some d.note.2

/-- The view of a set shows what the nodes of the set and of its definitions refer to; these nodes
have the property `P`. -/
structure ShowsSet (P : NodeKey → Prop) (s : Store) (set : PlacedSetView) : Prop where
  here : P (.set set.note)
  node : ∃ node, s.sets.get? set.note = some node ∧
    node.definitions = set.definitions.map Definition.key ∧
      node.floating = set.floating.map Formula.key
  definitions : ∀ d ∈ set.definitions, ShowsDefinition P s d

/-- The view of a formula shows what its node, and if it is a closure its body, refers to; these
nodes have the property `P`. -/
structure Shows (P : NodeKey → Prop) (s : Store) (v : PlacedView) : Prop where
  here : P (.formula v.key)
  node : ∃ node, s.formulas.get? v.key = some node ∧
    node.shape = v.shape.map Formula.key DefinitionSet.note ∧ node.span = some v.note.2
  body : ∀ ps body, v.shape = .closure ps body → ShowsSet P s body

lemma ShowsDefinition.keep {d : PlacedDefinitionView} (h : ShowsDefinition P s d)
    (hkeep : Keeps s s' o) (hPQ : ∀ n, P n → Q n ∧ n ∉ o) : ShowsDefinition Q s' d := by
  obtain ⟨hQ, hne⟩ := hPQ _ h.here
  obtain ⟨node, hnode, hrest⟩ := h.node
  exact ⟨hQ, node, hkeep.definition hnode hne, hrest⟩

lemma ShowsSet.keep {set : PlacedSetView} (h : ShowsSet P s set) (hkeep : Keeps s s' o)
    (hPQ : ∀ n, P n → Q n ∧ n ∉ o) : ShowsSet Q s' set := by
  obtain ⟨hQ, hne⟩ := hPQ _ h.here
  obtain ⟨node, hnode, hrest⟩ := h.node
  exact ⟨hQ, ⟨node, hkeep.set hnode hne, hrest⟩, fun d hd => (h.definitions d hd).keep hkeep hPQ⟩

lemma Shows.keep {v : PlacedView} (h : Shows P s v) (hkeep : Keeps s s' o)
    (hPQ : ∀ n, P n → Q n ∧ n ∉ o) : Shows Q s' v := by
  obtain ⟨hQ, hne⟩ := hPQ _ h.here
  obtain ⟨node, hnode, hrest⟩ := h.node
  exact ⟨hQ, ⟨node, hkeep.formula hnode hne, hrest⟩,
    fun ps body hbody => (h.body ps body hbody).keep hkeep hPQ⟩

/-- The node was not there. -/
def New (s : Store) (n : NodeKey) : Prop := s.ties n = none

lemma Keeps.new_of_new (h : Keeps s s' o) (ho : ∀ n ∈ o, (s'.ties n).isSome) :
    ∀ n, New s' n → New s n ∧ n ∉ o := by
  intro n hn
  have hne : n ∉ o := by
    intro hmem
    have hlive := ho n hmem
    rw [hn] at hlive
    cases hlive
  exact ⟨h.new hn hne, hne⟩

/-- The views show the store `s'`, and all their nodes were not there in `s`. -/
def AllShow (s s' : Store) (vs : List PlacedView) : Prop :=
  ∀ v ∈ vs, v.Throughout (Shows (New s) s')

/-- Views keep showing the store, with steps before and after. -/
lemma AllShow.keep {s₁ s₂ : Store} {vs : List PlacedView} (h : AllShow s₁ s₂ vs)
    (hbefore : Keeps s s₁ o) (hafter : Keeps s₂ s' o) (ho : ∀ n ∈ o, (s₁.ties n).isSome) :
    AllShow s s' vs := by
  intro v hv
  have hshows := h v hv
  clear hv
  induction hshows with
  | intro here _ ih => exact .intro (here.keep hafter (hbefore.new_of_new ho)) ih

lemma AllShow.append {vs ws : List PlacedView} (h : AllShow s s' vs) (h' : AllShow s s' ws) :
    AllShow s s' (vs ++ ws) := List.forall_mem_append.mpr ⟨h, h'⟩

/-! ## What was stored -/

/-- Formulas were stored as views show. -/
structure StoredAs (s s' : Store) (vs : List PlacedView) (fs : List Formula.Placed) : Prop where
  valid : s'.Valid
  keeps : Keeps s s' none
  placed : vs.map Formula.placed = fs
  shows : AllShow s s' vs

lemma StoredAs.nil (hs : s.Valid) : StoredAs s s [] [] :=
  ⟨hs, .refl s none, rfl, fun _ hv => by cases hv⟩

lemma StoredAs.append {vs ws : List PlacedView} {fs gs : List Formula.Placed}
    (h : StoredAs s s' vs fs) (h' : StoredAs s' s'' ws gs) :
    StoredAs s s'' (vs ++ ws) (fs ++ gs) where
  valid := h'.valid
  keeps := h.keeps.trans h'.keeps
  placed := by rw [List.map_append, h.placed, h'.placed]
  shows := (h.shows.keep (.refl s none) h'.keeps (by simp)).append
    (h'.shows.keep h.keeps (.refl s'' none) (by simp))

/-- What is below a formula was stored as a first layer of views shows. -/
structure StoredBelow (s s' : Store) (shape : Shape PlacedView PlacedSetView)
    (stored : Shape Formula.Placed DefinitionSet.Placed) : Prop where
  valid : s'.Valid
  keeps : Keeps s s' none
  placed : shape.map Formula.placed DefinitionSet.placed = stored
  shows : AllShow s s' shape.children
  body : ∀ ps body, shape = .closure ps body → ShowsSet (New s) s' body

/-- A layer without a set was stored when the formulas below it were. -/
lemma StoredAs.below {fs : List Formula.Placed} {shape : Shape PlacedView PlacedSetView}
    {stored : Shape Formula.Placed DefinitionSet.Placed} (h : StoredAs s s' shape.children fs)
    (hplaced : shape.map Formula.placed DefinitionSet.placed = stored)
    (hset : ∀ ps body, shape ≠ .closure ps body) : StoredBelow s s' shape stored where
  valid := h.valid
  keeps := h.keeps
  placed := hplaced
  shows := h.shows
  body ps body hbody := absurd hbody (hset ps body)

/-- A set was filled as views of what was added to it show. -/
structure FilledAs (s s' : Store) (set : SetKey) (node : SetNode) (vs : List PlacedDefinitionView)
    (ws : List PlacedView) (ds : List Definition.Placed) (fs : List Formula.Placed) : Prop where
  valid : s'.Valid
  keeps : Keeps s s' (some (.set set))
  node : s'.sets.get? set = some { node with
    definitions := node.definitions ++ vs.map Definition.key
    floating := node.floating ++ ws.map Formula.key }
  placedDefinitions : vs.map Definition.placed = ds
  placedFloating : ws.map Formula.placed = fs
  definitions : ∀ d ∈ vs, ShowsDefinition (New s) s' d
  shows : AllShow s s' (vs.filterMap Definition.value ++ ws)

/-- What was added to an empty set makes up the set that was stored. -/
lemma FilledAs.placed_eq {key : SetKey} {node : SetNode} {vs : List PlacedDefinitionView}
    {ws : List PlacedView} {set : DefinitionSet.Placed}
    (h : FilledAs s s' key node vs ws set.definitions set.floating) :
    (DefinitionSet.node key vs ws : PlacedSetView).placed = set := by
  obtain ⟨note, ds, fs⟩ := set
  rw [DefinitionSet.placed, DefinitionSet.mapNotes_eq_mapWith]
  exact congrArg₂ (DefinitionSet.node ()) h.placedDefinitions h.placedFloating

lemma live_of_get? {set : SetKey} {node : SetNode} (h : s.sets.get? set = some node) :
    ∀ n ∈ some (NodeKey.set set), (s.ties n).isSome := by
  rintro n ⟨⟩
  simp [ties, h]

lemma FilledAs.nil (hs : s.Valid) {set : SetKey} {node : SetNode}
    (h : s.sets.get? set = some node) : FilledAs s s set node [] [] [] [] where
  valid := hs
  keeps := .refl s _
  node := by simpa using h
  placedDefinitions := rfl
  placedFloating := rfl
  definitions := fun _ hd => by cases hd
  shows := fun _ hv => by cases hv

lemma FilledAs.append {set : SetKey} {node node' : SetNode} {vs vs' : List PlacedDefinitionView}
    {ws ws' : List PlacedView} {ds ds' : List Definition.Placed} {fs fs' : List Formula.Placed}
    (hset : s.sets.get? set = some node) (h : FilledAs s s' set node vs ws ds fs)
    (hset' : s'.sets.get? set = some node') (h' : FilledAs s' s'' set node' vs' ws' ds' fs') :
    FilledAs s s'' set node (vs ++ vs') (ws ++ ws') (ds ++ ds') (fs ++ fs') where
  valid := h'.valid
  keeps := h.keeps.trans h'.keeps
  node := by
    have heq := h.node
    rw [hset'] at heq
    cases heq
    simpa using h'.node
  placedDefinitions := by rw [List.map_append, h.placedDefinitions, h'.placedDefinitions]
  placedFloating := by rw [List.map_append, h.placedFloating, h'.placedFloating]
  definitions := by
    refine List.forall_mem_append.mpr ⟨fun d hd => ?_, fun d hd => ?_⟩
    · exact (h.definitions d hd).keep h'.keeps
        ((Keeps.refl s _).new_of_new (live_of_get? hset))
    · exact (h'.definitions d hd).keep (.refl s'' _) (h.keeps.new_of_new (live_of_get? hset'))
  shows := by
    have hfirst := h.shows.keep (.refl s _) h'.keeps (live_of_get? hset)
    have hsecond := h'.shows.keep h.keeps (.refl s'' _) (live_of_get? hset')
    rw [List.filterMap_append]
    simp only [AllShow, List.forall_mem_append] at hfirst hsecond ⊢
    exact ⟨⟨hfirst.1, hsecond.1⟩, hfirst.2, hsecond.2⟩

/-! ## Single steps -/

lemma keeps_reserveFormula (hs : s.Valid) (span : Span) (owner : NodeKey) :
    Keeps s (reserveFormula span owner s).2 none :=
  ⟨fun _ _ hn _ => Slots.get?_insert_of_some hs.formulas hn _, fun _ _ hn _ => hn,
    fun _ _ hn _ => hn⟩

lemma keeps_reserveDefinition (hs : s.Valid) (span : Span) (name : String) (owner : SetKey) :
    Keeps s (reserveDefinition span name owner s).2 none :=
  ⟨fun _ _ hn _ => hn, fun _ _ hn _ => Slots.get?_insert_of_some hs.definitions hn _,
    fun _ _ hn _ => hn⟩

lemma keeps_reserveSet (hs : s.Valid) (owner : FormulaKey) :
    Keeps s (reserveSet owner s).2 none :=
  ⟨fun _ _ hn _ => hn, fun _ _ hn _ => hn,
    fun _ _ hn _ => Slots.get?_insert_of_some hs.sets hn _⟩

lemma keeps_completeFormula (s : Store) (key : FormulaKey) (shape : StoredShape) :
    Keeps s (completeFormula key shape s).2 (some (.formula key)) := by
  refine ⟨fun k node hn hne => ?_, fun _ _ hn _ => hn, fun _ _ hn _ => hn⟩
  refine (Slots.get?_modify_of_ne _ ?_ _).trans hn
  rintro rfl
  exact hne rfl

lemma keeps_completeDefinition (s : Store) (key : DefinitionKey) (value : FormulaKey) :
    Keeps s (completeDefinition key value s).2 (some (.definition key)) := by
  refine ⟨fun _ _ hn _ => hn, fun k node hn hne => ?_, fun _ _ hn _ => hn⟩
  refine (Slots.get?_modify_of_ne _ ?_ _).trans hn
  rintro rfl
  exact hne rfl

lemma keeps_modifySet (s : Store) (set : SetKey) (f : SetNode → SetNode) :
    Keeps s { s with sets := s.sets.modify set f } (some (.set set)) := by
  refine ⟨fun _ _ hn _ => hn, fun _ _ hn _ => hn, fun k node hn hne => ?_⟩
  refine (Slots.get?_modify_of_ne _ ?_ _).trans hn
  rintro rfl
  exact hne rfl

/-- A node that was not there may be excepted. -/
lemma Keeps.except_new {n : NodeKey} (h : Keeps s s' (some n)) (hn : New s n) :
    Keeps s s' none := by
  refine ⟨fun key node hnode _ => h.formula hnode ?_, fun key node hnode _ => h.definition hnode ?_,
    fun key node hnode _ => h.set hnode ?_⟩
  all_goals
    rintro ⟨⟩
    simp [New, ties, hnode] at hn

/-- A definition was stored with its value, and is added to its set. -/
lemma filledAs_definition {set : SetKey} {node : SetNode} {key : DefinitionKey} {span : Span}
    {name : String} {value? : Option PlacedView} {stored? : Option Formula.Placed}
    (hset : s.sets.get? set = some node) (hvalid : s'.Valid) (hkeeps : Keeps s s' none)
    (hnew : New s (.definition key))
    (hnode : ∃ d, s'.definitions.get? key = some d ∧ d.name = name ∧
      d.value = value?.map Formula.key ∧ d.span = some span)
    (hplaced : value?.map Formula.placed = stored?)
    (hshows : AllShow s s' value?.toList) :
    FilledAs s (appendDefinition set key s').2 set node [.node (key, span) name value?] []
      [.node span name stored?] [] where
  valid := ⟨hvalid.formulas, hvalid.definitions, hvalid.sets.modify _ _⟩
  keeps := (hkeeps.weaken _).trans (keeps_modifySet s' set _)
  node := by
    refine (Slots.get?_modify_self (hkeeps.set hset (by simp)) _).trans ?_
    rw [List.map_nil, List.append_nil]
    rfl
  placedDefinitions := congrArg (fun value => [Definition.node span name value]) hplaced
  placedFloating := rfl
  definitions := by
    intro d hd
    rw [List.mem_singleton] at hd
    subst hd
    exact ⟨hnew, hnode⟩
  shows := by
    -- what the definition shows is its value, if it has one
    have hlist : [(.node (key, span) name value? : PlacedDefinitionView)].filterMap
        Definition.value =
        value?.toList := by
      cases value? <;> rfl
    rw [List.append_nil, hlist]
    exact hshows.keep (.refl s _) (keeps_modifySet s' set _) (live_of_get? hset)

lemma filledAs_unbound (hs : s.Valid) {set : SetKey} {node : SetNode}
    (hset : s.sets.get? set = some node) (span : Span) (name : String) :
    FilledAs s (appendDefinition set s.definitions.nextKey (reserveDefinition span name set s).2).2
      set node [.node (s.definitions.nextKey, span) name none] [] [.node span name none] [] := by
  have hres := reserveDefinition_reserves hs span name set
  refine filledAs_definition hset hres.valid (keeps_reserveDefinition hs span name set) hres.fresh
    ⟨⟨name, none, some set, some span⟩, ?_, rfl, rfl, rfl⟩ rfl fun _ hv => by cases hv
  show (s.definitions.insert _).get? _ = _
  rw [Slots.get?_insert hs.definitions, Function.update_self]

lemma filledAs_bound (hs : s.Valid) {set : SetKey} {node : SetNode}
    (hset : s.sets.get? set = some node) {span : Span} {name : String} {v : PlacedView}
    {value : Formula.Placed} (h : StoredAs (reserveDefinition span name set s).2 s' [v] [value]) :
    FilledAs s (appendDefinition set s.definitions.nextKey
      (completeDefinition s.definitions.nextKey v.key s').2).2 set node
        [.node (s.definitions.nextKey, span) name (some v)] []
        [.node span name (some value)] [] := by
  have hres := reserveDefinition_reserves hs span name set
  have hkeeps := keeps_reserveDefinition hs span name set
  have hcomplete := keeps_completeDefinition s' s.definitions.nextKey v.key
  have hlive : ∀ n ∈ some (NodeKey.definition s.definitions.nextKey),
      ((reserveDefinition span name set s).2.ties n).isSome := by
    rintro n ⟨⟩
    exact hres.isSome
  have hnode : s'.definitions.get? s.definitions.nextKey =
      some ⟨name, none, some set, some span⟩ := by
    refine h.keeps.definition ?_ (by simp)
    show (s.definitions.insert _).get? _ = _
    rw [Slots.get?_insert hs.definitions, Function.update_self]
  have hplaced : v.placed = value := List.singleton_inj.mp h.placed
  refine filledAs_definition hset (h.valid.modifyDefinition _ _)
    ((((hkeeps.trans h.keeps).weaken _).trans hcomplete).except_new hres.fresh) hres.fresh
    ⟨_, Slots.get?_modify_self hnode _, rfl, rfl, rfl⟩ ?_
    (h.shows.keep (hkeeps.weaken _) hcomplete hlive)
  rw [Option.map_some, hplaced]

/-- A formula without a name was stored, and is added to its set. -/
lemma filledAs_floating {set : SetKey} {node : SetNode} {v : PlacedView} {f : Formula.Placed}
    (hset : s.sets.get? set = some node) (h : StoredAs s s' [v] [f]) :
    FilledAs s (appendFloating set v.key s').2 set node [] [v] [] [f] where
  valid := ⟨h.valid.formulas, h.valid.definitions, h.valid.sets.modify _ _⟩
  keeps := (h.keeps.weaken _).trans (keeps_modifySet s' set _)
  node := by
    refine (Slots.get?_modify_self (h.keeps.set hset (by simp)) _).trans ?_
    rw [List.map_nil, List.append_nil]
    rfl
  placedDefinitions := rfl
  placedFloating := h.placed
  definitions := fun _ hd => by cases hd
  shows := h.shows.keep (.refl s _) (keeps_modifySet s' set _) (live_of_get? hset)

/-- A formula was stored with what is below it, and is completed. -/
lemma storedAs_formula (hs : s.Valid) {span : Span} {owner : NodeKey}
    {shape : Shape PlacedView PlacedSetView} {stored : Shape Formula.Placed DefinitionSet.Placed}
    (h : StoredBelow (reserveFormula span owner s).2 s' shape stored) :
    StoredAs s (completeFormula s.formulas.nextKey
      (shape.map Formula.key DefinitionSet.note) s').2 [.node (s.formulas.nextKey, span) shape]
        [.node span stored] := by
  have hres := reserveFormula_reserves hs span owner
  have hkeeps := keeps_reserveFormula hs span owner
  have hcomplete := keeps_completeFormula s' s.formulas.nextKey
    (shape.map Formula.key DefinitionSet.note)
  have hlive : ∀ n ∈ some (NodeKey.formula s.formulas.nextKey),
      ((reserveFormula span owner s).2.ties n).isSome := by
    rintro n ⟨⟩
    exact hres.isSome
  have hnode : s'.formulas.get? s.formulas.nextKey = some ⟨.null, some owner, some span⟩ := by
    refine h.keeps.formula ?_ (by simp)
    show (s.formulas.insert _).get? _ = _
    rw [Slots.get?_insert hs.formulas, Function.update_self]
  refine ⟨h.valid.modifyFormula _ _, ?_, ?_, ?_⟩
  · exact (((hkeeps.trans h.keeps).weaken _).trans hcomplete).except_new hres.fresh
  · rw [List.map_singleton, Formula.placed, Formula.mapNotes_node]
    exact congrArg (fun shape => [Formula.node span shape]) h.placed
  · intro v hv
    rw [List.mem_singleton] at hv
    subst hv
    refine .intro ⟨hres.fresh, ⟨_, Slots.get?_modify_self hnode _, rfl, rfl⟩,
      fun ps body hbody => ?_⟩ (h.shows.keep (hkeeps.weaken _) hcomplete hlive)
    exact (h.body ps body hbody).keep hcomplete ((hkeeps.weaken _).new_of_new hlive)

lemma get?_reserveSet (hs : s.Valid) (key : FormulaKey) :
    (reserveSet key s).2.sets.get? s.sets.nextKey = some ⟨[], [], some key⟩ := by
  show (s.sets.insert _).get? _ = _
  rw [Slots.get?_insert hs.sets, Function.update_self]

/-- A set that is new for a function was filled, and is its body. -/
lemma storedBelow_closure (hs : s.Valid) {key : FormulaKey} {vs : List PlacedDefinitionView}
    {ws : List PlacedView} {body : DefinitionSet.Placed} {parameters : List String}
    (h : FilledAs (reserveSet key s).2 s' s.sets.nextKey ⟨[], [], some key⟩ vs ws
      body.definitions body.floating) :
    StoredBelow s s' (.closure parameters (.node s.sets.nextKey vs ws))
      (.closure parameters body) := by
  have hfresh := (reserveSet_reserves hs key).fresh
  have hkeeps := (keeps_reserveSet hs key).weaken (some (.set s.sets.nextKey))
  have hlive := live_of_get? (get?_reserveSet hs key)
  refine ⟨h.valid, (hkeeps.trans h.keeps).except_new hfresh, ?_,
    h.shows.keep hkeeps (.refl s' _) hlive, ?_⟩
  · rw [Shape.map, h.placed_eq]
  · rintro ps body ⟨⟩
    -- what is put into the set is new for the formula, as the set itself is
    exact ⟨hfresh, ⟨_, h.node, rfl, rfl⟩,
      fun d hd => (h.definitions d hd).keep (.refl s' _) (hkeeps.new_of_new hlive)⟩

/-! ## The induction -/

mutual

theorem storeFormula_shows (owner : NodeKey) :
    ∀ (f : Formula.Placed) (s : Store), s.Valid →
      ∃ v s', storeFormula owner f s = (v.key, s') ∧ StoredAs s s' [v] [f]
  | .node span shape => by
    intro s hs
    have hres := reserveFormula_reserves hs span owner
    obtain ⟨shape', s₁, hrun, h⟩ := storeShape_shows s.formulas.nextKey shape _ hres.valid
    refine ⟨.node (s.formulas.nextKey, span) shape', _, ?_, storedAs_formula hs h⟩
    rw [storeFormula, storing_bind (reserveFormula_apply _ _)]
    exact storing_bind hrun _

theorem storeShape_shows (key : FormulaKey) :
    ∀ (shape : Shape Formula.Placed DefinitionSet.Placed) (s : Store), s.Valid →
      ∃ (shape' : Shape PlacedView PlacedSetView) (s' : Store),
        storeShape key shape s = (shape'.map Formula.key DefinitionSet.note, s') ∧
          StoredBelow s s' shape' shape
  | .null => by
    intro s hs
    exact ⟨.null, s, rfl, (StoredAs.nil hs).below rfl (by simp)⟩
  | .bool value => by
    intro s hs
    exact ⟨.bool value, s, rfl, (StoredAs.nil hs).below rfl (by simp)⟩
  | .number value => by
    intro s hs
    exact ⟨.number value, s, rfl, (StoredAs.nil hs).below rfl (by simp)⟩
  | .text value => by
    intro s hs
    exact ⟨.text value, s, rfl, (StoredAs.nil hs).below rfl (by simp)⟩
  | .name name => by
    intro s hs
    exact ⟨.name name, s, rfl, (StoredAs.nil hs).below rfl (by simp)⟩
  | .matrix value => by
    intro s hs
    exact ⟨.matrix value, s, rfl, (StoredAs.nil hs).below rfl (by simp)⟩
  | .call callee arguments => by
    intro s hs
    obtain ⟨v, s₁, hrun₁, h₁⟩ := storeFormula_shows (.formula key) callee s hs
    obtain ⟨vs, s₂, hrun₂, h₂⟩ := storeFormulas_shows (.formula key) arguments s₁ h₁.valid
    refine ⟨.call v vs, s₂, ?_, (h₁.append h₂).below ?_ (by simp)⟩
    · rw [storeShape, storing_bind hrun₁, storing_bind hrun₂]
      rfl
    · have hv : v.placed = callee := List.singleton_inj.mp h₁.placed
      rw [Shape.map, hv, h₂.placed]
  | .list items => by
    intro s hs
    obtain ⟨vs, s₁, hrun, h⟩ := storeFormulas_shows (.formula key) items s hs
    refine ⟨.list vs, s₁, ?_, h.below ?_ (by simp)⟩
    · rw [storeShape, storing_bind hrun]
      rfl
    · rw [Shape.map, h.placed]
  | .closure parameters body => by
    intro s hs
    have hnode := get?_reserveSet hs key
    obtain ⟨vs, ws, s₁, hrun, h⟩ :=
      storeSet_shows s.sets.nextKey body _ _ (reserveSet_reserves hs key).valid hnode
    refine ⟨.closure parameters (.node s.sets.nextKey vs ws), s₁, ?_, storedBelow_closure hs h⟩
    rw [storeShape, storing_bind (reserveSet_apply _)]
    exact storing_bind hrun _
  | .switch cases => by
    intro s hs
    obtain ⟨cs, s₁, hrun, h, hplaced⟩ := storeCases_shows (.formula key) cases s hs
    refine ⟨.switch cs, s₁, ?_, h.below ?_ (by simp)⟩
    · rw [storeShape, storing_bind hrun]
      rfl
    · exact congrArg Shape.switch hplaced

theorem storeFormulas_shows (owner : NodeKey) :
    ∀ (fs : List Formula.Placed) (s : Store), s.Valid →
      ∃ vs s', storeFormulas owner fs s = (vs.map Formula.key, s') ∧ StoredAs s s' vs fs
  | [] => by
    intro s hs
    exact ⟨[], s, rfl, .nil hs⟩
  | f :: fs => by
    intro s hs
    obtain ⟨v, s₁, hrun₁, h₁⟩ := storeFormula_shows owner f s hs
    obtain ⟨vs, s₂, hrun₂, h₂⟩ := storeFormulas_shows owner fs s₁ h₁.valid
    refine ⟨v :: vs, s₂, ?_, h₁.append h₂⟩
    rw [storeFormulas, storing_bind hrun₁, storing_bind hrun₂]
    rfl

theorem storeCases_shows (owner : NodeKey) :
    ∀ (cs : List (Case Formula.Placed)) (s : Store), s.Valid →
      ∃ (cs' : List (Case PlacedView)) (s' : Store),
        storeCases owner cs s = (cs'.map (Case.map Formula.key), s') ∧
          StoredAs s s' (cs'.flatMap Case.parts) (cs.flatMap Case.parts) ∧
            cs'.map (Case.map Formula.placed) = cs
  | [] => by
    intro s hs
    exact ⟨[], s, rfl, .nil hs, rfl⟩
  | .when condition value :: cs => by
    intro s hs
    obtain ⟨v, s₁, hrun₁, h₁⟩ := storeFormula_shows owner condition s hs
    obtain ⟨w, s₂, hrun₂, h₂⟩ := storeFormula_shows owner value s₁ h₁.valid
    obtain ⟨cs', s₃, hrun₃, h₃, hplaced⟩ := storeCases_shows owner cs s₂ h₂.valid
    refine ⟨.when v w :: cs', s₃, ?_, (h₁.append h₂).append h₃, ?_⟩
    · rw [storeCases, storing_bind hrun₁, storing_bind hrun₂, storing_bind hrun₃]
      rfl
    · have hv : v.placed = condition := List.singleton_inj.mp h₁.placed
      have hw : w.placed = value := List.singleton_inj.mp h₂.placed
      rw [List.map_cons, Case.map, hplaced, hv, hw]
  | .otherwise value :: cs => by
    intro s hs
    obtain ⟨w, s₁, hrun₁, h₁⟩ := storeFormula_shows owner value s hs
    obtain ⟨cs', s₂, hrun₂, h₂, hplaced⟩ := storeCases_shows owner cs s₁ h₁.valid
    refine ⟨.otherwise w :: cs', s₂, ?_, h₁.append h₂, ?_⟩
    · rw [storeCases, storing_bind hrun₁, storing_bind hrun₂]
      rfl
    · have hw : w.placed = value := List.singleton_inj.mp h₁.placed
      rw [List.map_cons, Case.map, hplaced, hw]

theorem storeSet_shows (set : SetKey) :
    ∀ (body : DefinitionSet.Placed) (node : SetNode) (s : Store), s.Valid →
      s.sets.get? set = some node →
      ∃ vs ws s', storeSet set body s = ((), s') ∧
        FilledAs s s' set node vs ws body.definitions body.floating
  | .node note ds fs => by
    intro node s hs hset
    obtain ⟨vs, s₁, hrun₁, h₁⟩ := storeDefinitions_shows set ds node s hs hset
    obtain ⟨ws, s₂, hrun₂, h₂⟩ := storeFloating_shows set fs _ s₁ h₁.valid h₁.node
    refine ⟨vs, ws, s₂, ?_, ?_⟩
    · rw [storeSet, storing_bind hrun₁]
      exact hrun₂
    · have h := h₁.append hset h₁.node h₂
      rwa [List.append_nil, List.nil_append, List.append_nil, List.nil_append] at h

theorem storeDefinitions_shows (set : SetKey) :
    ∀ (ds : List Definition.Placed) (node : SetNode) (s : Store), s.Valid →
      s.sets.get? set = some node →
      ∃ vs s', storeDefinitions set ds s = ((), s') ∧ FilledAs s s' set node vs [] ds []
  | [] => by
    intro node s hs hset
    exact ⟨[], s, rfl, .nil hs hset⟩
  | .node span name none :: ds => by
    intro node s hs hset
    have h₁ := filledAs_unbound hs hset span name
    obtain ⟨vs, s₂, hrun₂, h₂⟩ := storeDefinitions_shows set ds _ _ h₁.valid h₁.node
    refine ⟨_, s₂, ?_, h₁.append hset h₁.node h₂⟩
    rw [storeDefinitions, storing_bind (reserveDefinition_apply _ _ _)]
    exact hrun₂
  | .node span name (some value) :: ds => by
    intro node s hs hset
    obtain ⟨v, s₁, hrun₁, hv⟩ := storeFormula_shows (.definition s.definitions.nextKey) value _
      (reserveDefinition_reserves hs span name set).valid
    have h₁ := filledAs_bound hs hset hv
    obtain ⟨vs, s₂, hrun₂, h₂⟩ := storeDefinitions_shows set ds _ _ h₁.valid h₁.node
    refine ⟨_, s₂, ?_, h₁.append hset h₁.node h₂⟩
    rw [storeDefinitions, storing_bind (reserveDefinition_apply _ _ _), storing_bind hrun₁]
    exact hrun₂

theorem storeFloating_shows (set : SetKey) :
    ∀ (fs : List Formula.Placed) (node : SetNode) (s : Store), s.Valid →
      s.sets.get? set = some node →
      ∃ ws s', storeFloating set fs s = ((), s') ∧ FilledAs s s' set node [] ws [] fs
  | [] => by
    intro node s hs hset
    exact ⟨[], s, rfl, .nil hs hset⟩
  | f :: fs => by
    intro node s hs hset
    obtain ⟨v, s₁, hrun₁, hv⟩ := storeFormula_shows (.set set) f s hs
    have h₁ := filledAs_floating hset hv
    obtain ⟨ws, s₂, hrun₂, h₂⟩ := storeFloating_shows set fs _ _ h₁.valid h₁.node
    refine ⟨v :: ws, s₂, ?_, h₁.append hset h₁.node h₂⟩
    rw [storeFloating, storing_bind hrun₁]
    exact hrun₂

end

/-! ## Reading back -/

/-- A definition is read as the view that shows it. -/
lemma ShowsDefinition.defines {n : Nat} {d : PlacedDefinitionView} (h : ShowsDefinition P s d)
    (hread : ∀ v ∈ d.value, s.readFormula .whole n v.key = .ok v.keyed) :
    Defines s .whole n d.key d.keyed := by
  obtain ⟨node, hnode, hname, hvalue, -⟩ := h.node
  obtain ⟨⟨key, span⟩, name, _ | v⟩ := d
  · have hunbound : Defines s .whole n key (.node key node.name none) := .unbound hnode hvalue
    rwa [hname] at hunbound
  · have hbound : Defines s .whole n key (.node key node.name (some v.keyed)) :=
      .bound hnode hvalue (hread v rfl)
    rwa [hname] at hbound

/-- A set is read as the view that shows it, if its formulas are. -/
lemma ShowsSet.readSet {n : Nat} {set : PlacedSetView} (h : ShowsSet P s set)
    (hread : ∀ v ∈ set.formulas, s.readFormula .whole n v.key = .ok v.keyed) :
    s.readSet .whole (n + 1) set.note = .ok set.keyed := by
  obtain ⟨node, hnode, hdefinitions, hfloating⟩ := h.node
  obtain ⟨key, ds, floating⟩ := set
  have hds := h.definitions
  refine readSet_eq_ok_iff.mpr ⟨node, ds.map Definition.keyed, floating.map Formula.keyed, hnode,
    ?_, ?_, ?_⟩
  · rw [DefinitionSet.keyed, DefinitionSet.mapNotes_eq_mapWith]
    rfl
  · rw [hdefinitions, List.forall₂_map_left_iff, List.forall₂_map_right_iff,
      DefinitionSet.definitions, List.forall₂_same]
    exact fun d hd => (hds d hd).defines fun v hv =>
      hread v (DefinitionSet.mem_formulas_of_value hd hv)
  · rw [if_pos rfl, hfloating, List.forall₂_map_left_iff, List.forall₂_map_right_iff,
      DefinitionSet.floating, List.forall₂_same]
    exact fun v hv => hread v (DefinitionSet.mem_formulas_of_floating hv)

/-- Formulas that can be read to some depth each can be read to one depth. -/
lemma exists_depth {vs : List PlacedView}
    (h : ∀ v ∈ vs, ∃ n, s.readFormula .whole n v.key = .ok v.keyed) :
    ∃ n, ∀ v ∈ vs, s.readFormula .whole n v.key = .ok v.keyed := by
  induction vs with
  | nil => exact ⟨0, fun _ hv => by cases hv⟩
  | cons v vs ih =>
    rw [List.forall_mem_cons] at h
    obtain ⟨n, hn⟩ := h.1
    obtain ⟨m, hm⟩ := ih h.2
    refine ⟨max n m, List.forall_mem_cons.mpr ⟨?_, fun w hw => ?_⟩⟩
    · exact (read_mono (Nat.le_max_left n m)).1 _ _ hn
    · exact (read_mono (Nat.le_max_right n m)).1 _ _ (hm w hw)

/-- A formula is read as the view that shows it. -/
lemma exists_readFormula_of_shows {v : PlacedView} (h : v.Throughout (Shows P s)) :
    ∃ n, s.readFormula .whole n v.key = .ok v.keyed := by
  induction h with
  | @intro note shape here _ ih =>
    obtain ⟨n, hread⟩ := exists_depth ih
    obtain ⟨node, hnode, hshape, -⟩ := here.node
    refine ⟨n + 2, readFormula_eq_ok_iff.mpr ⟨node, shape.map Formula.keyed DefinitionSet.keyed,
      hnode, Formula.mapNotes_node _ _ _ _ _, ?_⟩⟩
    rw [Extent.shape, if_pos rfl, hshape]
    refine Shape.related_map (fun v hv => ?_) fun ps body hbody => ?_
    · exact (read_mono (Nat.le_succ n)).1 _ _ (hread v hv)
    · obtain rfl : shape = .closure ps body := hbody
      exact (here.body ps body rfl).readSet hread

/-- A program that was stored is there with all its parts in their places: the store shows it, and
what is read from the store is what is shown. -/
theorem exists_placedView_ofProgram (program : DefinitionSet.Placed) :
    ∃ t : PlacedSetView, (ofProgram program).view .whole = .ok t.keyed ∧ t.placed = program ∧
      ShowsSet (fun _ => True) (ofProgram program) t ∧
        t.Throughout (Shows (fun _ => True) (ofProgram program)) := by
  have hroot : empty.sets.get? empty.root = some SetNode.empty := by
    show (noSets.insert _).get? _ = _
    rw [Slots.get?_insert (show noSets.Valid from Slots.valid_empty)]
    exact Function.update_self _ _ _
  obtain ⟨vs, ws, s, hrun, h⟩ := storeSet_shows empty.root program _ _ sound_empty.valid hroot
  have hstore : ofProgram program = s := by rw [ofProgram, hrun]
  have hnew : ∀ n, New empty n → True ∧ n ∉ (none : Option NodeKey) :=
    fun n _ => ⟨trivial, by simp⟩
  have hshows : ShowsSet (fun _ => True) s (.node empty.root vs ws) :=
    ⟨trivial, ⟨_, h.node, rfl, rfl⟩, fun d hd => (h.definitions d hd).keep (.refl s none) hnew⟩
  obtain ⟨n, hread⟩ := exists_depth fun f hf => exists_readFormula_of_shows (h.shows f hf)
  obtain ⟨w, hw⟩ := exists_view (sound_ofProgram program).consistent .whole
  have hsame : s.readSet .whole (s.size + 1) empty.root = .ok w := by
    obtain ⟨ks, hgrows, -⟩ := ofProgram_grows program
    rw [← hgrows.root_eq, ← hstore]
    exact hw
  refine ⟨.node empty.root vs ws, ?_, h.placed_eq, hstore ▸ hshows, fun f hf => ?_⟩
  · rw [hw, readSet_unique hsame (hshows.readSet hread)]
  · rw [hstore]
    have hshown := h.shows f hf
    clear hf
    induction hshown with
    | intro here _ ih => exact .intro (here.keep (.refl s none) hnew) ih

/-- A program that was stored is there as it was. -/
theorem exists_view_ofProgram (program : DefinitionSet.Placed) :
    ∃ v, (ofProgram program).view .whole = .ok v ∧ v.bare = program.bare := by
  obtain ⟨t, hview, hplaced, -⟩ := exists_placedView_ofProgram program
  refine ⟨t.keyed, hview, ?_⟩
  rw [← hplaced, DefinitionSet.keyed, DefinitionSet.placed, DefinitionSet.bare_mapNotes,
    DefinitionSet.bare_mapNotes]

end Store

end Formulary
