/-
# What a written formula says

Writing a formula does not keep everything.  Numbers that are not finite turn into names, lists
of literals into matrices, names without a formula into nulls; the zero in front of a minus loses
its sign, the result of a closure moves in front of the other definitions, formulas without a name
and cases after one without a condition are dropped.  A minus right in front of a number among the
matrices becomes the sign of that number.  What is left is the formula that the text says.
-/
import Formulary.Proofs.Formula.Bare
import Formulary.Store.View

namespace Formulary

open Layout

/-- A minus in front of a formula. -/
def Formula.minus (f : Formula.Bare) : Formula.Bare :=
  .node () (.call (.node () (.name "-")) [.node () (.number Binary64.zero), f])

/-- The formula that a written number says. -/
def Binary64.reread (x : Binary64) : Formula.Bare :=
  if x.isFinite then .node () (.number x)
  else if x.isNaN then .node () (.name "NaN")
  else if x.negative then Formula.minus (.node () (.name "inf"))
  else .node () (.name "inf")

/-- The definitions of a closure with the first one that holds a result in front. -/
def Definition.resultFirst (ds : List Definition.Bare) : List Definition.Bare :=
  let isResult (d : Definition.Bare) := d.name == resultName
  (ds.find? isResult).getD (.node () resultName (some (.node () .null))) :: ds.eraseP isResult

variable {ε δ σ : Type}

/-- Whether a call is written as a minus in front of an operand. -/
def Formula.isNegation (callee : Formula ε δ σ) (arguments : List (Formula ε δ σ)) : Bool :=
  match callee, arguments with
  | .node _ (.name n), [first, _] => n == "-" && isZero first
  | _, _ => false

/-- The number with the other sign. -/
def Binary64.opposite (x : Binary64) : Binary64 := { x with negative := !x.negative }

/-- The number that a minus is glued to: an operand that is a number among the matrices, finite
and without a sign of its own. -/
def Formula.glued? (callee : Formula ε δ σ) (arguments : List (Formula ε δ σ)) : Option Binary64 :=
  match callee, arguments with
  | .node _ (.name n), [first, .node _ (.matrix (.number x))] =>
    if n == "-" && isZero first && x.isFinite && !x.negative then some x else none
  | _, _ => none

/-- The arguments of a call that is written as a minus lose the sign of the zero. -/
def Formula.rereadArguments (negation : Bool) (arguments : List Formula.Bare) : List Formula.Bare :=
  if negation then .node () (.number Binary64.zero) :: arguments.tail else arguments

mutual

/-- The formula that a value says that is written out in full. -/
def Matrix.reread : Matrix → Formula.Bare
  | .null => .node () .null
  | .bool value => .node () (.bool value)
  | .number value => value.reread
  | .text value => .node () (.text value)
  | .array entries => Formula.ofItems () (Matrix.rereads entries)

/-- The formulas that written values say, one by one. -/
def Matrix.rereads : List Matrix → List Formula.Bare
  | [] => []
  | m :: ms => m.reread :: Matrix.rereads ms

end

mutual

/-- The formula that a written formula says. -/
def Formula.reread : Formula ε δ σ → Formula.Bare
  | .node _ shape => Shape.reread shape

/-- The formula that a written first layer says. -/
def Shape.reread : Shape (Formula ε δ σ) (DefinitionSet ε δ σ) → Formula.Bare
  | .null => .node () .null
  | .bool value => .node () (.bool value)
  | .number value => value.reread
  | .text value => .node () (.text value)
  | .name name => .node () (.name name)
  | .call callee arguments =>
    match Formula.glued? callee arguments with
    | some x => .node () (.number x.opposite)
    | none => .node () (.call callee.reread (Formula.rereadArguments
        (Formula.isNegation callee arguments) (Formula.rereads arguments)))
  | .list items => Formula.ofItems () (Formula.rereads items)
  | .matrix value => value.reread
  | .closure parameters body => .node () (.closure parameters
      (.node () (Definition.resultFirst (DefinitionSet.rereads body)) []))
  | .switch cases => .node () (.switch (Case.rereads cases))

/-- The formulas that written formulas say, one by one. -/
def Formula.rereads : List (Formula ε δ σ) → List Formula.Bare
  | [] => []
  | f :: fs => f.reread :: Formula.rereads fs

/-- The cases that the written cases of a switch say. -/
def Case.rereads : List (Case (Formula ε δ σ)) → List (Case Formula.Bare)
  | [] => []
  | .when condition value :: cases => .when condition.reread value.reread :: Case.rereads cases
  | .otherwise value :: _ => [.otherwise value.reread]

/-- The definitions that the written definitions of a set say. -/
def DefinitionSet.rereads : DefinitionSet ε δ σ → List Definition.Bare
  | .node _ ds _ => Definition.rereads ds

/-- The definitions that written definitions say, one by one. -/
def Definition.rereads : List (Definition ε δ σ) → List Definition.Bare
  | [] => []
  | .node _ n none :: ds => .node () n (some (.node () .null)) :: Definition.rereads ds
  | .node _ n (some value) :: ds => .node () n (some value.reread) :: Definition.rereads ds

end

/-- The set that a written set says. -/
def DefinitionSet.reread (set : DefinitionSet ε δ σ) : DefinitionSet.Bare :=
  .node () set.rereads []

/-- What a minus is glued to it stands in front of. -/
lemma Formula.glued?_eq_none {callee : Formula ε δ σ} {arguments : List (Formula ε δ σ)}
    (h : Formula.isNegation callee arguments = false) :
    Formula.glued? callee arguments = none := by
  unfold Formula.glued?
  split
  · rename_i n first _ x
    have hneg : (n == "-" && isZero first) = false := h
    simp [hneg]
  · rfl

/-! ## One by one -/

/-- The definition that a written definition says. -/
def Definition.reread : Definition ε δ σ → Definition.Bare
  | .node _ n value => .node () n (some ((value.map Formula.reread).getD (.node () .null)))

lemma Matrix.rereads_eq_map (ms : List Matrix) : Matrix.rereads ms = ms.map Matrix.reread := by
  induction ms with
  | nil => rw [Matrix.rereads, List.map_nil]
  | cons m ms ih => rw [Matrix.rereads, List.map_cons, ih]

lemma Formula.rereads_eq_map (fs : List (Formula ε δ σ)) :
    Formula.rereads fs = fs.map Formula.reread := by
  induction fs with
  | nil => rw [Formula.rereads, List.map_nil]
  | cons f fs ih => rw [Formula.rereads, List.map_cons, ih]

lemma Case.rereads_eq_map (cs : List (Case (Formula ε δ σ))) :
    Case.rereads cs = (Case.upToOtherwise cs).map (Case.map Formula.reread) := by
  induction cs with
  | nil => rw [Case.rereads, Case.upToOtherwise, List.map_nil]
  | cons c cs ih =>
    cases c with
    | when condition value =>
      rw [Case.rereads, Case.upToOtherwise, List.map_cons, ih, Case.map]
    | otherwise value => rw [Case.rereads, Case.upToOtherwise, List.map_singleton, Case.map]

lemma Definition.rereads_eq_map (ds : List (Definition ε δ σ)) :
    Definition.rereads ds = ds.map Definition.reread := by
  induction ds with
  | nil => rw [Definition.rereads, List.map_nil]
  | cons d ds ih =>
    obtain ⟨note, n, _ | value⟩ := d <;>
      rw [Definition.rereads, List.map_cons, ih, Definition.reread] <;> rfl

/-! ## Texts -/

mutual

/-- The texts in a value that is written out in full. -/
def Matrix.texts : Matrix → List String
  | .text value => [value]
  | .array entries => Matrix.textsOf entries
  | .null | .bool _ | .number _ => []

/-- The texts in values that are written out in full. -/
def Matrix.textsOf : List Matrix → List String
  | [] => []
  | m :: ms => m.texts ++ Matrix.textsOf ms

end

/-- The texts that a formula holds itself, not those of the formulas in it. -/
def Formula.texts : Formula ε δ σ → List String
  | .node _ (.text value) => [value]
  | .node _ (.matrix value) => value.texts
  | _ => []

/-- None of the texts that a formula holds itself contains a quote. -/
def Formula.Unquoted (f : Formula ε δ σ) : Prop := ∀ v ∈ f.texts, '"' ∉ v.toList

instance : DecidablePred (Formula.Unquoted : Formula ε δ σ → Prop) := fun f =>
  inferInstanceAs (Decidable (∀ v ∈ f.texts, '"' ∉ v.toList))

end Formulary
