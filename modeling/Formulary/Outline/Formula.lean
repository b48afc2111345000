/-
# Outlines of programs

The structure of a program is shown by outlining its snapshot.  Where empty parts are not
shown, the formulas without a name are left out of a set that has none.
-/
import Formulary.Formula.Snapshot
import Formulary.Outline.Basic

namespace Formulary

mutual

/-- A written value, entry by entry. -/
def Matrix.outline : Matrix → Outline
  | .null => .word "Null"
  | .bool value => .wrapped "Bool" (.bool value)
  | .number value => .wrapped "Number" (.number value)
  | .text value => .wrapped "String" (.text value)
  | .array entries => .wrapped "Array" (.list (Matrix.outlines entries))

/-- Written values, one by one. -/
def Matrix.outlines : List Matrix → List Outline
  | [] => []
  | m :: ms => m.outline :: Matrix.outlines ms

end

variable {ε δ σ : Type}

mutual

/-- A formula, part by part. -/
def Formula.outline (showsEmpty : Bool) : Formula ε δ σ → Outline
  | .node _ shape => Shape.outline showsEmpty shape

/-- A formula given by its first layer. -/
def Shape.outline (showsEmpty : Bool) :
    Shape (Formula ε δ σ) (DefinitionSet ε δ σ) → Outline
  | .null => .word "Null"
  | .bool value => .wrapped "Bool" (.bool value)
  | .number value => .wrapped "Number" (.number value)
  | .text value => .wrapped "String" (.text value)
  | .name n => .wrapped "Ref" (.text n)
  | .call callee arguments =>
    .record true "Call"
      [("func", callee.outline showsEmpty),
        ("args", .list (Formula.outlines showsEmpty arguments))]
  | .list items => .wrapped "List" (.list (Formula.outlines showsEmpty items))
  | .matrix value => .wrapped "Matrix" value.outline
  | .closure parameters body =>
    .record true "FnDef"
      [("params", .list (parameters.map Outline.text)), ("body", body.outline showsEmpty)]
  | .switch cases => .wrapped "Switch" (.list (Case.outlines showsEmpty cases))

/-- Formulas, one by one. -/
def Formula.outlines (showsEmpty : Bool) : List (Formula ε δ σ) → List Outline
  | [] => []
  | f :: fs => f.outline showsEmpty :: Formula.outlines showsEmpty fs

/-- Cases, one by one. -/
def Case.outlines (showsEmpty : Bool) : List (Case (Formula ε δ σ)) → List Outline
  | [] => []
  | .when condition value :: cases =>
    .record false "MatchDump"
        [("cond", .option (some (condition.outline showsEmpty))),
          ("value", value.outline showsEmpty)] ::
      Case.outlines showsEmpty cases
  | .otherwise value :: cases =>
    .record false "MatchDump"
        [("cond", .option none), ("value", value.outline showsEmpty)] ::
      Case.outlines showsEmpty cases

/-- Definitions, one by one. -/
def Definition.outlines (showsEmpty : Bool) : List (Definition ε δ σ) → List Outline
  | [] => []
  | .node _ name none :: ds =>
    .record false "DefDump" [("name", .text name), ("expr", .option none)] ::
      Definition.outlines showsEmpty ds
  | .node _ name (some value) :: ds =>
    .record false "DefDump"
        [("name", .text name), ("expr", .option (some (value.outline showsEmpty)))] ::
      Definition.outlines showsEmpty ds

/-- A set of definitions, part by part. -/
def DefinitionSet.outline (showsEmpty : Bool) : DefinitionSet ε δ σ → Outline
  | .node _ definitions floating =>
    let unnamed := Formula.outlines showsEmpty floating
    .record false "DefsDump"
      (("defs", .list (Definition.outlines showsEmpty definitions)) ::
        if unnamed.isEmpty && !showsEmpty then [] else [("floating", .list unnamed)])

end

end Formulary
