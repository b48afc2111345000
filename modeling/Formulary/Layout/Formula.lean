/-
# Written programs

A program is written with one definition per line.  Every formula becomes a fragment of text
that remembers how tightly it binds, and whatever encloses it puts parentheses around it only if
it binds looser than its place requires.  Definitions local to a closure and the cases of a
switch stand on lines of their own, indented by their depth.
-/
import Formulary.Layout.Literal
import Formulary.Operator

namespace Formulary.Layout

open Word

/-! ## Fragments -/

/-- How tightly a fragment binds, from the loosest to the tightest. -/
inductive Binding where
  /-- It has several lines and goes on to the end of the last one. -/
  | multiline
  /-- It can be an argument or an item of a list. -/
  | argument
  /-- It is an operation of a tier. -/
  | operation (tier : Tier)
  /-- It is an operand with a minus in front of it. -/
  | sign
  /-- It never needs parentheses. -/
  | atomic
deriving DecidableEq, Repr

/-- The number of looser bindings. -/
def Binding.tightness : Binding → Nat
  | multiline => 0
  | argument => 1
  | operation tier => tier.tightness + 2
  | sign => 13
  | atomic => 14

/-- The looser of two bindings. -/
def Binding.looser (a b : Binding) : Binding := if a.tightness ≤ b.tightness then a else b

/-- A written formula. -/
structure Fragment where
  /-- The text. -/
  text : String
  /-- How tightly it binds. -/
  binding : Binding
deriving Repr

/-- A fragment that never needs parentheses. -/
def atom (text : String) : Fragment := ⟨text, .atomic⟩

/-- The text of a fragment, in parentheses if it binds looser than required. -/
def Fragment.within (f : Fragment) (required : Binding) : String :=
  if f.binding.tightness < required.tightness then s!"({f.text})" else f.text

/-- The beginning of a line at a depth. -/
def indent (depth : Nat) : String := String.ofList (List.replicate (2 * depth) ' ')

/-- A line break and the beginning of the next line. -/
def newLine (depth : Nat) : String := "\n" ++ indent depth

/-- The line of a definition; a name without a formula stands for null. -/
def definitionLine (n : String) (value : Option Fragment) : String :=
  name n ++ " = " ++ (value.map Fragment.text).getD "null"

/-! ## Calls -/

variable {ε δ σ : Type}

/-- Whether a formula is a number that is zero. -/
def isZero : Formula ε δ σ → Bool
  | .node _ (.number value) => value.isZero
  | _ => false

/-- Whether a formula is a number. -/
def isNumber : Formula ε δ σ → Bool
  | .node _ (.number _) => true
  | _ => false

/-- The arguments of a call, or the items of a list. -/
def argumentList (fragments : List Fragment) : String :=
  commaSeparated (fragments.map (·.within .argument))

/-- A subtraction from zero, written as a minus in front of the operand.  A number stands in
parentheses, since the minus would be read as a part of it. -/
def negation (operand : Formula ε δ σ) (fragment : Fragment) : Fragment :=
  let text := if isNumber operand then s!"({fragment.text})" else fragment.within .atomic
  ⟨s!"-{text}", .sign⟩

/-- What the right operand of an operator of a tier requires, as operators group to the left. -/
def rightRequirement (tier : Tier) : Binding :=
  match tier.tighter with
  | some tighter => .operation tighter
  | none => .sign

/-- An operation on two operands. -/
def operation (operator : String) (left right : Fragment) : Fragment :=
  let tier := Tier.ofOperator operator
  ⟨s!"{left.within (.operation tier)} {operator} {right.within (rightRequirement tier)}",
    .operation tier⟩

/-- A call of a name. -/
def callOfName (n : String) (arguments : List (Formula ε δ σ)) (fragments : List Fragment) :
    Fragment :=
  match arguments, fragments with
  | [first, second], [left, right] =>
    if n = "-" && isZero first then negation second right
    else if isOperator n then operation n left right
    else atom s!"{name n}({argumentList fragments})"
  | _, _ => atom s!"{name n}({argumentList fragments})"

/-- A call, of which the callee and the arguments are written already. -/
def call (callee : Formula ε δ σ) (arguments : List (Formula ε δ σ)) (fragment : Fragment)
    (fragments : List Fragment) : Fragment :=
  match callee with
  | .node _ (.name n) => callOfName n arguments fragments
  | _ => atom s!"({fragment.text})({argumentList fragments})"

/-! ## Closures and switches -/

/-- The parameters of a closure; a single one needs no parentheses. -/
def parameterList : List String → String
  | [parameter] => name parameter
  | parameters => s!"({commaSeparated (parameters.map name)})"

/-- A definition whose formula can be written at any depth. -/
abbrev Written := String × Option (Nat → Fragment)

/-- The result among the definitions of a closure, the first one of its name, and the others. -/
def splitResult : List Written → Option Written × List Written
  | [] => (none, [])
  | d :: ds =>
    if d.1 = resultName then (some d, ds)
    else
      let (result, others) := splitResult ds
      (result, d :: others)

/-- A closure.  If other definitions follow the result, it is written in parentheses unless it
is an operation or tighter, since they would be read as those of a closure in it. -/
def closure (parameters : List String) (definitions : List Written) (depth : Nat) : Fragment :=
  let (result, others) := splitResult definitions
  let result := (result.bind (·.2)).map (· depth)
  let head := s!"{parameterList parameters} -> "
  if others.isEmpty then
    match result with
    | some fragment => ⟨head ++ fragment.text, fragment.binding.looser .argument⟩
    | none => ⟨head ++ "null", .argument⟩
  else
    let result := (result.map (·.within (.operation .custom))).getD "null"
    let line (d : Written) := newLine (depth + 1) ++ definitionLine d.1 (d.2.map (· (depth + 1)))
    ⟨head ++ result ++ " where" ++ String.join (others.map line), .multiline⟩

/-- A switch, of which the cases are written already. -/
def switch (cases : List String) (depth : Nat) : Fragment :=
  if cases.isEmpty then atom "switch \x7b\x7d"
  else ⟨"switch" ++ String.join (cases.map (newLine (depth + 1) ++ ·)), .multiline⟩

/-! ## Formulas -/

mutual

/-- A formula at a depth. -/
def formula : Formula ε δ σ → Nat → Fragment
  | .node _ s => shape s

/-- A formula given by its first layer. -/
def shape : Shape (Formula ε δ σ) (DefinitionSet ε δ σ) → Nat → Fragment
  | .null => fun _ => atom "null"
  | .bool value => fun _ => atom (bool value)
  | .number value => fun _ => atom (number value)
  | .text value => fun _ => atom (text value)
  | .name n => fun _ => atom (name n)
  | .matrix value => fun _ => atom (matrix value)
  | .list items => fun depth => atom s!"[{argumentList (formulas items depth)}]"
  | .call callee arguments => fun depth =>
    call callee arguments (formula callee depth) (formulas arguments depth)
  | .closure parameters body => fun depth => closure parameters (definitionSet body) depth
  | .switch cases => fun depth => switch (caseLines cases (depth + 1)) depth

/-- Formulas at a depth, one by one. -/
def formulas : List (Formula ε δ σ) → Nat → List Fragment
  | [] => fun _ => []
  | f :: fs => fun depth => formula f depth :: formulas fs depth

/-- The cases of a switch.  Those after the first one without a condition are not written. -/
def caseLines : List (Case (Formula ε δ σ)) → Nat → List String
  | [] => fun _ => []
  | .when condition value :: cases => fun depth =>
    s!"{(formula condition depth).within .argument} => {(formula value depth).text}" ::
      caseLines cases depth
  | .otherwise value :: _ => fun depth => [s!"otherwise {(formula value depth).text}"]

/-- The definitions of a set. -/
def definitionSet : DefinitionSet ε δ σ → List Written
  | .node _ ds _ => definitions ds

/-- Definitions, one by one. -/
def definitions : List (Definition ε δ σ) → List Written
  | [] => []
  | .node _ n none :: ds => (n, none) :: definitions ds
  | .node _ n (some value) :: ds => (n, some (formula value)) :: definitions ds

end

/-! ## Programs -/

/-- The lines of a set of definitions that is not inside of anything. -/
def lines (set : DefinitionSet ε δ σ) : List String :=
  (definitionSet set).map fun d => definitionLine d.1 (d.2.map (· 0))

/-- A set of definitions that is not inside of anything. -/
def set (set : DefinitionSet ε δ σ) : String := "\n".intercalate (lines set)

/-- A program: every definition ends its line. -/
def program (set : DefinitionSet ε δ σ) : String := String.join ((lines set).map (· ++ "\n"))

/-- A formula that is not inside of anything. -/
def standalone (f : Formula ε δ σ) : String := (formula f 0).text

end Formulary.Layout
