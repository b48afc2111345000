/-
# Grammar

How formulas and definitions are read from tokens.

* A formula is a closure or a chain of operands and infix operators.
* An operand is a literal, a switch, a list, or a name or a formula in parentheses applied to
  any number of argument lists; a minus may stand in front of it.
* A closure is a parameter, or a list of them, an arrow and a formula, perhaps followed by a
  `where` and further definitions.
* A switch is followed by its cases, in a block or, if the only case has no condition, on the
  same line.
* A definition is a name, an equals sign and a formula.  Definitions are separated by line
  breaks.

All rules take the rule for formulas as an argument; `formula` ties the knot by the number of
tokens to come.
-/
import Formulary.Formula.Placed
import Formulary.Number.Decimal
import Formulary.Parsing.Combinators
import Formulary.Token.Basic

namespace Formulary.Grammar

open Text Word Parsing

/-! ## Tokens -/

/-- The bare word `w`. -/
def word (w : String) : Parser Token (Located Token) :=
  satisfying s!"`{w}`" (Token.isWord w)

/-- The operator characters `s`. -/
def symbol (s : String) : Parser Token (Located Token) :=
  satisfying s!"`{s}`" (Token.isOperator s)

/-- White space within a line, or nothing. -/
def space : Parser Token Unit := do
  let _ ← many (satisfying "whitespace" Token.isSpace)

/-- White space, or nothing. -/
def gap : Parser Token Unit := do
  let _ ← many (satisfying "whitespace" Token.isGap)

/-- White space with a line break. -/
def lineBreak : Parser Token Unit := do
  space
  let _ ← satisfying "a line break" Token.isLineBreak
  gap

/-- A comma with white space around it. -/
def comma : Parser Token Unit := do
  gap
  let _ ← satisfying "`,`" Token.isComma
  gap

/-- Passes a group of an accepted kind; gives a cursor at the beginning of its contents. -/
def groupOf (what : String) (accepts : GroupKind → Bool) : Parser Token (Cursor Token) :=
  fun c =>
    match c.rest with
    | ⟨.group kind tokens, span⟩ :: rest =>
      if accepts kind then .ok (Cursor.before tokens span) (c.pass ⟨.group kind tokens, span⟩ rest)
      else expected what c
    | _ => expected what c

/-- A group in parentheses. -/
def parens : Parser Token (Cursor Token) :=
  groupOf "`(...)`" (· == .parens)

/-- An indented block or a group in braces, after white space within the line. -/
def block : Parser Token (Cursor Token) := do
  space
  groupOf "an indented block or `\x7b...\x7d`" fun kind => kind == .indented || kind == .braces

/-- Elements separated by commas, with white space around them. -/
def commaList {α : Type} (element : Parser Token α) : Parser Token (List α) := do
  gap
  let elements ← separated (optional element) comma
  gap
  return elements

/-! ## Names and literals -/

/-- A name that is not reserved, or a quoted one. -/
def name : Parser Token String := fun c =>
  match c.rest with
  | ⟨.ident name raw, span⟩ :: rest =>
    if !raw && isReserved name then
      failHere s!"`{name}` is reserved and cannot be used as a name" c
    else .ok name (c.pass ⟨.ident name raw, span⟩ rest)
  | _ => expected "an identifier" c

/-- The number that is written with the given digits before and after the point. -/
def numberValue (span : Span) (whole : String) (fraction : Option String) :
    Except Failure Binary64 :=
  match Binary64.read? (whole.toList ++ '.' :: (fraction.getD "0").toList) with
  | none =>
    .error (Failure.because span "invalid number literal: invalid float literal")
  | some value =>
    if value.isFinite then .ok value
    else .error (Failure.because span "number literal out of range").toFatal

/-- A number has the value that its digits stand for, wherever it is written. -/
theorem numberValue_eq_ok_iff {span : Span} {whole : String} {fraction : Option String}
    {x : Binary64} : numberValue span whole fraction = .ok x ↔
      Binary64.read? (whole.toList ++ '.' :: (fraction.getD "0").toList) = some x ∧
        x.isFinite = true := by
  rw [numberValue]
  split
  · rename_i hnone
    simp [hnone]
  · rename_i value hsome
    rw [hsome]
    split
    · rename_i hfinite
      constructor
      · rintro ⟨⟩
        exact ⟨rfl, hfinite⟩
      · rintro ⟨⟨⟩, -⟩
        rfl
    · rename_i hinfinite
      exact ⟨fun h => (by cases h), fun ⟨h, hx⟩ => absurd (Option.some.inj h ▸ hx) hinfinite⟩

/-- The first layer of the formula that a token is a literal for. -/
def literalShape? (token : Located Token) :
    Option (Except Failure (Shape Formula.Placed DefinitionSet.Placed)) :=
  match token.value with
  | .null => some (.ok .null)
  | .bool value => some (.ok (.bool value))
  | .number whole fraction => some (.number <$> numberValue token.span whole fraction)
  | .text value => some (.ok (.text value))
  | _ => none

/-- A value that is written as a single token. -/
def literal : Parser Token Formula.Placed := do
  let token ← peek
  match literalShape? token with
  | none => expected "a literal"
  | some (.error f) => throw f
  | some (.ok shape) =>
    let _ ← next
    return .node token.span shape

/-- A name that stands for a formula. -/
def reference : Parser Token Formula.Placed := do
  let span := (← get).span
  return .node span (.name (← name))

/-- An operator that can stand between two operands. -/
def infixOperator : Parser Token (Located String) := fun c =>
  match c.rest with
  | ⟨.operator symbol, span⟩ :: rest =>
    if Word.isOperator symbol then
      .ok ⟨symbol, span⟩ (c.pass ⟨.operator symbol, span⟩ rest)
    else expected "an infix operator" c
  | _ => expected "an infix operator" c

/-- A parameter, or a list of parameters in parentheses. -/
def parameters : Parser Token (List String) :=
  choice
    [ do return [← name],
      do within (← parens) (commaList name) ]

section Rules

variable (formula : Parser Token Formula.Placed)

/-! ## Operands -/

/-- The arguments of a call. -/
def arguments : Parser Token (List Formula.Placed) := do
  within (← parens) (commaList formula)

/-- A formula in parentheses. -/
def parenthesized : Parser Token Formula.Placed := do
  within (← parens) do
    gap
    let inner ← formula
    gap
    return inner

/-- A further argument list of a call, with the position right after it. -/
def application : Parser Token (Option ((List Formula.Placed × Position) × Bool)) := do
  let list ← optional do
    space
    arguments formula
  match list with
  | none => return none
  | some list => return some ((list, (← get).previousEnd), true)

/-- A name or a formula in parentheses, applied to any number of argument lists. -/
def call : Parser Token Formula.Placed := do
  let start := (← get).position
  let callee ← choice [reference, parenthesized formula]
  let lists ← collect (application formula)
  return lists.foldl (fun f (list, stop) => .node ⟨start, stop⟩ (.call f list)) callee

/-- A list in brackets. -/
def list : Parser Token Formula.Placed := do
  let span := (← get).span
  let contents ← groupOf "`[...]`" (· == .brackets)
  let items ← within contents (commaList formula)
  return Formula.ofItems ((← get).spanFrom span) items

/-- A case without a condition. -/
def otherwiseCase : Parser Token (Case Formula.Placed) := do
  let _ ← word "otherwise"
  gap
  return .otherwise (← formula)

/-- A case with a condition. -/
def whenCase : Parser Token (Case Formula.Placed) := do
  let condition ← notAhead (word "otherwise") formula
  gap
  let _ ← symbol doubleArrow
  gap
  return .when condition (← formula)

/-- The next case, unless the block is at its end. -/
def nextCase : Parser Token (Option (Case Formula.Placed)) := do
  if (← get).atEnd then return none
  return some (← choice [otherwiseCase formula, whenCase formula])

/-- The cases of a block, separated by commas or line breaks. -/
def cases : Parser Token (List (Case Formula.Placed)) := do
  gap
  let cases ← separated (nextCase formula) (choice [comma, lineBreak])
  gap
  return cases

/-- A switch with its cases. -/
def switch : Parser Token Formula.Placed := do
  let span := (← get).span
  let _ ← word "switch"
  let cases ← choice
    [ do within (← block) (cases formula),
      do
        space
        return [← otherwiseCase formula] ]
  return .node ((← get).spanFrom span) (.switch cases)

/-- An operand without a sign. -/
def primary : Parser Token Formula.Placed :=
  choice [literal, switch formula, call formula, list formula]

/-- An operand with a minus in front of it. -/
def negation : Parser Token Formula.Placed := do
  let minus ← symbol "-"
  let operand ← primary formula
  return Formula.negation minus.span operand

/-- An operand. -/
def operand : Parser Token Formula.Placed :=
  choice [negation formula, primary formula]

/-! ## Chains and closures -/

/-- An operator and its right operand.  A line may end after the operator but not before it. -/
def operation : Parser Token (List (Link Formula.Placed)) := do
  space
  let operator ← infixOperator
  gap
  let right ← operand formula
  return [.operator operator, .operand right]

/-- Operands with operators between them. -/
def chain : Parser Token Formula.Placed := do
  let first ← operand formula
  match ← many (operation formula) with
  | [] => return first
  | rest => liftExcept (Formula.joining.fold (.operand first :: rest.flatten))
where
  /-- Fails where the result is a failure. -/
  liftExcept {α : Type} : Except Failure α → Parser Token α
    | .ok a => return a
    | .error f => throw f

/-- A definition. -/
def definition : Parser Token Definition.Placed := do
  let span := (← get).span
  let name ← name
  gap
  let _ ← symbol equalsSign
  gap
  let value ← formula
  return .node ((← get).spanFrom span) name (some value)

/-- Definitions on lines of their own, with white space around them. -/
def definitions : Parser Token (List Definition.Placed) := do
  gap
  let ds ← separated (optional (definition formula)) lineBreak
  gap
  return ds

/-- The definitions that a closure brings along. -/
def whereClause : Parser Token (List Definition.Placed) := do
  space
  let _ ← word "where"
  choice
    [ do within (← block) (definitions formula),
      do
        space
        return [← definition formula] ]

/-- A closure. -/
def closure : Parser Token Formula.Placed := do
  let span := (← get).span
  let parameters ← parameters
  gap
  let _ ← symbol arrow
  gap
  let result ← formula
  let locals ← optional (whereClause formula)
  let body := .node result.note resultName (some result) :: locals.getD []
  return .node ((← get).spanFrom span)
    (.closure parameters (DefinitionSet.ofDefinitions body))

/-- A closure or a chain. -/
def closureOrChain : Parser Token Formula.Placed :=
  choice [closure formula, chain formula]

end Rules

/-! ## Programs -/

/-- A formula. -/
def formula : Parser Token Formula.Placed :=
  fix (fun c => Token.listWeight c.rest) (fun formula (_ : Unit) => closureOrChain (formula ())) ()

end Grammar

open Text Parsing

/-- The span of a row of tokens. -/
def Token.rowSpan (tokens : List (Located Token)) : Span :=
  match tokens.head?, tokens.getLast? with
  | some first, some last => first.span.hull last.span
  | _, _ => {}

/-- The program that a row of tokens is read as. -/
def DefinitionSet.ofTokens (tokens : List (Located Token)) :
    Except Failure DefinitionSet.Placed :=
  let c := Cursor.before tokens (Token.rowSpan tokens)
  match within c (Grammar.definitions Grammar.formula) c with
  | .ok ds _ => .ok (DefinitionSet.ofDefinitions ds)
  | .error f _ => .error f

end Formulary
