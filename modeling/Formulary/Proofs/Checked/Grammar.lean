/-
# Checked grammar

The rules that read formulas and definitions from tokens, as checked runs.  Each carries out the
rule of the same name, and so does the rule for formulas, which they are given in terms of.  What a
rule looks at besides the tokens is the end of the last token, and the chain that it put together.
-/
import Formulary.Proofs.Checked.Chains
import Formulary.Proofs.Checked.Tokens

namespace Formulary.Checked

open Text Word Parsing
open Tracks (At)

/-! ## Tokens -/

/-- The bare word `w`. -/
def word (w : String) : Run TokenPlace (Located Token) := satisfying s!"`{w}`" (Token.isWord w)

/-- The operator characters `s`. -/
def symbol (s : String) : Run TokenPlace (Located Token) :=
  satisfying s!"`{s}`" (Token.isOperator s)

/-- White space within a line, or nothing. -/
def space : Run TokenPlace Unit := do
  let _ ← many (satisfying "whitespace" Token.isSpace)

/-- White space, or nothing. -/
def gap : Run TokenPlace Unit := do
  let _ ← many (satisfying "whitespace" Token.isGap)

/-- White space with a line break. -/
def lineBreak : Run TokenPlace Unit := do
  space
  let _ ← satisfying "a line break" Token.isLineBreak
  gap

/-- A comma with white space around it. -/
def comma : Run TokenPlace Unit := do
  gap
  let _ ← satisfying "`,`" Token.isComma
  gap

/-- A group in parentheses. -/
def parens : Run TokenPlace TokenPlace := groupOf "`(...)`" (· == .parens)

/-- An indented block or a group in braces, after white space within the line. -/
def block : Run TokenPlace TokenPlace := do
  space
  groupOf "an indented block or `\x7b...\x7d`" fun kind => kind == .indented || kind == .braces

/-- Elements separated by commas, with white space around them. -/
def commaList {α : Type} (element : Run TokenPlace α) : Run TokenPlace (List α) := do
  gap
  let elements ← separated (optional element) comma
  gap
  return elements

/-! ## Names and literals -/

/-- A name that is not reserved, or a quoted one. -/
def name : Run TokenPlace String := do
  match ← look Place.next? with
  | some ⟨.ident name raw, _⟩ =>
    if !raw && isReserved name then
      failHere s!"`{name}` is reserved and cannot be used as a name"
    else
      let _ ← next
      return name
  | _ => expected "an identifier"

/-- A value that is written as a single token. -/
def tokenLiteral : Run TokenPlace Formula.Placed := do
  let token ← peek
  match Grammar.literalShape? token with
  | none => expected "a literal"
  | some (.error f) => fail f
  | some (.ok shape) =>
    let _ ← next
    return .node token.span shape

/-- A name that stands for a formula. -/
def reference : Run TokenPlace Formula.Placed := do
  let s ← span
  return .node s (.name (← name))

/-- An operator that can stand between two operands. -/
def infixOperator : Run TokenPlace (Located String) := do
  match ← look Place.next? with
  | some ⟨.operator symbol, s⟩ =>
    if Word.isOperator symbol then
      let _ ← next
      return ⟨symbol, s⟩
    else expected "an infix operator"
  | _ => expected "an infix operator"

/-- A parameter, or a list of parameters in parentheses. -/
def parameters : Run TokenPlace (List String) :=
  choice
    [ do return [← name],
      do within (← parens) (commaList name) ]

section Rules

variable (formula : Run TokenPlace Formula.Placed)

/-! ## Operands -/

/-- The arguments of a call. -/
def arguments : Run TokenPlace (List Formula.Placed) := do
  within (← parens) (commaList formula)

/-- A formula in parentheses. -/
def parenthesized : Run TokenPlace Formula.Placed := do
  within (← parens) do
    gap
    let inner ← formula
    gap
    return inner

/-- A further argument list of a call, with the position right after it. -/
def application : Run TokenPlace (Option ((List Formula.Placed × Position) × Bool)) := do
  let list ← optional do
    space
    arguments formula
  match list with
  | none => return none
  | some list => return some ((list, ← previousEnd), true)

/-- A name or a formula in parentheses, applied to any number of argument lists. -/
def call : Run TokenPlace Formula.Placed := do
  let start ← position
  let callee ← choice [reference, parenthesized formula]
  let lists ← collect (application formula)
  return lists.foldl (fun f (list, stop) => .node ⟨start, stop⟩ (.call f list)) callee

/-- A list in brackets. -/
def list : Run TokenPlace Formula.Placed := do
  let s ← span
  let contents ← groupOf "`[...]`" (· == .brackets)
  let items ← within contents (commaList formula)
  return Formula.ofItems (← spanFrom s) items

/-- A case without a condition. -/
def otherwiseCase : Run TokenPlace (Case Formula.Placed) := do
  let _ ← word "otherwise"
  gap
  return .otherwise (← formula)

/-- A case with a condition. -/
def whenCase : Run TokenPlace (Case Formula.Placed) := do
  let condition ← notAhead (word "otherwise") formula
  gap
  let _ ← symbol doubleArrow
  gap
  return .when condition (← formula)

/-- The next case, unless the block is at its end. -/
def nextCase : Run TokenPlace (Option (Case Formula.Placed)) := do
  if ← look atEnd then return none
  return some (← choice [otherwiseCase formula, whenCase formula])

/-- The cases of a block, separated by commas or line breaks. -/
def cases : Run TokenPlace (List (Case Formula.Placed)) := do
  gap
  let cases ← separated (nextCase formula) (choice [comma, lineBreak])
  gap
  return cases

/-- A switch with its cases. -/
def switch : Run TokenPlace Formula.Placed := do
  let s ← span
  let _ ← word "switch"
  let cases ← choice
    [ do within (← block) (cases formula),
      do
        space
        return [← otherwiseCase formula] ]
  return .node (← spanFrom s) (.switch cases)

/-- An operand without a sign. -/
def primary : Run TokenPlace Formula.Placed :=
  choice [tokenLiteral, switch formula, call formula, list formula]

/-- An operand with a minus in front of it. -/
def negation : Run TokenPlace Formula.Placed := do
  let minus ← symbol "-"
  let operand ← primary formula
  return Formula.negation minus.span operand

/-- An operand. -/
def operand : Run TokenPlace Formula.Placed := choice [negation formula, primary formula]

/-! ## Chains and closures -/

/-- An operator and its right operand. -/
def operation : Run TokenPlace (List (Link Formula.Placed)) := do
  space
  let operator ← infixOperator
  gap
  let right ← operand formula
  return [.operator operator, .operand right]

/-- Operands with operators between them. -/
def chain : Run TokenPlace Formula.Placed := do
  let first ← operand formula
  match ← many (operation formula) with
  | [] => return first
  | rest => settle (reduce Formula.joining (.operand first :: rest.flatten))

/-- A definition. -/
def definition : Run TokenPlace Definition.Placed := do
  let s ← span
  let name ← name
  gap
  let _ ← symbol equalsSign
  gap
  let value ← formula
  return .node (← spanFrom s) name (some value)

/-- Definitions on lines of their own, with white space around them. -/
def definitions : Run TokenPlace (List Definition.Placed) := do
  gap
  let ds ← separated (optional (definition formula)) lineBreak
  gap
  return ds

/-- The definitions that a closure brings along. -/
def whereClause : Run TokenPlace (List Definition.Placed) := do
  space
  let _ ← word "where"
  choice
    [ do within (← block) (definitions formula),
      do
        space
        return [← definition formula] ]

/-- A closure. -/
def closure : Run TokenPlace Formula.Placed := do
  let s ← span
  let parameters ← parameters
  gap
  let _ ← symbol arrow
  gap
  let result ← formula
  let locals ← optional (whereClause formula)
  let body := .node result.note resultName (some result) :: locals.getD []
  return .node (← spanFrom s) (.closure parameters (DefinitionSet.ofDefinitions body))

/-- A closure or a chain. -/
def closureOrChain : Run TokenPlace Formula.Placed := choice [closure formula, chain formula]

end Rules

/-- A formula. -/
def formula : Run TokenPlace Formula.Placed :=
  fix (fun k => Token.listWeight (k.tokens.drop k.index))
    (fun formula (_ : Unit) => closureOrChain (formula ())) ()

/-! ## What carries out what -/

lemma carriesOut_word (w : String) : CarriesOut (word w) (Grammar.word w) :=
  carriesOut_satisfying _ _

lemma carriesOut_symbol (s : String) : CarriesOut (symbol s) (Grammar.symbol s) :=
  carriesOut_satisfying _ _

lemma carriesOut_space : CarriesOut space Grammar.space :=
  carriesOut_bind (carriesOut_many (carriesOut_satisfying _ _)) fun _ => carriesOut_pure ()

lemma carriesOut_gap : CarriesOut gap Grammar.gap :=
  carriesOut_bind (carriesOut_many (carriesOut_satisfying _ _)) fun _ => carriesOut_pure ()

lemma carriesOut_lineBreak : CarriesOut lineBreak Grammar.lineBreak :=
  carriesOut_bind carriesOut_space fun _ =>
    carriesOut_bind (carriesOut_satisfying _ _) fun _ => carriesOut_gap

lemma carriesOut_comma : CarriesOut comma Grammar.comma :=
  carriesOut_bind carriesOut_gap fun _ =>
    carriesOut_bind (carriesOut_satisfying _ _) fun _ => carriesOut_gap

lemma enters_parens : Enters parens Grammar.parens := enters_groupOf _ _

lemma enters_block : Enters block Grammar.block := (enters_groupOf _ _).after carriesOut_space

lemma carriesOut_commaList {α : Type} {m : Run TokenPlace α} {p : Parser Token α}
    (h : CarriesOut m p) : CarriesOut (commaList m) (Grammar.commaList p) :=
  carriesOut_bind carriesOut_gap fun _ =>
    carriesOut_bind (carriesOut_separated (carriesOut_optional h) carriesOut_comma) fun _ =>
      carriesOut_bind carriesOut_gap fun _ => carriesOut_pure _

lemma carriesOut_name : CarriesOut name Grammar.name := by
  refine carriesOut_look_next (fun h hrest => ?_) fun {row k c token rest} h hrest => ?_
  · rw [Grammar.name, hrest]
    exact carriesOut_expected _ h
  · rw [Grammar.name, hrest]
    obtain ⟨token, s⟩ := token
    cases token with
    | ident name raw =>
      dsimp only
      split
      · exact carriesOut_failHere _ h
      · rw [next_bind h hrest]
        exact .ok name (Tracks.step h hrest)
    | _ => exact carriesOut_expected _ h

lemma carriesOut_tokenLiteral : CarriesOut tokenLiteral Grammar.literal := by
  refine carriesOut_bind carriesOut_peek fun token => ?_
  rcases Grammar.literalShape? token with _ | (f | shape)
  · exact carriesOut_expected _
  · exact carriesOut_fail f
  · exact carriesOut_bind carriesOut_next fun _ => carriesOut_pure _

lemma carriesOut_reference : CarriesOut reference Grammar.reference :=
  carriesOut_get Cursor.span Tracks.span_eq fun _ =>
    carriesOut_bind carriesOut_name fun _ => carriesOut_pure _

lemma carriesOut_infixOperator : CarriesOut infixOperator Grammar.infixOperator := by
  refine carriesOut_look_next (fun h hrest => ?_) fun {row k c token rest} h hrest => ?_
  · rw [Grammar.infixOperator, hrest]
    exact carriesOut_expected _ h
  · rw [Grammar.infixOperator, hrest]
    obtain ⟨token, s⟩ := token
    cases token with
    | operator symbol =>
      dsimp only
      split
      · rw [next_bind h hrest]
        exact .ok (⟨symbol, s⟩ : Located String) (Tracks.step h hrest)
      · exact carriesOut_expected _ h
    | _ => exact carriesOut_expected _ h

lemma carriesOut_parameters : CarriesOut parameters Grammar.parameters :=
  carriesOut_choice
    (.cons (carriesOut_bind carriesOut_name fun _ => carriesOut_pure _)
      (.cons (enters_parens.within (carriesOut_commaList carriesOut_name)) .nil))

section Rules

variable {m : Run TokenPlace Formula.Placed} {p : Parser Token Formula.Placed}

/-- What a rule ends with is put together with the span from where it began. -/
lemma carriesOut_spanFrom {α : Type} (s : Span) (f : Span → α) :
    CarriesOut (do return f (← spanFrom s) : Run TokenPlace α)
      (do return f ((← get).spanFrom s) : Parser Token α) := by
  refine carriesOut_get (fun c => c.spanFrom s) (fun h => ?_) fun c => carriesOut_pure _
  rw [Tracks.previousEnd_eq h]
  rfl

lemma carriesOut_arguments (h : CarriesOut m p) :
    CarriesOut (arguments m) (Grammar.arguments p) :=
  enters_parens.within (carriesOut_commaList h)

lemma carriesOut_parenthesized (h : CarriesOut m p) :
    CarriesOut (parenthesized m) (Grammar.parenthesized p) :=
  enters_parens.within (carriesOut_bind carriesOut_gap fun _ => carriesOut_bind h fun _ =>
    carriesOut_bind carriesOut_gap fun _ => carriesOut_pure _)

lemma carriesOut_application (h : CarriesOut m p) :
    CarriesOut (application m) (Grammar.application p) := by
  refine carriesOut_bind (carriesOut_optional
    (carriesOut_bind carriesOut_space fun _ => carriesOut_arguments h)) fun list => ?_
  cases list with
  | none => exact carriesOut_pure none
  | some list =>
    exact carriesOut_get Cursor.previousEnd Tracks.previousEnd_eq fun _ => carriesOut_pure _

lemma position_eq_ok {row : List (Located Token)} {k : TokenPlace} {c : Cursor Token}
    (h : At row k c) : Span.start <$> Place.span k = .ok c.position := by
  rw [Tracks.span_eq h]
  rfl

lemma carriesOut_call (h : CarriesOut m p) : CarriesOut (call m) (Grammar.call p) :=
  carriesOut_get Cursor.position position_eq_ok fun _ =>
    carriesOut_bind
      (carriesOut_choice (.cons carriesOut_reference (.cons (carriesOut_parenthesized h) .nil)))
      fun _ => carriesOut_bind (carriesOut_collect (carriesOut_application h)) fun _ =>
        carriesOut_pure _

lemma carriesOut_list (h : CarriesOut m p) : CarriesOut (list m) (Grammar.list p) :=
  carriesOut_get Cursor.span Tracks.span_eq fun _ =>
    (enters_groupOf _ _).bind fun hat =>
      carriesOut_bind (carriesOut_within (carriesOut_commaList h) hat) fun _ =>
        carriesOut_spanFrom _ _

lemma carriesOut_otherwiseCase (h : CarriesOut m p) :
    CarriesOut (otherwiseCase m) (Grammar.otherwiseCase p) :=
  carriesOut_bind (carriesOut_word _) fun _ => carriesOut_bind carriesOut_gap fun _ =>
    carriesOut_bind h fun _ => carriesOut_pure _

lemma carriesOut_whenCase (h : CarriesOut m p) : CarriesOut (whenCase m) (Grammar.whenCase p) :=
  carriesOut_bind (carriesOut_notAhead (carriesOut_word _) h) fun _ =>
    carriesOut_bind carriesOut_gap fun _ => carriesOut_bind (carriesOut_symbol _) fun _ =>
      carriesOut_bind carriesOut_gap fun _ => carriesOut_bind h fun _ => carriesOut_pure _

lemma carriesOut_nextCase (h : CarriesOut m p) :
    CarriesOut (nextCase m) (Grammar.nextCase p) := by
  refine carriesOut_get Cursor.atEnd atEnd_eq fun c => ?_
  cases c.atEnd with
  | true => exact carriesOut_pure none
  | false =>
    exact carriesOut_bind
      (carriesOut_choice (.cons (carriesOut_otherwiseCase h) (.cons (carriesOut_whenCase h) .nil)))
      fun _ => carriesOut_pure _

lemma carriesOut_cases (h : CarriesOut m p) : CarriesOut (cases m) (Grammar.cases p) :=
  carriesOut_bind carriesOut_gap fun _ =>
    carriesOut_bind
      (carriesOut_separated (carriesOut_nextCase h)
        (carriesOut_choice (.cons carriesOut_comma (.cons carriesOut_lineBreak .nil))))
      fun _ => carriesOut_bind carriesOut_gap fun _ => carriesOut_pure _

lemma carriesOut_switch (h : CarriesOut m p) : CarriesOut (switch m) (Grammar.switch p) :=
  carriesOut_get Cursor.span Tracks.span_eq fun _ =>
    carriesOut_bind (carriesOut_word _) fun _ =>
      carriesOut_bind
        (carriesOut_choice
          (.cons (enters_block.within (carriesOut_cases h))
            (.cons
              (carriesOut_bind carriesOut_space fun _ =>
                carriesOut_bind (carriesOut_otherwiseCase h) fun _ => carriesOut_pure _)
              .nil)))
        fun _ => carriesOut_spanFrom _ _

lemma carriesOut_primary (h : CarriesOut m p) : CarriesOut (primary m) (Grammar.primary p) :=
  carriesOut_choice
    (.cons carriesOut_tokenLiteral
      (.cons (carriesOut_switch h) (.cons (carriesOut_call h) (.cons (carriesOut_list h) .nil))))

lemma carriesOut_negation (h : CarriesOut m p) : CarriesOut (negation m) (Grammar.negation p) :=
  carriesOut_bind (carriesOut_symbol _) fun _ =>
    carriesOut_bind (carriesOut_primary h) fun _ => carriesOut_pure _

lemma carriesOut_operand (h : CarriesOut m p) : CarriesOut (operand m) (Grammar.operand p) :=
  carriesOut_choice (.cons (carriesOut_negation h) (.cons (carriesOut_primary h) .nil))

lemma carriesOut_operation (h : CarriesOut m p) :
    CarriesOut (operation m) (Grammar.operation p) :=
  carriesOut_bind carriesOut_space fun _ => carriesOut_bind carriesOut_infixOperator fun _ =>
    carriesOut_bind carriesOut_gap fun _ => carriesOut_bind (carriesOut_operand h) fun _ =>
      carriesOut_pure _

/-- Putting a chain together gives what the fold of the chain gives. -/
lemma carriesOut_reduce (links : List (Link Formula.Placed)) :
    CarriesOut (settle (reduce Formula.joining links) : Run TokenPlace Formula.Placed)
      (Grammar.chain.liftExcept (Formula.joining.fold links)) := by
  intro row k c h
  unfold settle
  rw [reduce_eq]
  cases Formula.joining.fold links with
  | ok a => exact .ok a h
  | error f => exact .error f h

lemma carriesOut_chain (h : CarriesOut m p) : CarriesOut (chain m) (Grammar.chain p) := by
  refine carriesOut_bind (carriesOut_operand h) fun first => ?_
  refine carriesOut_bind (carriesOut_many (carriesOut_operation h)) fun rest => ?_
  cases rest with
  | nil => exact carriesOut_pure first
  | cons link rest => exact carriesOut_reduce _

lemma carriesOut_definition (h : CarriesOut m p) :
    CarriesOut (definition m) (Grammar.definition p) :=
  carriesOut_get Cursor.span Tracks.span_eq fun _ =>
    carriesOut_bind carriesOut_name fun _ => carriesOut_bind carriesOut_gap fun _ =>
      carriesOut_bind (carriesOut_symbol _) fun _ => carriesOut_bind carriesOut_gap fun _ =>
        carriesOut_bind h fun _ => carriesOut_spanFrom _ _

lemma carriesOut_definitions (h : CarriesOut m p) :
    CarriesOut (definitions m) (Grammar.definitions p) :=
  carriesOut_bind carriesOut_gap fun _ =>
    carriesOut_bind
      (carriesOut_separated (carriesOut_optional (carriesOut_definition h)) carriesOut_lineBreak)
      fun _ => carriesOut_bind carriesOut_gap fun _ => carriesOut_pure _

lemma carriesOut_whereClause (h : CarriesOut m p) :
    CarriesOut (whereClause m) (Grammar.whereClause p) :=
  carriesOut_bind carriesOut_space fun _ =>
    carriesOut_bind (carriesOut_word _) fun _ =>
      carriesOut_choice
        (.cons (enters_block.within (carriesOut_definitions h))
          (.cons
            (carriesOut_bind carriesOut_space fun _ =>
              carriesOut_bind (carriesOut_definition h) fun _ => carriesOut_pure _)
            .nil))

lemma carriesOut_closure (h : CarriesOut m p) : CarriesOut (closure m) (Grammar.closure p) :=
  carriesOut_get Cursor.span Tracks.span_eq fun _ =>
    carriesOut_bind carriesOut_parameters fun _ => carriesOut_bind carriesOut_gap fun _ =>
      carriesOut_bind (carriesOut_symbol _) fun _ => carriesOut_bind carriesOut_gap fun _ =>
        carriesOut_bind h fun _ =>
          carriesOut_bind (carriesOut_optional (carriesOut_whereClause h)) fun _ =>
            carriesOut_spanFrom _ _

lemma carriesOut_closureOrChain (h : CarriesOut m p) :
    CarriesOut (closureOrChain m) (Grammar.closureOrChain p) :=
  carriesOut_choice (.cons (carriesOut_closure h) (.cons (carriesOut_chain h) .nil))

end Rules

/-- The rule for formulas is applied again where as few tokens are left as the rule of the grammar
asks for. -/
lemma carriesOut_formula : CarriesOut formula Grammar.formula :=
  carriesOut_fix (fun h => congrArg Token.listWeight (drop_eq h))
    (fun _ _ h _ => carriesOut_closureOrChain (h ())) ()

end Formulary.Checked
