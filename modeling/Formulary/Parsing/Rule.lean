/-
# Rules

A rule is a parser that was put together from the combinators alone, written down as data.
Statements about every parser of this kind are statements about rules, and a rule can be built
while a program runs.  `Rule.parser` gives it its meaning.
-/
import Formulary.Parsing.Combinators

namespace Formulary.Parsing

open Text

/-- A parser as a piece of data. -/
inductive Rule (ι : Type) where
  /-- The rules one after the other. -/
  | sequence (rules : List (Rule ι))
  /-- The first of the rules that succeeds. -/
  | choice (rules : List (Rule ι))
  /-- The rule as many times as possible. -/
  | many (rule : Rule ι)
  /-- The rule, or nothing. -/
  | optional (rule : Rule ι)
  /-- The third rule between the first two. -/
  | delimited (opening closing inner : Rule ι)
  /-- The second rule, unless the first would succeed. -/
  | notAhead (forbidden rule : Rule ι)
  /-- The items up to where the rule matches. -/
  | takeUntil (stop : Rule ι)
  /-- The next item. -/
  | next
  /-- The next item, not passed. -/
  | peek
  /-- Nothing. -/
  | nothing
  /-- A failure. -/
  | fail (text : String)
  /-- A fatal failure. -/
  | fatal (text : String)
  /-- Nothing, with a failure recorded. -/
  | record (text : String)
  /-- Exactly these items. -/
  | literal (shown : String) (wanted : List ι)
  /-- What the pattern takes. -/
  | matching (pattern : Pattern ι)
  /-- An item that satisfies a condition. -/
  | satisfying (what : String) (holds : ι → Bool)

/-- What a rule gives. -/
inductive Value (ι : Type) where
  /-- No information. -/
  | nothing
  /-- An item. -/
  | item (i : ι)
  /-- A stretch of items that was matched as a whole. -/
  | stretch (items : List ι)
  /-- Several values. -/
  | list (values : List (Value ι))
  /-- A value that may be missing. -/
  | option (value : Option (Value ι))

namespace Rule

variable {ι : Type} [Item ι] [BEq ι]

mutual

/-- The parser that a rule stands for. -/
def parser : Rule ι → Parser ι (Value ι)
  | sequence rules => .list <$> Parsing.sequence (parsers rules)
  | choice rules => Parsing.choice (parsers rules)
  | many rule => .list <$> Parsing.many rule.parser
  | optional rule => .option <$> Parsing.optional rule.parser
  | delimited opening closing inner =>
    Parsing.delimited opening.parser closing.parser inner.parser
  | notAhead forbidden rule => Parsing.notAhead forbidden.parser rule.parser
  | takeUntil stop => (fun items => .list (items.map (.item ·.value))) <$>
      Parsing.takeUntil stop.parser
  | next => (.item ·.value) <$> Parsing.next
  | peek => (.item ·.value) <$> Parsing.peek
  | nothing => return .nothing
  | fail text => failHere text
  | fatal text => fun c => .error (Failure.because c.span text).toFatal c
  | record text => fun c => .ok .nothing (c.record (Failure.because c.span text))
  | literal shown wanted => .stretch <$> Parsing.literal shown wanted
  | matching pattern => .stretch <$> Parsing.matching pattern
  | satisfying what holds => (.item ·.value) <$> Parsing.satisfying what holds

/-- The parsers that the rules stand for, one each. -/
def parsers : List (Rule ι) → List (Parser ι (Value ι))
  | [] => []
  | rule :: rules => rule.parser :: parsers rules

end

end Rule

end Formulary.Parsing
