/-
# Outlines of tokens

Tokens are shown in three ways: as a listing with one line per token, indented by the depth of
its group, and in the two styles of outlines.
-/
import Formulary.Outline.Basic
import Formulary.Token.Basic

namespace Formulary

open Text

/-- A position, field by field. -/
def Text.Position.outline (p : Position) : Outline :=
  .record false "Position"
    [("byte", .nat p.byte), ("line", .nat p.line), ("col", .nat p.column)]

/-- A span, field by field. -/
def Text.Span.outline (s : Span) : Outline :=
  .record false "Span" [("start", s.start.outline), ("end", s.stop.outline)]

/-- The name of a kind of group. -/
def GroupKind.label : GroupKind → String
  | .brackets => "Brackets"
  | .braces => "Braces"
  | .parens => "Parens"
  | .indented => "Indent"

namespace Token

mutual

/-- A token, field by field. -/
def outline : Token → Outline
  | ident name raw => .record true "Ident" [("name", .text name), ("raw", .bool raw)]
  | operator symbol => .wrapped "Infix" (.text symbol)
  | number whole fraction =>
    .record true "Number"
      [("int", .text whole), ("frac", .option (fraction.map Outline.text))]
  | bool value => .wrapped "Bool" (.bool value)
  | null => .word "Null"
  | text value => .wrapped "String" (.text value)
  | comma => .word "Delim"
  | space => .word "Space"
  | lineBreak => .word "Break"
  | group kind tokens =>
    .record true "Group" [("kind", .word kind.label), ("tokens", .list (outlines tokens))]

/-- The tokens of a row with their spans, one by one. -/
def outlines : List (Located Token) → List Outline
  | [] => []
  | ⟨token, span⟩ :: tokens =>
    .record false "Token" [("span", span.outline), ("value", token.outline)] :: outlines tokens

end

/-- A line of a listing. -/
def listingLine (depth : Nat) (span : Span) (what : String) : String :=
  String.ofList (List.replicate (2 * depth) ' ') ++ span.display ++ " " ++ what ++ "\n"

mutual

/-- The lines of a token that was read at a span. -/
def listing (depth : Nat) (span : Span) : Token → String
  | group kind tokens => listingLine depth span kind.label ++ listings (depth + 1) tokens
  | token => listingLine depth span token.describe

/-- The lines of a row of tokens. -/
def listings (depth : Nat) : List (Located Token) → String
  | [] => ""
  | ⟨token, span⟩ :: tokens => listing depth span token ++ listings depth tokens

end

end Token

end Formulary
