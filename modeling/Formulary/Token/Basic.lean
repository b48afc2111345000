/-
# Tokens

A text is read into tokens first.  Brackets are matched on the way, so a token may be a group
that holds the tokens between its delimiters; the lines of an indented block form a group as
well, although no character delimits it.
-/
import Formulary.Parsing.Cursor
import Formulary.Word

namespace Formulary

open Text

/-- What holds the tokens of a group together. -/
inductive GroupKind where
  | brackets
  | braces
  | parens
  /-- An indented block. -/
  | indented
deriving DecidableEq, Repr

/-- The characters around a group; an indented block has none. -/
def GroupKind.delimiters : GroupKind → Option (Char × Char)
  | .brackets => some ('[', ']')
  | .braces => some ('\x7b', '\x7d')
  | .parens => some ('(', ')')
  | .indented => none

/-- The smallest part of a text that has a meaning. -/
inductive Token where
  /-- A name; `raw` if it was written in quotes. -/
  | ident (name : String) (raw : Bool)
  /-- A run of operator characters. -/
  | operator (symbol : String)
  /-- A number: the digits before the point, with a sign, and those after it. -/
  | number (whole : String) (fraction : Option String)
  /-- A truth value. -/
  | bool (value : Bool)
  /-- The absent value. -/
  | null
  /-- A text. -/
  | text (value : String)
  /-- A comma. -/
  | comma
  /-- White space within a line. -/
  | space
  /-- White space that goes on to another line. -/
  | lineBreak
  /-- The tokens of a group. -/
  | group (kind : GroupKind) (tokens : List (Located Token))
deriving BEq, Repr, Inhabited

namespace Token

/-- White space within a line. -/
def isSpace : Token → Bool
  | space => true
  | _ => false

/-- White space that goes on to another line. -/
def isLineBreak : Token → Bool
  | lineBreak => true
  | _ => false

/-- White space of either kind. -/
def isGap (t : Token) : Bool := t.isSpace || t.isLineBreak

/-- A comma. -/
def isComma : Token → Bool
  | comma => true
  | _ => false

/-- The operator characters `s`. -/
def isOperator (s : String) : Token → Bool
  | operator symbol => symbol == s
  | _ => false

/-- The bare word `s`. -/
def isWord (s : String) : Token → Bool
  | ident name raw => name == s && !raw
  | _ => false

/-- Whether an indented block may follow. -/
def opensBlock (t : Token) : Bool := t.isWord "where" || t.isWord "switch"

/-- The token as it is named in messages. -/
def describe : Token → String
  | ident name false => s!"identifier `{name}`"
  | ident name true => s!"raw identifier `{name}`"
  | operator symbol => s!"operator `{symbol}`"
  | number whole none => s!"number `{whole}`"
  | number whole (some fraction) => s!"number `{whole}.{fraction}`"
  | bool value => s!"boolean `{value}`"
  | null => "`null`"
  | text _ => "string"
  | comma => "`,`"
  | space => "whitespace"
  | lineBreak => "line break"
  | group kind _ =>
    match kind.delimiters with
    | some (opening, closing) => s!"`{opening}...{closing}` group"
    | none => "indented block"

mutual

/-- The number of tokens in a token, itself included. -/
def weight : Token → Nat
  | group _ tokens => 1 + listWeight tokens
  | ident .. | operator _ | number .. | bool _ | null | text _ | comma | space | lineBreak => 1

/-- The number of tokens in a row of tokens, those in groups included. -/
def listWeight : List (Located Token) → Nat
  | [] => 0
  | ⟨token, _⟩ :: tokens => token.weight + listWeight tokens

end

end Token

/-- A token is passed as a whole, a group with all that it holds. -/
instance : Parsing.Item Token where
  width _ := 1
  describe := Token.describe

end Formulary
