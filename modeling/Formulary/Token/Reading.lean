/-
# Reading tokens

A text is read into tokens by trying the kinds of token in a fixed order at each place.  Groups
are read recursively.  A bare `where` or `switch` at the end of a line may be followed by an
indented block: the lines below it that are indented at least as deep as the first of them,
which itself has to be deeper than the block around it.

An indented block is read speculatively.  If there is none, the white space after the word is an
ordinary token.
-/
import Formulary.Parsing.Combinators
import Formulary.Text.LineBreak
import Formulary.Token.Basic

namespace Formulary.Token

open Text Word Parsing

/-! ## Patterns -/

/-- A bare name. -/
def namePattern : Pattern Char where
  source := r"^[_\p{Alphabetic}][_\p{Alphabetic}\p{N}]*"
  length?
    | [] => none
    | c :: cs => if isNameStart c then some (1 + Pattern.runLength isNamePart cs) else none

/-- The length of a number without a sign: digits, and perhaps a point with more digits. -/
def unsignedLength? (cs : List Char) : Option Nat :=
  let whole := Pattern.runLength Char.isDigit cs
  if whole = 0 then none
  else
    match cs.drop whole with
    | '.' :: ds =>
      let fraction := Pattern.runLength Char.isDigit ds
      some (if fraction = 0 then whole else whole + 1 + fraction)
    | _ => some whole

/-- A number, with or without a minus sign. -/
def numberPattern : Pattern Char where
  source := r"^-?[0-9]+(?:\.[0-9]+)?"
  length?
    | '-' :: cs => (unsignedLength? cs).map (· + 1)
    | cs => unsignedLength? cs

/-- A run of operator characters. -/
def operatorPattern : Pattern Char :=
  .oneOrMore r"^[+\-*/\\|\~!@\#$%\^\&=<>]+" isOperatorChar

/-- What opens a quoted name: the letter r, number signs and a quote. -/
def rawOpeningPattern : Pattern Char where
  source := "^r#*\""
  length?
    | 'r' :: cs =>
      let hashes := Pattern.runLength (· == '#') cs
      match cs.drop hashes with
      | '"' :: _ => some (hashes + 2)
      | _ => none
    | _ => none

/-- White space within a line. -/
def spacePattern : Pattern Char :=
  .oneOrMore r"^[^\S\n]+" fun c => isBlank c && c != '\n'

/-- White space. -/
def blankPattern : Pattern Char :=
  .oneOrMore r"^\s+" isBlank

/-! ## Indentation -/

/-- The width of a tabulator. -/
def tabWidth : Nat := 4

/-- The number of columns that the beginning of a line is indented by. -/
def indentation : List Char → Nat
  | [] => 0
  | c :: cs => (if c = '\t' then tabWidth else 1) + indentation cs

/-- What follows the last line feed, or everything for want of one. -/
def lastLine (cs : List Char) : List Char :=
  (cs.reverse.takeWhile (· != '\n')).reverse

/-- Whether the lines to come no longer belong to a block that is indented by `reference`.
Empty lines do not count, and the end of the text ends every block. -/
def blockEnds (reference : Nat) (text : List Char) : Bool :=
  let blank := text.takeWhile isBlank
  blank.contains '\n' &&
    (blank.length == text.length || indentation (lastLine blank) < reference)

/-! ## Single tokens -/

/-- Exactly the characters `s`. -/
def exactly (s : List Char) : Parser Char (List Char) := literal (escapedText s) s

/-- A word that stands for a value.  The whole word is read first, so that a keyword is not
found at the front of a longer name. -/
def readKeyword : Parser Char Token := do
  let span := (← get).span
  let word ← matching namePattern
  match keyword? (String.ofList word) with
  | some .null => return null
  | some (.bool value) => return bool value
  | none => throw (Failure.because span "expected a keyword")

/-- A comma. -/
def readComma : Parser Char Token := do
  let _ ← exactly [',']
  return comma

/-- Whether an operand ends with a character, so that a minus right after it subtracts. -/
def endsOperand (c : Char) : Bool :=
  isNamePart c || [')', ']', '\x7d', '"'].contains c

/-- The token for the text of a number. -/
def ofNumberText (cs : List Char) : Token :=
  let whole := String.ofList (cs.takeWhile (· != '.'))
  match cs.dropWhile (· != '.') with
  | [] => number whole none
  | _ :: fraction => number whole (some (String.ofList fraction))

/-- A number. -/
def readNumber : Parser Char Token := do
  let c ← get
  if c.next? == some '-' && c.previous.any (endsOperand ·.value) then
    failHere "expected a number"
  else
    let cs ← matching numberPattern
    if (← get).next?.any isNamePart then
      failHere "a number literal cannot be followed by an identifier character"
    else
      return ofNumberText cs

/-- A character of a text in quotes.  A backslash keeps the character after it as it is and is
dropped itself. -/
def readTextChar : Parser Char Char :=
  choice
    [ do
        let _ ← exactly ['\\']
        return (← next).value,
      (·.value) <$> satisfying "a string character" fun c => c != '"' && c != '\\' ]

/-- A text in quotes. -/
def readText : Parser Char Token := do
  let cs ← delimited (exactly ['"']) (exactly ['"']) (many readTextChar)
  return text (String.ofList cs)

/-- A name in quotes.  It ends at the first quote that is followed by as many number signs as
stand in front of the name. -/
def readRawName : Parser Char Token := do
  let opening ← matching rawOpeningPattern
  let closing := '"' :: List.replicate (opening.length - 2) '#'
  let name ← takeUntil (exactly closing)
  let _ ← exactly closing
  return ident (String.ofList (name.map Located.value)) true

/-- A bare name. -/
def readBareName : Parser Char Token := do
  let cs ← matching namePattern
  return ident (String.ofList cs) false

/-- A run of operator characters. -/
def readOperator : Parser Char Token := do
  let cs ← matching operatorPattern
  return operator (String.ofList cs)

/-- White space. -/
def readBlank : Parser Char Token := do
  let cs ← matching blankPattern
  return if cs.contains '\n' then lineBreak else space

/-! ## Groups and blocks

In what follows `contents` reads a row of tokens.  Its argument is the indentation of the block
that the row belongs to, if it belongs to one. -/

/-- A group in brackets. -/
def readGroup (contents : Option Nat → Parser Char (List (Located Token))) :
    Parser Char Token := do
  let opening := (← peek).value
  match [GroupKind.parens, .brackets, .braces].find? (·.delimiters.any (·.1 == opening)) with
  | none => expected "a group"
  | some kind =>
    let closing := (kind.delimiters.map (·.2)).toList
    let tokens ← delimited (exactly [opening]) (exactly closing) (contents none)
    return group kind tokens

/-- The next token. -/
def readToken (contents : Option Nat → Parser Char (List (Located Token))) :
    Parser Char (Located Token) := do
  let start := (← get).position
  let token ← choice
    [readKeyword, readComma, readNumber, readText, readRawName, readBareName, readOperator,
      readGroup contents, readBlank]
  return ⟨token, start, (← get).position⟩

/-- Passes the white space in front of the first line of a block and gives its indentation. -/
def readReference : Parser Char Nat := do
  let c ← get
  match blankPattern.match? c with
  | some blank =>
    if blank.length < c.rest.length then
      let _ ← takeItems blank.length
      return indentation (lastLine blank)
    else failHere "expected an indented block"
  | none => if c.atEnd then throw (Failure.endOfInput c.span) else return 0

/-- An indented block inside of one that is indented by `enclosing`. -/
def readBlock (contents : Option Nat → Parser Char (List (Located Token))) (enclosing : Nat) :
    Parser Char (Located Token) := do
  let start := (← get).position
  let _ ← optional (matching spacePattern)
  let _ ← exactly ['\n']
  let reference ← readReference
  if reference ≤ enclosing then
    failHere "expected an indented block"
  else
    let tokens ← contents (some reference)
    return ⟨group .indented tokens, start, (← get).position⟩

/-- The next token of a row, with the block that it opens if there is one, or nothing at the end
of the row.  An indented block is followed by a line break of no width, so that what comes after
it is separated from it. -/
def readStep (contents : Option Nat → Parser Char (List (Located Token)))
    (reference : Option Nat) : Parser Char (Option (List (Located Token) × Bool)) := do
  let c ← get
  if reference.any (blockEnds · c.upcoming) then return none
  match ← optional (readToken contents) with
  | none => return none
  | some token =>
    if token.value.opensBlock then
      match ← optional (readBlock contents (reference.getD 0)) with
      | none => return some ([token], true)
      | some block =>
        return some ([token, block, ⟨lineBreak, Span.point block.span.stop⟩], true)
    else return some ([token], true)

/-- A row of tokens. -/
def readRow (contents : Option Nat → Parser Char (List (Located Token)))
    (reference : Option Nat) : Parser Char (List (Located Token)) :=
  List.flatten <$> collect (readStep contents reference)

/-- The tokens up to the end of a group or of a block that is indented by `reference`. -/
def readTokens (reference : Option Nat) : Parser Char (List (Located Token)) :=
  fix (·.rest.length) readRow reference

/-- The tokens of a text, all of which has to be read. -/
def ofText (text : List Char) : Except Failure (List (Located Token)) :=
  match readTokens none (Cursor.ofText text) with
  | .ok tokens c => if c.atEnd then .ok tokens else .error (c.blame c.unexpected)
  | .error f _ => .error f

end Formulary.Token
