/-
# Checked reading

The rules that read tokens, as checked runs.  They cut names, numbers and texts out of the text by
where they begin and end; the quotes of a text and the number signs of a quoted name are taken off
by their number, so there have to be as many.  Each rule carries out the rule of the same name.
-/
import Formulary.Proofs.Checked.Text
import Formulary.Proofs.Token.Lossless

namespace Formulary.Checked

open Text Word Parsing
open Tracks (At)

variable {text : List Char} {k : TextPlace} {c : Cursor Char}

/-! ## Patterns -/

lemma runLength_le {ι : Type} (inClass : ι → Bool) (items : List ι) :
    Pattern.runLength inClass items ≤ items.length :=
  (List.takeWhile_sublist inClass).length_le

lemma bounded_oneOrMore (source : String) (inClass : Char → Bool) :
    Bounded (Pattern.oneOrMore source inClass) := by
  intro cs n hn
  unfold Pattern.oneOrMore at hn
  dsimp only at hn
  split at hn
  · cases hn
  · cases hn
    exact runLength_le _ _

lemma bounded_namePattern : Bounded Token.namePattern := by
  intro cs n hn
  cases cs with
  | nil => cases hn
  | cons d ds =>
    unfold Token.namePattern at hn
    dsimp only at hn
    split at hn
    · cases hn
      have := runLength_le isNamePart ds
      rw [List.length_cons]
      omega
    · cases hn

/-- What is left behind a run is what the run leaves. -/
lemma length_of_drop {ι : Type} {inClass : ι → Bool} {items rest : List ι} {item : ι}
    (h : items.drop (Pattern.runLength inClass items) = item :: rest) :
    Pattern.runLength inClass items + (rest.length + 1) = items.length := by
  have hlength := congrArg List.length h
  have hle := runLength_le inClass items
  rw [List.length_drop, List.length_cons] at hlength
  omega

lemma unsignedLength?_le (cs : List Char) : ∀ n ∈ Token.unsignedLength? cs, n ≤ cs.length := by
  intro n hn
  have hwhole := runLength_le Char.isDigit cs
  unfold Token.unsignedLength? at hn
  dsimp only at hn
  split at hn
  · cases hn
  · split at hn
    · rename_i ds hdrop
      have hlength := length_of_drop hdrop
      have hfraction := runLength_le Char.isDigit ds
      cases hn
      split <;> omega
    · cases hn
      exact hwhole

lemma bounded_numberPattern : Bounded Token.numberPattern := by
  intro cs n hn
  unfold Token.numberPattern at hn
  dsimp only at hn
  split at hn
  · rename_i ds
    obtain ⟨m, hm, rfl⟩ := Option.map_eq_some_iff.mp hn
    exact Nat.succ_le_succ (unsignedLength?_le ds m hm)
  · exact unsignedLength?_le _ n hn

lemma bounded_rawOpeningPattern : Bounded Token.rawOpeningPattern := by
  intro cs n hn
  unfold Token.rawOpeningPattern at hn
  dsimp only at hn
  split at hn
  · rename_i ds
    split at hn
    · rename_i es hdrop
      have hlength := length_of_drop hdrop
      cases hn
      rw [List.length_cons]
      omega
    · cases hn
  · cases hn

/-! ## Single tokens -/

/-- Exactly the characters `s`. -/
def exactly (s : List Char) : Run TextPlace (List Char) := literal (escapedText s) s

/-- A word that stands for a value. -/
def readKeyword : Run TextPlace Token := do
  let s ← span
  let word ← matching Token.namePattern
  match keyword? (String.ofList word) with
  | some .null => return .null
  | some (.bool value) => return .bool value
  | none => fail (Failure.because s "expected a keyword")

/-- A comma. -/
def readComma : Run TextPlace Token := do
  let _ ← exactly [',']
  return .comma

/-- Whether a minus is next and the end of an operand is in front of it. -/
def subtracts (k : TextPlace) : Except Fault Bool := do
  let item ← Place.next? k
  if item.any (·.value == '-') then return (← k.previousChar).any Token.endsOperand
  else return false

/-- A number. -/
def readNumber : Run TextPlace Token := do
  if ← look subtracts then failHere "expected a number"
  else
    let cs ← matching Token.numberPattern
    let item ← look Place.next?
    if item.any (isNamePart ·.value) then
      failHere "a number literal cannot be followed by an identifier character"
    else return Token.ofNumberText cs

/-- A character of a text in quotes. -/
def readTextChar : Run TextPlace Char :=
  choice
    [ do
        let _ ← exactly ['\\']
        return (← next).value,
      (·.value) <$> satisfying "a string character" fun c => c != '"' && c != '\\' ]

/-- A text without the quotes around it. -/
def unquoted (quoted : List Char) : Except Fault (List Char) := do
  slice quoted 1 (← subtract (byteLength quoted) 1)

/-- A text in quotes.  Without a backslash in it, what is between the quotes is the text. -/
def readText : Run TextPlace Token := do
  let start ← here
  let cs ← delimited (exactly ['"']) (exactly ['"']) (many readTextChar)
  let quoted ← sliceFrom start
  let body ← look fun _ => unquoted quoted
  return .text (String.ofList (if body.contains '\\' then cs else body))

/-- A name in quotes. -/
def readRawName : Run TextPlace Token := do
  let opening ← matching Token.rawOpeningPattern
  let hashes ← look fun _ => subtract (byteLength opening) 2
  let closing := '"' :: List.replicate hashes '#'
  let start ← here
  let _ ← takeUntil (exactly closing)
  let name ← sliceFrom start
  let _ ← exactly closing
  return .ident (String.ofList name) true

/-- A bare name. -/
def readBareName : Run TextPlace Token := do
  let cs ← matching Token.namePattern
  return .ident (String.ofList cs) false

/-- A run of operator characters. -/
def readOperator : Run TextPlace Token := do
  let cs ← matching Token.operatorPattern
  return .operator (String.ofList cs)

/-- White space. -/
def readBlank : Run TextPlace Token := do
  let cs ← matching Token.blankPattern
  return if cs.contains '\n' then .lineBreak else .space

lemma carriesOut_exactly (s : List Char) : CarriesOut (exactly s) (Token.exactly s) :=
  carriesOut_literal _ s

lemma carriesOut_readKeyword : CarriesOut readKeyword Token.readKeyword := by
  refine carriesOut_get Cursor.span Tracks.span_eq fun c => ?_
  refine carriesOut_bind (carriesOut_matching bounded_namePattern) fun word => ?_
  cases keyword? (String.ofList word) with
  | none => exact carriesOut_fail _
  | some w =>
    cases w with
    | null => exact carriesOut_pure _
    | bool value => exact carriesOut_pure _

lemma carriesOut_readComma : CarriesOut readComma Token.readComma :=
  carriesOut_bind (carriesOut_exactly _) fun _ => carriesOut_pure _

lemma subtracts_eq (h : At text k c) :
    subtracts k =
      .ok (c.next? == some '-' && c.previous.any (Token.endsOperand ·.value)) := by
  have hminus : c.rest.head?.any (·.value == '-') = (c.next? == some '-') := by
    unfold Cursor.next?
    cases c.rest <;> rfl
  unfold subtracts
  rw [Tracks.next?_eq h, previousChar_eq h]
  dsimp only [bind, Except.bind]
  rw [hminus]
  cases c.next? == some '-' with
  | false => rfl
  | true => exact congrArg Except.ok (Option.any_map ..)

lemma carriesOut_readNumber : CarriesOut readNumber Token.readNumber := by
  refine carriesOut_get _ subtracts_eq fun c => ?_
  split
  · exact carriesOut_failHere _
  · refine carriesOut_bind (carriesOut_matching bounded_numberPattern) fun cs => ?_
    refine carriesOut_get _ Tracks.next?_eq fun c => ?_
    rw [Cursor.next?, Option.any_map]
    split
    · exact carriesOut_failHere _
    · exact carriesOut_pure _

lemma carriesOut_readTextChar : CarriesOut readTextChar Token.readTextChar :=
  carriesOut_choice
    (.cons
      (carriesOut_bind (carriesOut_exactly _) fun _ =>
        carriesOut_bind carriesOut_next fun _ => carriesOut_pure _)
      (.cons (carriesOut_map (carriesOut_satisfying _ _) _) .nil))

/-- There are two quotes to take off. -/
lemma unquoted_eq (cs : List Char) : unquoted (['"'] ++ cs ++ ['"']) = .ok cs := by
  have hquote : byteLength ['"'] = 1 := rfl
  have hslice := slice_append ['"'] cs ['"']
  unfold unquoted
  rw [byteLength_append, byteLength_append, hquote, subtract_add]
  rwa [hquote] at hslice

lemma eq_of_unescapes {cs ds : List Char} (h : Token.Unescapes cs ds) (hcs : '\\' ∉ cs) :
    cs = ds := by
  induction h with
  | nil => rfl
  | plain _ _ _ ih => rw [ih fun hmem => hcs (List.mem_cons_of_mem _ hmem)]
  | escaped _ _ => exact absurd List.mem_cons_self hcs

/-- What is between the quotes is the text unless a backslash is dropped from it. -/
lemma carriesOut_readText : CarriesOut readText Token.readText := by
  refine carriesOut_sliced
    (carriesOut_delimited (carriesOut_exactly _) (carriesOut_exactly _)
      (carriesOut_many carriesOut_readTextChar))
    (Token.reads_delimited (reads_many Token.reads_readTextChar)) fun s cs quoted hquoted => ?_
  obtain ⟨ds, rfl, hpieces⟩ := hquoted
  have hescaped := Token.unescapes_of_pieces hpieces
  have hvalue : (if ds.contains '\\' then cs else ds) = cs := by
    split
    · rfl
    · rename_i hds
      exact eq_of_unescapes hescaped fun hmem => hds (List.contains_iff_mem.mpr hmem)
  intro text k c h
  refine follows_given (unquoted_eq ds) ?_
  rw [hvalue]
  exact .ok _ h

/-- What opens a quoted name has a letter and a quote besides the number signs. -/
lemma hashes_eq {opening rest : List Char}
    (h : Token.rawOpeningPattern.length? (opening ++ rest) = some opening.length) :
    subtract (byteLength opening) 2 = .ok (opening.length - 2) := by
  have hopening := Token.eq_of_rawOpening h
  have hlength := congrArg List.length hopening
  have hascii : ∀ c ∈ opening, c.utf8Size = 1 := by
    rw [hopening]
    simp only [List.cons_append, List.mem_cons, List.mem_append, List.mem_replicate,
      List.not_mem_nil, or_false]
    rintro c (rfl | ⟨-, rfl⟩ | rfl) <;> rfl
  simp only [List.length_append, List.length_cons, List.length_replicate, List.length_nil]
    at hlength
  rw [byteLength_of_ascii hascii, subtract, if_neg (by omega)]

lemma carriesOut_readRawName : CarriesOut readRawName Token.readRawName := by
  intro text k c h
  refine follows_bind (carriesOut_matching bounded_rawOpeningPattern h)
    fun {opening k' c'} hopening h' => ?_
  obtain ⟨_, _, -, -, -, hst⟩ := exists_stands h
  obtain ⟨rest, rfl, -, hlen, -⟩ := reads_matching _ hst hopening
  refine follows_given (hashes_eq hlen) ?_
  refine carriesOut_sliced (carriesOut_takeUntil (carriesOut_exactly _)) reads_takeUntil
    (fun s name cs hcs => ?_) h'
  subst hcs
  exact carriesOut_bind (carriesOut_exactly _) fun _ => carriesOut_pure _

lemma carriesOut_readBareName : CarriesOut readBareName Token.readBareName :=
  carriesOut_bind (carriesOut_matching bounded_namePattern) fun _ => carriesOut_pure _

lemma carriesOut_readOperator : CarriesOut readOperator Token.readOperator :=
  carriesOut_bind (carriesOut_matching (bounded_oneOrMore _ _)) fun _ => carriesOut_pure _

lemma carriesOut_readBlank : CarriesOut readBlank Token.readBlank :=
  carriesOut_bind (carriesOut_matching (bounded_oneOrMore _ _)) fun _ => carriesOut_pure _

/-! ## Groups and blocks -/

section Contents

variable (contents : Option Nat → Run TextPlace (List (Located Token)))

/-- A group in brackets. -/
def readGroup : Run TextPlace Token := do
  let opening := (← peek).value
  match [GroupKind.parens, .brackets, .braces].find? (·.delimiters.any (·.1 == opening)) with
  | none => expected "a group"
  | some kind =>
    let closing := (kind.delimiters.map (·.2)).toList
    let tokens ← delimited (exactly [opening]) (exactly closing) (contents none)
    return .group kind tokens

/-- The next token. -/
def readToken : Run TextPlace (Located Token) := do
  let start ← here
  let token ← choice
    [readKeyword, readComma, readNumber, readText, readRawName, readBareName, readOperator,
      readGroup contents, readBlank]
  let stop ← here
  return ⟨token, start, stop⟩

/-- Whether the lines to come no longer belong to a block that is indented by `reference`. -/
def blockEnds (reference : Nat) (k : TextPlace) : Except Fault Bool := do
  match ← found Token.blankPattern k with
  | none => return false
  | some blank =>
    if blank.contains '\n' then
      let rest ← k.remaining
      return byteLength blank == byteLength rest ||
        Token.indentation (Token.lastLine blank) < reference
    else return false

/-- Passes the white space in front of the first line of a block and gives its indentation. -/
def readReference : Run TextPlace Nat := do
  match ← look (found Token.blankPattern) with
  | some blank =>
    let rest ← look TextPlace.remaining
    if byteLength blank < byteLength rest then
      let _ ← consumeBytes (byteLength blank)
      return Token.indentation (Token.lastLine blank)
    else failHere "expected an indented block"
  | none => if ← look atEnd then fail (Failure.endOfInput (← span)) else return 0

/-- An indented block inside of one that is indented by `enclosing`. -/
def readBlock (enclosing : Nat) : Run TextPlace (Located Token) := do
  let start ← here
  let _ ← optional (matching Token.spacePattern)
  let _ ← exactly ['\n']
  let reference ← readReference
  if reference ≤ enclosing then failHere "expected an indented block"
  else
    let tokens ← contents (some reference)
    let stop ← here
    return ⟨.group .indented tokens, start, stop⟩

/-- Whether the block that a row belongs to ends at the place. -/
def rowEnds (reference : Option Nat) (k : TextPlace) : Except Fault Bool :=
  match reference with
  | none => .ok false
  | some reference => blockEnds reference k

/-- The next token of a row, with the block that it opens if there is one. -/
def readStep (reference : Option Nat) : Run TextPlace (Option (List (Located Token) × Bool)) := do
  if ← look (rowEnds reference) then return none
  match ← optional (readToken contents) with
  | none => return none
  | some token =>
    if token.value.opensBlock then
      match ← optional (readBlock contents (reference.getD 0)) with
      | none => return some ([token], true)
      | some block =>
        return some ([token, block, ⟨.lineBreak, Span.point block.span.stop⟩], true)
    else return some ([token], true)

/-- A row of tokens. -/
def readRow (reference : Option Nat) : Run TextPlace (List (Located Token)) :=
  List.flatten <$> collect (readStep contents reference)

end Contents

/-- The tokens up to the end of a group or of a block that is indented by `reference`. -/
def readTokens (reference : Option Nat) : Run TextPlace (List (Located Token)) :=
  fix Place.left readRow reference

/-- The tokens of a text, all of which has to be read. -/
def lex (text : List Char) : Except Fault (Except Failure (List (Located Token))) :=
  whole { text } (readTokens none)

section Contents

variable {contents : Option Nat → Run TextPlace (List (Located Token))}
  {contents' : Option Nat → Parser Char (List (Located Token))}

lemma carriesOut_readGroup (hcontents : ∀ E, CarriesOut (contents E) (contents' E)) :
    CarriesOut (readGroup contents) (Token.readGroup contents') := by
  refine carriesOut_bind carriesOut_peek fun item => ?_
  dsimp only
  generalize List.find? _ _ = kind
  cases kind with
  | none => exact carriesOut_expected _
  | some kind =>
    exact carriesOut_bind
      (carriesOut_delimited (carriesOut_exactly _) (carriesOut_exactly _) (hcontents none))
      fun _ => carriesOut_pure _

lemma carriesOut_readToken (hcontents : ∀ E, CarriesOut (contents E) (contents' E)) :
    CarriesOut (readToken contents) (Token.readToken contents') := by
  refine carriesOut_here fun c => ?_
  refine carriesOut_bind ?_ fun token => carriesOut_here fun c => carriesOut_pure _
  exact carriesOut_choice
    (.cons carriesOut_readKeyword (.cons carriesOut_readComma (.cons carriesOut_readNumber
      (.cons carriesOut_readText (.cons carriesOut_readRawName (.cons carriesOut_readBareName
        (.cons carriesOut_readOperator (.cons (carriesOut_readGroup hcontents)
          (.cons carriesOut_readBlank .nil)))))))))

/-- A front part of a text has fewer bytes just where it has fewer characters. -/
lemma byteLength_lt_iff (cs ds : List Char) :
    byteLength cs < byteLength (cs ++ ds) ↔ cs.length < (cs ++ ds).length := by
  rw [byteLength_append, List.length_append]
  cases ds with
  | nil => simp [byteLength]
  | cons d ds =>
    have := byteLength_pos (List.cons_ne_nil d ds)
    simp only [List.length_cons]
    omega

lemma byteLength_beq (cs ds : List Char) :
    (byteLength cs == byteLength (cs ++ ds)) = (cs.length == (cs ++ ds).length) := by
  have hiff := byteLength_lt_iff cs ds
  rw [byteLength_append, List.length_append] at hiff ⊢
  rw [Bool.eq_iff_iff, beq_iff_eq, beq_iff_eq]
  omega

/-- White space at a place is all that there is before the first other character. -/
lemma blank_match? (c : Cursor Char) :
    Token.blankPattern.match? c =
      if (c.upcoming.takeWhile isBlank).length = 0 then none
      else some (c.upcoming.takeWhile isBlank) := by
  unfold Pattern.match? Token.blankPattern Pattern.oneOrMore
  dsimp only
  split
  · exact (if_pos ‹_›).symm
  · rw [Option.map_some, take_runLength]
    exact (if_neg ‹_›).symm

lemma blockEnds_eq (reference : Nat) (h : At text k c) :
    blockEnds reference k = .ok (Token.blockEnds reference c.upcoming) := by
  have hsplit := List.takeWhile_append_dropWhile (p := isBlank) (l := c.upcoming)
  have hbytes := byteLength_beq (c.upcoming.takeWhile isBlank) (c.upcoming.dropWhile isBlank)
  rw [hsplit] at hbytes
  unfold blockEnds Token.blockEnds
  rw [found_eq _ h, remaining_eq h, blank_match?]
  split
  · rename_i hnil
    rw [List.eq_nil_of_length_eq_zero hnil]
    rfl
  · dsimp only [bind, Except.bind]
    rw [hbytes]
    cases (c.upcoming.takeWhile isBlank).contains '\n' <;> rfl

lemma carriesOut_readReference : CarriesOut readReference Token.readReference := by
  intro text k c h
  change Follows text _ ((match Token.blankPattern.match? c with
    | some blank =>
      if blank.length < c.rest.length then do
        let _ ← takeItems blank.length
        return Token.indentation (Token.lastLine blank)
      else Parsing.failHere "expected an indented block"
    | none => if c.atEnd then throw (Failure.endOfInput c.span) else return 0 : Parser Char Nat) c)
  refine follows_look (found_eq _ h) ?_
  rw [blank_match?]
  split
  · refine follows_look (atEnd_eq h) ?_
    dsimp only
    split
    · exact follows_look (Tracks.span_eq h) (.error _ h)
    · exact .ok 0 h
  · have hsplit := List.takeWhile_append_dropWhile (p := isBlank) (l := c.upcoming)
    have hbytes := byteLength_lt_iff (c.upcoming.takeWhile isBlank) (c.upcoming.dropWhile isBlank)
    have hlength : c.upcoming.length = c.rest.length := List.length_map _
    rw [hsplit, hlength] at hbytes
    refine follows_look (remaining_eq h) ?_
    dsimp only
    by_cases hlt : (c.upcoming.takeWhile isBlank).length < c.rest.length
    · rw [if_pos hlt, if_pos (hbytes.mpr hlt)]
      exact follows_bind (follows_consumeBytes h hsplit.symm) fun _ h' => .ok _ h'
    · rw [if_neg hlt, if_neg fun hlt' => hlt (hbytes.mp hlt')]
      exact carriesOut_failHere _ h

lemma carriesOut_readBlock (hcontents : ∀ E, CarriesOut (contents E) (contents' E))
    (enclosing : Nat) :
    CarriesOut (readBlock contents enclosing) (Token.readBlock contents' enclosing) := by
  refine carriesOut_here fun c => ?_
  refine carriesOut_bind (carriesOut_optional (carriesOut_matching (bounded_oneOrMore _ _)))
    fun _ => ?_
  refine carriesOut_bind (carriesOut_exactly _) fun _ => ?_
  refine carriesOut_bind carriesOut_readReference fun reference => ?_
  split
  · exact carriesOut_failHere _
  · exact carriesOut_bind (hcontents _) fun _ => carriesOut_here fun _ => carriesOut_pure _

lemma rowEnds_eq (reference : Option Nat) (h : At text k c) :
    rowEnds reference k = .ok (reference.any (Token.blockEnds · c.upcoming)) := by
  cases reference with
  | none => rfl
  | some reference => exact blockEnds_eq reference h

lemma carriesOut_readStep (hcontents : ∀ E, CarriesOut (contents E) (contents' E))
    (reference : Option Nat) :
    CarriesOut (readStep contents reference) (Token.readStep contents' reference) := by
  refine carriesOut_get _ (rowEnds_eq reference) fun c => ?_
  split
  · exact carriesOut_pure none
  · refine carriesOut_bind (carriesOut_optional (carriesOut_readToken hcontents)) fun token => ?_
    cases token with
    | none => exact carriesOut_pure none
    | some token =>
      dsimp only
      split
      · refine carriesOut_bind (carriesOut_optional (carriesOut_readBlock hcontents _))
          fun block => ?_
        cases block with
        | none => exact carriesOut_pure _
        | some block => exact carriesOut_pure _
      · exact carriesOut_pure _

lemma carriesOut_readRow (hcontents : ∀ E, CarriesOut (contents E) (contents' E))
    (reference : Option Nat) :
    CarriesOut (readRow contents reference) (Token.readRow contents' reference) :=
  carriesOut_map (carriesOut_collect (carriesOut_readStep hcontents reference)) _

end Contents

lemma carriesOut_readTokens (reference : Option Nat) :
    CarriesOut (readTokens reference) (Token.readTokens reference) :=
  carriesOut_fix Tracks.left_eq (fun _ _ h => carriesOut_readRow h) reference

lemma at_ofText (text : List Char) : At text { text : TextPlace } (Cursor.ofText text) :=
  @TextPlace.Tracking.intro text [] text rfl []

/-- Reading a text meets no fault. -/
lemma lex_eq (text : List Char) : lex text = .ok (Token.ofText text) := by
  rw [lex, whole_eq (carriesOut_readTokens none) (at_ofText text), Token.ofText]
  cases Token.readTokens none (Cursor.ofText text) <;> rfl

end Formulary.Checked
