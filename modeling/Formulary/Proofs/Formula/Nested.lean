/-
# Formulas that are nested in a text

A formula is nested in a text if it covers a part of it, what is right below it lies within it, and
its arguments, items, definitions or cases come one after the other.  Names and values are written
with one token.  The zero that a minus subtracts from has no extent, and no token.

An operation covers its operands with the operator between them, whatever the tiers make of a
chain; a call covers everything from where the name or the parenthesis in front begins up to where
its last argument list ends.
-/
import Formulary.Proofs.Formula.Children
import Formulary.Proofs.Operator.Climbing
import Formulary.Proofs.Token.Alone
import Formulary.Proofs.Text.Spans
import Formulary.Grammar

namespace Formulary

open Text Word

/-- What a token is written for: a value, a name, or the name of an operator. -/
inductive Token.Writes : Token → Shape Formula.Placed DefinitionSet.Placed → Prop
  | null : Writes .null .null
  | bool (value : Bool) : Writes (.bool value) (.bool value)
  | text (value : String) : Writes (.text value) (.text value)
  | number {whole : String} {fraction : Option String} {value : Binary64}
      (hread : Binary64.read? (whole.toList ++ '.' :: (fraction.getD "0").toList) = some value)
      (hfinite : value.isFinite = true) : Writes (.number whole fraction) (.number value)
  | name {n : String} {raw : Bool} (h : raw = true ∨ isReserved n = false) :
      Writes (.ident n raw) (.name n)
  | operator {s : String} (h : Word.isOperator s = true) : Writes (.operator s) (.name s)

/-- What the span covers is read as just one token, which is written for the first layer. -/
def Shape.Written (text : List Char) (s : Span)
    (shape : Shape Formula.Placed DefinitionSet.Placed) : Prop :=
  ∃ cs t, s.slice? text = some cs ∧
    Token.ofText cs = .ok [⟨t, ⟨{}, Position.after {} cs⟩⟩] ∧ t.Writes shape

/-- The definition covers a part of the text, and what it stands for lies within it. -/
def Definition.Encloses (text : List Char) (d : Definition.Placed) : Prop :=
  d.note.PartOf text ∧ ∀ f ∈ d.value, f.note.Within d.note

/-- The definitions lie one after the other within a span. -/
def DefinitionSet.Nested (text : List Char) (s : Span) (set : DefinitionSet.Placed) : Prop :=
  s.Holds (set.definitions.map Definition.note) ∧ ∀ d ∈ set.definitions, d.Encloses text

/-- What is right below the first layer lies within its span, in order; a name or a value is
written with one token. -/
def Shape.Nested (text : List Char) (s : Span) : Shape Formula.Placed DefinitionSet.Placed → Prop
  | .null => Written text s .null
  | .bool value => Written text s (.bool value)
  | .number value => s.isEmpty = false → Written text s (.number value)
  | .text value => Written text s (.text value)
  | .name n => Written text s (.name n)
  | .call callee arguments => callee.note.Within s ∧ s.Holds (arguments.map Formula.note)
  | .list items => s.Holds (items.map Formula.note)
  | .matrix _ => True
  | .closure _ body => body.Nested text s
  | .switch cases => s.Holds ((cases.flatMap Case.parts).map Formula.note)

/-- The formula covers a part of the text, and what is right below it is nested in it. -/
def Formula.Nested (text : List Char) : Formula.Placed → Prop
  | .node s shape => s.PartOf text ∧ shape.Nested text s

/-- The formula and all formulas in it are nested in the text. -/
abbrev Formula.Settled (text : List Char) (f : Formula.Placed) : Prop :=
  f.Throughout (Formula.Nested text)

/-- The definition encloses what it stands for, in which everything is nested. -/
def Definition.Settled (text : List Char) (d : Definition.Placed) : Prop :=
  d.Encloses text ∧ ∀ f ∈ d.value, f.Settled text

variable {text : List Char} {f left right callee : Formula.Placed} {s : Span} {start : Position}
  {lo hi : Nat}

lemma Formula.Settled.partOf (h : f.Settled text) : f.note.PartOf text := by
  cases h with
  | intro here _ => exact here.1

/-- A name or a value. -/
lemma Formula.settled_of_written {shape : Shape Formula.Placed DefinitionSet.Placed}
    (hs : s.PartOf text) {t : Token} (ht : t.Writes shape) (h : shape.Written text s) :
    Formula.Settled text (.node s shape) := by
  cases ht with
  | number _ => exact .intro ⟨hs, fun _ => h⟩ nofun
  | _ => exact .intro ⟨hs, h⟩ nofun

/-! ## Definitions -/

/-- A definition that covers just what its formula covers. -/
lemma Definition.settled_whole {n : String} (h : f.Settled text) :
    Definition.Settled text (.node f.note n (some f)) := by
  refine ⟨⟨h.partOf, ?_⟩, ?_⟩
  · rintro g ⟨⟩
    exact ⟨Nat.le_refl _, h.partOf.start_le, Nat.le_refl _⟩
  · rintro g ⟨⟩
    exact h

lemma DefinitionSet.nested_ofDefinitions {ds : List Definition.Placed}
    (h : Ascending s.start.byte s.stop.byte (ds.map Definition.note))
    (hds : ∀ d ∈ ds, d.Settled text) : (DefinitionSet.ofDefinitions ds).Nested text s ∧
      (DefinitionSet.ofDefinitions ds).Throughout (Formula.Nested text) := by
  refine ⟨⟨h.holds, fun d hd => (hds d hd).1⟩, fun f hf => ?_⟩
  rw [ofDefinitions, formulas, List.append_nil, List.mem_filterMap] at hf
  obtain ⟨d, hd, hvalue⟩ := hf
  exact (hds d hd).2 f hvalue

/-! ## Operations -/

/-- An operation covers its operands and the operator between them. -/
lemma Formula.settled_operation {symbol : Located String}
    (h : Ascending lo hi [left.note, symbol.span, right.note]) (hleft : left.Settled text)
    (hright : right.Settled text)
    (hsymbol : Formula.Settled text (.node symbol.span (.name symbol.value))) :
    (Formula.operation symbol left right).Settled text ∧
      Ascending lo hi [(Formula.operation symbol left right).note] := by
  obtain ⟨hlo, hle, -, hlo', hle', -, hlo'', hle'', hhi, -⟩ := h
  obtain ⟨hpart, hstart, hstop⟩ :=
    hleft.partOf.hull hright.partOf (by omega) (by omega)
  have hoperands : Ascending (left.note.hull right.note).start.byte
      (left.note.hull right.note).stop.byte [left.note, right.note] := by
    rw [hstart, hstop]
    exact ⟨Nat.le_refl _, hle, by omega, by omega, hle'', Nat.le_refl _, trivial⟩
  refine ⟨.intro ⟨hpart, ⟨?_, hle', ?_⟩, hoperands.holds⟩ fun g hg => ?_, ?_⟩
  · rw [hstart]
    exact Nat.le_trans hle hlo'
  · rw [hstop]
    exact Nat.le_trans hlo'' hle''
  · simp only [Shape.children, List.mem_cons, List.not_mem_nil, or_false] at hg
    rcases hg with rfl | rfl | rfl
    · exact hsymbol
    · exact hleft
    · exact hright
  · show Ascending lo hi [left.note.hull right.note]
    refine ascending_singleton ?_ ?_ ?_
    · rwa [hstart]
    · exact hpart.start_le
    · rwa [hstop]

/-- A minus in front of an operand subtracts it from a zero that covers nothing. -/
lemma Formula.settled_negation {minus : Span} (h : Ascending lo hi [minus, f.note])
    (hf : f.Settled text) (hminus : Formula.Settled text (.node minus (.name "-"))) :
    (Formula.negation minus f).Settled text ∧
      Ascending lo hi [(Formula.negation minus f).note] := by
  obtain ⟨hlo, hle, hhi, hrest⟩ := h
  have hplace := hminus.partOf.start
  have hzero : Formula.Settled text
      (.node (Span.point minus.start) (.number Binary64.zero)) := by
    refine .intro ⟨Span.partOf_of_place hplace hplace (Nat.le_refl _), fun hempty => ?_⟩ nofun
    simp [Span.point, Span.isEmpty] at hempty
  have hrow : Ascending lo hi [Span.point minus.start, minus, f.note] :=
    ⟨hlo, Nat.le_refl _, Nat.le_trans hle hhi, Nat.le_refl _, hle, hhi, hrest⟩
  exact settled_operation hrow hzero hf hminus

/-- The parts of a link are nested in the text. -/
def Link.Settled (text : List Char) : Link Formula.Placed → Prop
  | .operand f => f.Settled text
  | .operator symbol => Formula.Settled text (.node symbol.span (.name symbol.value))

/-- However a chain is put together, every operation in it covers its operands. -/
lemma Operation.settled_value (x : Operation Formula.Placed) (hle : lo ≤ hi)
    (h : Ascending lo hi (x.links.map Formula.joining.linkSpan))
    (hlinks : ∀ l ∈ x.links, l.Settled text) :
    (x.value Formula.joining).Settled text ∧
      Ascending lo hi [(x.value Formula.joining).note] := by
  induction x generalizing lo hi with
  | operand f => exact ⟨hlinks (.operand f) (List.mem_singleton.mpr rfl), h⟩
  | apply symbol left right ihl ihr =>
    rw [Operation.links, List.forall_mem_append, List.forall_mem_cons] at hlinks
    rw [Operation.links, List.map_append, List.map_cons] at h
    obtain ⟨mid, hmid, hmid', hleft, hsymbol, hwidth, hbound, hright⟩ := h.split hle
    obtain ⟨hleft, hleftspan⟩ := ihl hmid hleft hlinks.1
    obtain ⟨hright, hrightspan⟩ := ihr hbound hright hlinks.2.2
    have hrest : Ascending mid hi [symbol.span, (right.value Formula.joining).note] :=
      ⟨hsymbol, hwidth, hbound, hrightspan⟩
    exact Formula.settled_operation (hleftspan.append hrest hmid' hmid) hleft hright hlinks.2.1

/-! ## Calls -/

/-- A call covers its callee and its arguments. -/
lemma Formula.settled_call {arguments : List Formula.Placed} (hs : s.PartOf text)
    (hcallee : callee.note.Within s)
    (h : Ascending s.start.byte s.stop.byte (arguments.map Formula.note))
    (hsettled : callee.Settled text) (harguments : ∀ f ∈ arguments, f.Settled text) :
    Formula.Settled text (.node s (.call callee arguments)) :=
  .intro ⟨hs, hcallee, h.holds⟩ (List.forall_mem_cons.mpr ⟨hsettled, harguments⟩)

/-- The spans of an argument list, and where it ends. -/
def listSpans (l : List Formula.Placed × Position) : List Span :=
  l.1.map Formula.note ++ [Span.point l.2]

/-- A formula that is applied to argument lists covers all of them. -/
lemma Formula.settled_calls {lists : List (List Formula.Placed × Position)}
    (hstart : Place text start)
    (h : Ascending start.byte hi (callee.note :: lists.flatMap listSpans))
    (hcallee : callee.Settled text)
    (hlists : ∀ l ∈ lists, Place text l.2 ∧ ∀ f ∈ l.1, f.Settled text) :
    (lists.foldl (fun f (list, stop) => .node ⟨start, stop⟩ (.call f list)) callee).Settled text ∧
      Ascending start.byte hi
        [(lists.foldl (fun f (list, stop) => .node ⟨start, stop⟩ (.call f list)) callee).note] := by
  induction lists generalizing callee with
  | nil => exact ⟨hcallee, h⟩
  | cons l lists ih =>
    obtain ⟨arguments, stop⟩ := l
    rw [List.forall_mem_cons] at hlists
    obtain ⟨hbegin, hle, hhi, hrest⟩ := h
    rw [List.flatMap_cons] at hrest
    obtain ⟨mid, hmid, hmid', hlist, hmore⟩ := hrest.split hhi
    have hlist : Ascending callee.note.stop.byte mid
        (arguments.map Formula.note ++ [Span.point stop]) := hlist
    -- a call ends where its argument list does, not where its last argument does
    obtain ⟨last, hlast, -, harguments, hstop, -, hend, -⟩ := hlist.split hmid
    have hstop : last ≤ stop.byte := hstop
    have hend : stop.byte ≤ mid := hend
    have hcall : Formula.Settled text (.node ⟨start, stop⟩ (.call callee arguments)) := by
      refine settled_call (Span.partOf_of_place hstart hlists.1.1 ?_) ⟨hbegin, hle, ?_⟩ ?_ hcallee
        hlists.1.2
      · show start.byte ≤ stop.byte
        omega
      · exact Nat.le_trans hlast hstop
      · exact harguments.mono (Nat.le_trans hbegin hle) hstop
    refine ih ⟨Nat.le_refl _, ?_, Nat.le_trans hend hmid', hmore.mono hend (Nat.le_refl _)⟩ hcall
      hlists.2
    show start.byte ≤ stop.byte
    omega

end Formulary
