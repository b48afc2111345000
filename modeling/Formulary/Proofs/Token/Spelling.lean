/-
# Spellings of tokens

What a token tells about the text it was read from.  A token without further tokens in it is
spelled by the characters that it is written with, and these give its value.  A row of tokens
tiles a text: each token begins where the one before it ends.  The tokens of a delimited group
tile what is between the delimiters, and those of an indented block what follows the white space
in front of its first line.  Only the line break after an indented block has no extent.
-/
import Mathlib.Tactic.Common
import Formulary.Proofs.Data.Lists
import Formulary.Text.LineBreak
import Formulary.Token.Basic

namespace Formulary

open Text

namespace Text

/-- The spans follow each other without gaps, from one position to another. -/
def Row (start stop : Position) : List Span → Prop
  | [] => start = stop
  | s :: ss => s.start = start ∧ Row s.stop stop ss

/-! ## Slices -/

/-- The number of bytes of a text. -/
def byteLength : List Char → Nat
  | [] => 0
  | c :: cs => c.utf8Size + byteLength cs

lemma Position.after_byte (p : Position) (cs : List Char) :
    (p.after cs).byte = p.byte + byteLength cs := by
  induction cs generalizing p with
  | nil => simp [byteLength]
  | cons c cs ih =>
    rw [Position.after_cons, ih, Position.advance_byte]
    rw [byteLength, Nat.add_assoc]

lemma byte_lt_after {p : Position} {cs : List Char} (h : cs ≠ []) : p.byte < (p.after cs).byte := by
  cases cs with
  | nil => exact absurd rfl h
  | cons c cs =>
    have hsize := Char.utf8Size_pos c
    rw [Position.after_byte, byteLength]
    omega

lemma splitBytes?_byteLength (cs ds : List Char) :
    splitBytes? (byteLength cs) (cs ++ ds) = some (cs, ds) := by
  induction cs with
  | nil =>
    cases ds <;> simp [byteLength, splitBytes?]
  | cons c cs ih =>
    have hpos := Char.utf8Size_pos c
    rw [List.cons_append, byteLength, splitBytes?, if_neg (by omega), if_neg (by omega),
      Nat.add_sub_cancel_left, ih]
    rfl

/-- The slice of a text between two of its places. -/
lemma slice?_eq_some (before cs after : List Char) :
    (⟨Position.after {} before, Position.after {} (before ++ cs)⟩ : Span).slice?
      (before ++ cs ++ after) = some cs := by
  have hstart : (Position.after {} before).byte = byteLength before := by
    rw [Position.after_byte]
    simp
  have hstop : (Position.after {} (before ++ cs)).byte = byteLength before + byteLength cs := by
    rw [Position.after_append, Position.after_byte, hstart]
  unfold Span.slice?
  simp only [hstart, hstop]
  rw [if_neg (by omega), List.append_assoc, splitBytes?_byteLength]
  simp only [Nat.add_sub_cancel_left, Option.bind_eq_bind, Option.bind_some,
    splitBytes?_byteLength]
  rfl

end Text

namespace Token

/-! ## Single tokens -/

/-- The characters between the quotes of a text, and those that they stand for: a backslash is
dropped and keeps the character after it as it is. -/
inductive Unescapes : List Char → List Char → Prop
  | nil : Unescapes [] []
  | plain {c : Char} {cs ds : List Char} (hquote : c ≠ '"') (hbackslash : c ≠ '\\')
      (h : Unescapes cs ds) : Unescapes (c :: cs) (c :: ds)
  | escaped {c : Char} {cs ds : List Char} (h : Unescapes cs ds) :
      Unescapes ('\\' :: c :: cs) (c :: ds)

/-- A token without tokens in it, and the characters that it is written with. -/
inductive Leaf : Token → List Char → Prop
  | bareName (cs : List Char) : Leaf (.ident (String.ofList cs) false) cs
  | rawName (hashes : Nat) (cs : List Char) :
      Leaf (.ident (String.ofList cs) true)
        ('r' :: List.replicate hashes '#' ++ '"' :: cs ++ '"' :: List.replicate hashes '#')
  | operator (cs : List Char) : Leaf (.operator (String.ofList cs)) cs
  | whole {cs : List Char} (h : '.' ∉ cs) : Leaf (.number (String.ofList cs) none) cs
  | fraction {cs : List Char} (ds : List Char) (h : '.' ∉ cs) :
      Leaf (.number (String.ofList cs) (some (String.ofList ds))) (cs ++ '.' :: ds)
  | null : Leaf .null "null".toList
  | yes {cs : List Char} (h : cs = "yes".toList ∨ cs = "true".toList) : Leaf (.bool true) cs
  | no {cs : List Char} (h : cs = "no".toList ∨ cs = "false".toList) : Leaf (.bool false) cs
  | text {cs ds : List Char} (h : Unescapes cs ds) :
      Leaf (.text (String.ofList ds)) ('"' :: cs ++ ['"'])
  | comma : Leaf .comma [',']
  | space {cs : List Char} (hblank : ∀ c ∈ cs, isBlank c = true) (hline : '\n' ∉ cs) :
      Leaf .space cs
  | lineBreak {cs : List Char} (hblank : ∀ c ∈ cs, isBlank c = true) (hline : '\n' ∈ cs) :
      Leaf .lineBreak cs

/-! ## Rows of tokens -/

mutual

/-- A token at a position, and the characters that it covers. -/
inductive Spells : Position → Token → List Char → Prop
  | leaf {p : Position} {t : Token} {cs : List Char} (h : Leaf t cs) : Spells p t cs
  | delimited {p : Position} {kind : GroupKind} {opening closing : Char}
      {tokens : List (Located Token)} {cs : List Char}
      (hkind : kind.delimiters = some (opening, closing))
      (h : Tiles (p.advance opening) tokens cs) :
      Spells p (.group kind tokens) (opening :: cs ++ [closing])
  | indented {p : Position} {tokens : List (Located Token)} {blank cs : List Char}
      (hblank : ∀ c ∈ blank, isBlank c = true) (hline : '\n' ∈ blank)
      (hfirst : ∀ c ∈ cs.head?, isBlank c = false) (h : Tiles (p.after blank) tokens cs) :
      Spells p (.group .indented tokens) (blank ++ cs)

/-- A row of tokens from a position on, and the characters that it covers. -/
inductive Tiles : Position → List (Located Token) → List Char → Prop
  | nil {p : Position} : Tiles p [] []
  | cons {p : Position} {t : Token} {tokens : List (Located Token)} {cs ds : List Char}
      (hplain : ∀ ts, t ≠ .group .indented ts) (head : Spells p t cs) (hne : cs ≠ [])
      (tail : Tiles (p.after cs) tokens ds) :
      Tiles p (⟨t, ⟨p, p.after cs⟩⟩ :: tokens) (cs ++ ds)
  | block {p : Position} {ts tokens : List (Located Token)} {cs ds : List Char}
      (head : Spells p (.group .indented ts) cs) (hne : cs ≠ [])
      (tail : Tiles (p.after cs) tokens ds) :
      Tiles p (⟨.group .indented ts, ⟨p, p.after cs⟩⟩ :: ⟨.lineBreak, Span.point (p.after cs)⟩ ::
        tokens) (cs ++ ds)

end

variable {p : Position} {tokens tokens' : List (Located Token)} {cs ds : List Char}

theorem Tiles.append : ∀ {p : Position} {tokens tokens' : List (Located Token)}
    {cs ds : List Char}, Tiles p tokens cs → Tiles (p.after cs) tokens' ds →
    Tiles p (tokens ++ tokens') (cs ++ ds)
  | _, _, _, _, _, .nil, h' => h'
  | p, _, tokens', _, ds, @Tiles.cons _ t tokens cs₁ cs₂ hplain head hne tail, h' => by
    rw [Position.after_append] at h'
    rw [List.append_assoc, List.cons_append]
    exact .cons hplain head hne (Tiles.append tail h')
  | p, _, tokens', _, ds, @Tiles.block _ ts tokens cs₁ cs₂ head hne tail, h' => by
    rw [Position.after_append] at h'
    rw [List.append_assoc, List.cons_append, List.cons_append]
    exact .block head hne (Tiles.append tail h')

theorem Tiles.row : ∀ {p : Position} {tokens : List (Located Token)} {cs : List Char},
    Tiles p tokens cs → Row p (p.after cs) (tokens.map Located.span)
  | _, _, _, .nil => rfl
  | _, _, _, .cons hplain head hne tail => by
    rw [Position.after_append]
    exact ⟨rfl, Tiles.row tail⟩
  | _, _, _, .block head hne tail => by
    rw [Position.after_append]
    exact ⟨rfl, rfl, Tiles.row tail⟩

/-- A token of a row, and the part of the text that it covers: if it has no extent, it is a line
break. -/
def Covers (p : Position) (text : List Char) (t : Located Token) : Prop :=
  ∃ before cs after, text = before ++ cs ++ after ∧
    t.span = ⟨p.after before, p.after (before ++ cs)⟩ ∧
    (Spells (p.after before) t.value cs ∧ cs ≠ [] ∨ t.value = .lineBreak ∧ cs = [])

/-- A part of a text is still covered if the text is a part of another one. -/
lemma Covers.inside {t : Located Token} {before : List Char}
    (h : Covers (p.after before) cs t) (after : List Char) :
    Covers p (before ++ cs ++ after) t := by
  obtain ⟨b, ds, a, rfl, hspan, hspell⟩ := h
  refine ⟨before ++ b, ds, a ++ after, by simp, ?_, ?_⟩
  · rw [hspan, List.append_assoc, Position.after_append p before b,
      Position.after_append p before (b ++ ds)]
  · rwa [Position.after_append]

theorem Tiles.covers : ∀ {p : Position} {tokens : List (Located Token)} {cs : List Char},
    Tiles p tokens cs → ∀ t ∈ tokens, Covers p cs t
  | _, _, _, .nil, t, ht => by simp at ht
  | p, _, _, @Tiles.cons _ t' tokens cs₁ cs₂ hplain head hne tail, t, ht => by
    rcases List.mem_cons.mp ht with rfl | ht
    · exact ⟨[], cs₁, cs₂, rfl, rfl, .inl ⟨head, hne⟩⟩
    · have hrest := (Tiles.covers tail t ht).inside []
      rwa [List.append_nil] at hrest
  | p, _, _, @Tiles.block _ ts tokens cs₁ cs₂ head hne tail, t, ht => by
    rcases List.mem_cons.mp ht with rfl | ht
    · exact ⟨[], cs₁, cs₂, rfl, rfl, .inl ⟨head, hne⟩⟩
    · rcases List.mem_cons.mp ht with rfl | ht
      · exact ⟨cs₁, [], cs₂, by simp, by simp [Span.point], .inr ⟨rfl, rfl⟩⟩
      · have hrest := (Tiles.covers tail t ht).inside []
        rwa [List.append_nil] at hrest

/-- A token of a row, or of a group in it, at any depth. -/
inductive Within (tokens : List (Located Token)) : Located Token → Prop
  | top {t : Located Token} (h : t ∈ tokens) : Within tokens t
  | inside {t : Located Token} {kind : GroupKind} {ts : List (Located Token)} {span : Span}
      (h : Within tokens ⟨.group kind ts, span⟩) (ht : t ∈ ts) : Within tokens t

/-- Every token of a row, at any depth, covers a part of the text that spells it. -/
lemma Tiles.covers_of_within (h : Tiles p tokens cs) {t : Located Token} (ht : Within tokens t) :
    Covers p cs t := by
  induction ht with
  | @top t ht => exact h.covers t ht
  | @inside t _ _ _ _ ht ih =>
    obtain ⟨before, ds, after, rfl, hspan, ⟨hspell, -⟩ | ⟨heq, -⟩⟩ := ih
    · cases hspell with
      | leaf hleaf => cases hleaf
      | @delimited _ _ opening closing _ es hkind htiles =>
        have hcovers : Covers (p.after (before ++ [opening])) es t := by
          rw [Position.after_append]
          exact htiles.covers t ht
        have := hcovers.inside (closing :: after)
        simpa using this
      | @indented _ _ blank es hblank hline hfirst htiles =>
        have hcovers : Covers (p.after (before ++ blank)) es t := by
          rw [Position.after_append]
          exact htiles.covers t ht
        have := hcovers.inside after
        simpa using this
    · cases heq

end Token

end Formulary
