/-
# Pieces of a written program

A piece is read as its tokens wherever it stands, given what follows it: the end of a word for
all pieces, and for a piece of several lines the end of the blocks in it.  Pieces are put together
to larger ones, side by side with a symbol between them, separated by commas, on lines of their
own, and in groups and blocks.
-/
import Formulary.Proofs.Grammar.Program
import Formulary.Proofs.Layout.Words

namespace Formulary.Layout

open Text Word Parsing Token Grammar

variable {α : Type} {d : Nat} {b : Binding} {cs ds rest : List Char} {ts us : List Token}
  {E : Option Nat} {p : Option Char} {s : String}

/-- At depth `d` the text of a piece is read as the tokens, if what follows ends a word and, where
the piece has several lines, its blocks. -/
def Lexes (d : Nat) (b : Binding) (cs : List Char) (ts : List Token) : Prop :=
  ∀ ⦃E p rest⦄, E.getD 0 ≤ 2 * d → Opens p → Stops rest → (b = .multiline → Leaves d rest) →
    Emits E p cs ts rest

/-- The line break that is added after the last block of a piece. -/
def trail : Binding → List Token
  | .multiline => [Token.lineBreak]
  | _ => []

lemma trails_trail (b : Binding) : Trails (trail b) := by
  intro t ht
  cases b <;> simp [trail] at ht
  exact ht

lemma Lexes.loosen (h : Lexes d b cs ts) : Lexes d .multiline cs ts :=
  fun _ _ _ hE hp hrest hleaves => h hE hp hrest fun _ => hleaves rfl

lemma Lexes.tighten (h : Lexes d b cs ts) (hb : b ≠ .multiline) (b' : Binding) : Lexes d b' cs ts :=
  fun _ _ _ hE hp hrest _ => h hE hp hrest fun hb' => absurd hb' hb

lemma opens_space : Opens (some ' ') := by
  rintro c ⟨⟩
  decide

lemma stops_space : Stops (' ' :: cs) := stops_cons (by decide)

/-! ## Side by side -/

/-- Two pieces with a symbol between them. -/
lemma Lexes.spaced (h : Lexes d .atomic cs ts) (hs : ∀ c ∈ s.toList, isOperatorChar c = true)
    (hne : s.toList ≠ []) (hds : Inked ds) (h' : Lexes d b ds us) :
    Lexes d b (cs ++ ' ' :: (s.toList ++ ' ' :: ds)) (ts ++ spaced s us) := by
  intro E p rest hE hp hrest hleaves
  have hfirst : Emits E p cs ts (' ' :: (s.toList ++ ' ' :: ds) ++ rest) :=
    h hE hp stops_space fun hb => by cases hb
  have hinked : Inked (s.toList ++ ' ' :: ds ++ rest) :=
    ((inked_symbol hs hne).append _).append _
  have hbefore : Emits E (lastOf p cs) [' '] [Token.space] (s.toList ++ ' ' :: ds ++ rest) :=
    emits_space hinked
  have hsymbol : Emits E (some ' ') s.toList [operator s] (' ' :: ds ++ rest) := by
    refine emits_symbol hs hne ?_
    rintro c ⟨⟩
    decide
  have hafter : Emits E (lastOf (some ' ') s.toList) [' '] [Token.space] (ds ++ rest) :=
    emits_space (hds.append rest)
  exact hfirst.append (hbefore.append (hsymbol.append
    (hafter.append (h' hE opens_space hrest hleaves))))

/-- A piece in front of which there is a word. -/
lemma lexes_name (n : String) : Lexes d b (name n).toList [ident n (isQuoted n)] :=
  fun _ _ _ _ _ hrest _ => emits_name n hrest

/-! ## Groups -/

/-- A piece that fills a group. -/
lemma Lexes.group {kind : GroupKind} {o q : Char} (hkind : kind.delimiters = some (o, q))
    (ho : Opens (some o)) (hq : q ∈ delimiters ∧ q ∈ closers) (h : Lexes d b cs ts) :
    Emits E p (o :: cs ++ [q]) [grouped kind ts] rest :=
  emits_group hkind (h (Nat.zero_le _) ho (stops_cons hq.1) fun _ => .inl (shuts_cons hq.2))

lemma Lexes.parens (h : Lexes d b cs ts) :
    Emits E p ('(' :: cs ++ [')']) [grouped .parens ts] rest := by
  refine h.group (o := '(') (q := ')') rfl ?_ (by decide)
  rintro c ⟨⟩
  decide

lemma Lexes.brackets (h : Lexes d b cs ts) :
    Emits E p ('[' :: cs ++ [']']) [grouped .brackets ts] rest := by
  refine h.group (o := '[') (q := ']') rfl ?_ (by decide)
  rintro c ⟨⟩
  decide

/-- What is read as the tokens in every place is so in the places of a piece. -/
lemma lexes_of_emits (h : ∀ E p rest, Emits E p cs ts rest) : Lexes d b cs ts :=
  fun E p rest _ _ _ _ => h E p rest

/-! ## Lists -/

section Lists

variable {R : List Token → α → Prop} {texts : List String} {as : List α}

/-- The text of a piece, which stands for an element. -/
def Stands (R : List Token → α → Prop) (d : Nat) (s : String) (a : α) : Prop :=
  Inked s.toList ∧ ∃ ts, R ts a ∧ Lexes d .atomic s.toList ts

lemma toList_commaSeparated_cons (s t : String) (l : List String) :
    (commaSeparated (s :: t :: l)).toList =
      s.toList ++ ',' :: ' ' :: (commaSeparated (t :: l)).toList := by
  simp [commaSeparated, String.intercalate_cons_cons]

/-- Pieces separated by commas. -/
lemma lexes_commaSeparated (h : List.Forall₂ (Stands R d) texts as) :
    (texts ≠ [] → Inked (commaSeparated texts).toList) ∧
      ∃ ts, Separated R ts as ∧ Lexes d .atomic (commaSeparated texts).toList ts := by
  induction h with
  | nil => exact ⟨fun hne => absurd rfl hne, [], .nil, fun _ _ _ _ _ _ _ => emits_nil⟩
  | @cons s a texts as hfirst hmore ih =>
    obtain ⟨hinked, ts, hts, hlex⟩ := hfirst
    obtain ⟨hinked', us, hus, hlex'⟩ := ih
    cases hmore with
    | nil =>
      rw [commaSeparated, String.intercalate_singleton]
      exact ⟨fun _ => hinked, ts, .single hts, hlex⟩
    | @cons t a' texts as _ _ =>
      rw [toList_commaSeparated_cons]
      refine ⟨fun _ => hinked.append _, _, .cons hts hus, ?_⟩
      intro E p rest hE hp hrest _
      have hbefore : Emits E p s.toList ts
          (',' :: ' ' :: (commaSeparated (t :: texts)).toList ++ rest) :=
        hlex hE hp (stops_cons (by decide)) fun hb => by cases hb
      have hcomma : Emits E (lastOf p s.toList) [','] [Token.comma]
          (' ' :: (commaSeparated (t :: texts)).toList ++ rest) := emits_comma
      have hspace : Emits E (some ',') [' '] [Token.space]
          ((commaSeparated (t :: texts)).toList ++ rest) :=
        emits_space ((hinked' (by simp)).append rest)
      have hafter : Emits E (some ' ') (commaSeparated (t :: texts)).toList us rest :=
        hlex' hE opens_space hrest fun hb => by cases hb
      exact hbefore.append (hcomma.append (hspace.append hafter))

/-! ## Lines -/

/-- The text of a piece that may have several lines, which stands for an element. -/
def StandsInLine (R : List Token → α → Prop) (d : Nat) (s : String) (a : α) : Prop :=
  Inked s.toList ∧ ∃ ts us, R ts a ∧ Trails us ∧ Lexes d .multiline s.toList (ts ++ us)

/-- Lines at a depth. -/
def stacked (d : Nat) : List String → List Char
  | [] => []
  | s :: l => s.toList ++ l.flatMap fun s => (newLine d).toList ++ s.toList

lemma stacked_cons_cons (d : Nat) (s t : String) (l : List String) :
    stacked d (s :: t :: l) = s.toList ++ ((newLine d).toList ++ stacked d (t :: l)) := by
  simp [stacked]

lemma opens_newLine (p : Option Char) (d : Nat) : Opens (lastOf p (newLine d).toList) := by
  rw [toList_newLine, lastOf_cons]
  cases d with
  | zero =>
    rintro c ⟨⟩
    decide
  | succ d =>
    have hsplit : spaces (2 * (d + 1)) = spaces (2 * d + 1) ++ [' '] := List.replicate_succ'
    rw [hsplit, lastOf_append]
    exact opens_space

lemma leaves_newLine (h : Inked cs) : Leaves d ((newLine d).toList ++ cs) := by
  refine .inr fun n hn => ?_
  rw [toList_newLine, blockEnds_line n _ h]
  exact decide_eq_true hn

/-- Pieces on lines of their own. -/
lemma lexes_stacked (h : List.Forall₂ (StandsInLine R d) texts as) :
    (texts ≠ [] → Inked (stacked d texts)) ∧
      ∃ ts, Lines R ts as ∧ Lexes d .multiline (stacked d texts) ts := by
  induction h with
  | nil => exact ⟨fun hne => absurd rfl hne, [], .nil, fun _ _ _ _ _ _ _ => emits_nil⟩
  | @cons s a texts as hfirst hmore ih =>
    obtain ⟨hinked, ts, us, hts, hus, hlex⟩ := hfirst
    obtain ⟨hinked', vs, hvs, hlex'⟩ := ih
    cases hmore with
    | nil =>
      have hone : stacked d [s] = s.toList := by simp [stacked]
      rw [hone]
      exact ⟨fun _ => hinked, ts ++ us, .single hts hus, hlex⟩
    | @cons t a' texts as _ _ =>
      have hnext : Inked (stacked d (t :: texts)) := hinked' (by simp)
      rw [stacked_cons_cons]
      refine ⟨fun _ => hinked.append _, ts ++ us ++ Token.lineBreak :: vs, ?_, ?_⟩
      · -- the line break after the row comes after the ones that belong to it
        have hsplit : ts ++ us ++ Token.lineBreak :: vs = ts ++ Token.lineBreak :: (us ++ vs) := by
          have hshift : us ++ [Token.lineBreak] = Token.lineBreak :: us := by
            rw [List.eq_replicate_of_mem hus, ← List.replicate_succ', List.replicate_succ]
          calc ts ++ us ++ Token.lineBreak :: vs = ts ++ (us ++ [Token.lineBreak] ++ vs) := by simp
            _ = ts ++ Token.lineBreak :: (us ++ vs) := by rw [hshift, List.cons_append]
        rw [hsplit]
        exact .cons hts hus hvs
      · intro E p rest hE hp hrest hleaves
        have hbefore : Emits E p s.toList (ts ++ us)
            ((newLine d).toList ++ stacked d (t :: texts) ++ rest) := by
          refine hlex hE hp ?_ fun _ => ?_
          · rw [toList_newLine]
            exact stops_cons (by decide)
          · rw [List.append_assoc]
            exact leaves_newLine (hnext.append rest)
        have hline : Emits E (lastOf p s.toList) (newLine d).toList [Token.lineBreak]
            (stacked d (t :: texts) ++ rest) := by
          rw [toList_newLine]
          exact emits_line hE (hnext.append rest)
        have hafter := hlex' hE (opens_newLine (lastOf p s.toList) d) hrest hleaves
        exact hbefore.append (hline.append hafter)

end Lists

/-! ## Blocks -/

/-- A word with lines below it. -/
lemma lexes_opened {w : String} (hword : w ∈ ["where", "switch"]) (hcs : Inked cs)
    (h : Lexes (d + 1) .multiline cs ts) :
    Lexes d .multiline (w.toList ++ ((newLine (d + 1)).toList ++ cs))
      [ident w false, grouped .indented ts, Token.lineBreak] :=
  fun _ _ _ hE _ hrest hleaves => emits_opened hword hE hcs (hleaves rfl)
    (h (Nat.le_refl _) opens_space hrest fun _ => (hleaves rfl).deeper)

/-! ## Fragments -/

/-- The tokens are a chain that binds at least as tight as the tier of the given tightness. -/
def IsChain (n : Nat) (ts : List Token) (f : Formula.Bare) : Prop :=
  ∃ x : Operation Formula.Bare, AreLinks ts x.links ∧ x.Grouped ∧ n ≤ x.tightness ∧
    x.value Formula.bareJoining = f

/-- The tokens are accepted as the formula wherever a fragment of that binding may stand. -/
def Fits (b : Binding) (ts : List Token) (f : Formula.Bare) : Prop :=
  match b with
  | .multiline | .argument => IsFormula ts f
  | .operation tier => IsChain tier.tightness ts f
  | .sign | .atomic => IsOperand ts f

variable {f g : Formula.Bare} {fr left right : Fragment}

lemma isChain_of_isOperand (h : IsOperand ts f) {n : Nat} (hn : n ≤ Tier.power.tightness + 1) :
    IsChain n ts f := ⟨.operand f, .single h, trivial, hn, rfl⟩

lemma IsChain.isFormula {n : Nat} (h : IsChain n ts f) : IsFormula ts f := by
  obtain ⟨x, hlinks, hgrouped, -, rfl⟩ := h
  exact hlinks.isFormula hgrouped

lemma Fits.isFormula (h : Fits b ts f) : IsFormula ts f := by
  cases b with
  | multiline => exact h
  | argument => exact h
  | operation tier => exact IsChain.isFormula h
  | sign => exact (isChain_of_isOperand h (Nat.zero_le _)).isFormula
  | atomic => exact (isChain_of_isOperand h (Nat.zero_le _)).isFormula

/-- What binds at least as tight as a tier is a chain that does. -/
lemma Fits.isChain (h : Fits b ts f) {n : Nat} (hn : n ≤ Tier.power.tightness + 1)
    (hb : n + 2 ≤ b.tightness) : IsChain n ts f := by
  cases b with
  | multiline => simp [Binding.tightness] at hb
  | argument => simp [Binding.tightness] at hb
  | operation tier =>
    obtain ⟨x, hlinks, hgrouped, htight, hvalue⟩ := h
    exact ⟨x, hlinks, hgrouped, Nat.le_trans (Nat.le_of_add_le_add_right hb) htight, hvalue⟩
  | sign => exact isChain_of_isOperand h hn
  | atomic => exact isChain_of_isOperand h hn

/-- At depth `d` the fragment is read as the formula. -/
structure Means (d : Nat) (fr : Fragment) (f : Formula.Bare) : Prop where
  inked : Inked fr.text.toList
  reads : ∃ ts, Fits fr.binding ts f ∧
    Lexes d fr.binding fr.text.toList (ts ++ trail fr.binding)

/-- The text begins neither with an operator nor with a digit, so that an operator in front of it
stays apart. -/
def Bounds (cs : List Char) : Prop := ∀ c ∈ cs.head?, isOperatorChar c = false ∧ c.isDigit = false

/-- A text that is read as the formula also right after a minus. -/
structure MeansTightly (d : Nat) (s : String) (f : Formula.Bare) : Prop where
  inked : Inked s.toList
  bounds : Bounds s.toList
  reads : ∃ ts, IsPrimary ts f ∧ Lexes d .atomic s.toList ts

lemma MeansTightly.means {s : String} (h : MeansTightly d s f) : Means d (atom s) f := by
  obtain ⟨ts, hts, hlex⟩ := h.reads
  refine ⟨h.inked, ts, hts.isOperand, ?_⟩
  simpa [trail, atom] using hlex

lemma toList_parenthesized (s : String) : s!"({s})".toList = '(' :: s.toList ++ [')'] := by
  simp [toString]

/-- In parentheses a fragment can be applied to arguments. -/
lemma Means.callee (h : Means d fr f) :
    ∃ t, IsCallee t f ∧ Lexes d .atomic ('(' :: fr.text.toList ++ [')']) [t] := by
  obtain ⟨ts, hts, hlex⟩ := h.reads
  exact ⟨_, hts.isFormula.isCallee (trails_trail _), lexes_of_emits fun _ _ _ => hlex.parens⟩

lemma Means.parens (h : Means d fr f) : MeansTightly d s!"({fr.text})" f := by
  obtain ⟨t, ht, hlex⟩ := h.callee
  rw [← toList_parenthesized] at hlex
  refine ⟨?_, ?_, [t], ht.isPrimary, hlex⟩
  · rw [toList_parenthesized]
    exact ⟨'(', rfl, by decide⟩
  · rw [toList_parenthesized]
    rintro c ⟨⟩
    decide

/-- A fragment in its place is itself or stands in parentheses. -/
lemma Means.within_cases (h : Means d fr f) (required : Binding) :
    MeansTightly d (fr.within required) f ∨
      fr.within required = fr.text ∧ required.tightness ≤ fr.binding.tightness := by
  unfold Fragment.within
  split
  · exact .inl h.parens
  · rename_i hle
    exact .inr ⟨rfl, Nat.not_lt.mp hle⟩

/-- Where a fragment of one line is required, the text stands for what the tokens are. -/
lemma Means.within_stands (h : Means d fr f) {required : Binding}
    (hrequired : 0 < required.tightness) {R : List Token → Formula.Bare → Prop}
    (htight : ∀ ts, IsPrimary ts f → R ts f)
    (hfits : ∀ ts, required.tightness ≤ fr.binding.tightness → Fits fr.binding ts f → R ts f) :
    Stands R d (fr.within required) f := by
  rcases h.within_cases required with htightly | ⟨htext, hle⟩
  · obtain ⟨ts, hts, hlex⟩ := htightly.reads
    exact ⟨htightly.inked, ts, htight ts hts, hlex⟩
  · obtain ⟨ts, hts, hlex⟩ := h.reads
    have hline : fr.binding ≠ .multiline := by
      intro hb
      rw [hb] at hle
      exact absurd hle (Nat.not_le.mpr hrequired)
    have htrail : trail fr.binding = [] := by
      cases hb : fr.binding <;> first | rfl | exact absurd hb hline
    rw [htrail, List.append_nil] at hlex
    rw [htext]
    exact ⟨h.inked, ts, hfits ts hle hts, hlex.tighten hline .atomic⟩

lemma Means.within_argument (h : Means d fr f) : Stands IsFormula d (fr.within .argument) f :=
  h.within_stands (by decide)
    (fun _ hts => (isChain_of_isOperand hts.isOperand (Nat.zero_le _)).isFormula)
    fun _ _ hts => hts.isFormula

lemma Means.within_operation (h : Means d fr f) (tier : Tier) :
    Stands (IsChain tier.tightness) d (fr.within (.operation tier)) f := by
  have hle : tier.tightness ≤ Tier.power.tightness + 1 :=
    Nat.le_succ_of_le (Operation.tightness_le_power tier)
  have hpos : 0 < (Binding.operation tier).tightness := Nat.succ_pos _
  exact h.within_stands hpos (fun _ hts => isChain_of_isOperand hts.isOperand hle)
    fun _ hbinding hts => hts.isChain hle hbinding

/-- The right operand of an operator binds tighter than the operator. -/
lemma Means.within_right (h : Means d fr f) (tier : Tier) :
    Stands (IsChain (tier.tightness + 1)) d (fr.within (rightRequirement tier)) f := by
  have hle : tier.tightness + 1 ≤ Tier.power.tightness + 1 :=
    Nat.succ_le_succ (Operation.tightness_le_power tier)
  have hrequired : tier.tightness + 1 + 2 ≤ (rightRequirement tier).tightness := by
    cases tier <;> decide
  exact h.within_stands (Nat.lt_of_lt_of_le (Nat.succ_pos _) hrequired)
    (fun _ hts => isChain_of_isOperand hts.isOperand hle)
    fun _ hbinding hts => hts.isChain hle (Nat.le_trans hrequired hbinding)

end Formulary.Layout
