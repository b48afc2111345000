/-
# Programs in other layouts

What a row of tokens is read as depends on the tokens and not on their layout: neither on the places
where they were read nor on whether a block is indented or in braces.  Two rows that differ in the
layout only meet, in both directions, so the grammar goes the same way through both.  What it makes
of them is the same but for the places, and where only the blocks differ the places are the same as
well.
-/
import Formulary.Proofs.Grammar.Composition
import Formulary.Proofs.Store.RoundTrip

namespace Formulary

open Text Parsing

variable {φ ψ : Position → Position}

/-! ## Tokens without their layout -/

/-- The kind of group that is taken for this one: braces for indentation. -/
def GroupKind.unlaid : GroupKind → GroupKind
  | .indented => .braces
  | kind => kind

/-- Kinds that are taken for the same meet. -/
lemma GroupKind.meet_of_unlaid {kind kind' : GroupKind} (h : kind.unlaid = kind'.unlaid) :
    kind.Meet kind' := by
  cases kind <;> cases kind' <;> first
    | exact .inl rfl
    | exact .inr ⟨rfl, rfl⟩
    | cases h

namespace Token

mutual

/-- A token without its layout: all blocks in it are in braces, at the places to which a map carries
them. -/
def unlaid (φ : Position → Position) : Token → Token
  | group kind tokens => group kind.unlaid (unlaidRow φ tokens)
  | ident name raw => ident name raw
  | operator symbol => operator symbol
  | number whole fraction => number whole fraction
  | bool value => bool value
  | null => null
  | text value => text value
  | comma => comma
  | space => space
  | lineBreak => lineBreak

/-- A row of tokens without their layout. -/
def unlaidRow (φ : Position → Position) : List (Located Token) → List (Located Token)
  | [] => []
  | ⟨t, s⟩ :: ts => ⟨t.unlaid φ, s.move φ⟩ :: unlaidRow φ ts

end

mutual

/-- Tokens that are the same without their layout meet. -/
theorem meet_of_unlaid : ∀ {t u : Token}, t.unlaid φ = u.unlaid ψ → Meet φ ψ t u
  | group kind ts, u, h => by
    cases u with
    | group kind' us =>
      rw [unlaid, unlaid, group.injEq] at h
      exact .group (GroupKind.meet_of_unlaid h.1) (rowsMeet_of_unlaid h.2)
    | _ => simp [unlaid] at h
  | ident _ _, u, h | operator _, u, h | number _ _, u, h | bool _, u, h | null, u, h
  | text _, u, h | comma, u, h | space, u, h | lineBreak, u, h => by
    cases u <;> simp only [unlaid, reduceCtorEq] at h
    all_goals
      cases h
      exact .leaf nofun

/-- Rows of tokens that are the same without their layout meet. -/
theorem rowsMeet_of_unlaid : ∀ {ts us : List (Located Token)},
    unlaidRow φ ts = unlaidRow ψ us → RowsMeet φ ψ [] ts us
  | [], us, h => by
    cases us with
    | nil => exact .done
    | cons u us =>
      rw [unlaidRow, unlaidRow] at h
      cases h
  | ⟨t, s⟩ :: ts, us, h => by
    cases us with
    | nil =>
      rw [unlaidRow, unlaidRow] at h
      cases h
    | cons u us =>
      obtain ⟨u, s'⟩ := u
      rw [unlaidRow, unlaidRow, List.cons.injEq, Located.mk.injEq] at h
      exact .cons (meet_of_unlaid h.1.1) h.1.2 (rowsMeet_of_unlaid h.2)

end

end Token

/-! ## Programs -/

/-- Rows that meet are read as programs that meet. -/
lemma DefinitionSet.exists_of_rowsMeet (hφ : KeepsHulls φ) (hψ : KeepsHulls ψ)
    {ts us : List (Located Token)} (h : Token.RowsMeet φ ψ [] ts us) {p : DefinitionSet.Placed}
    (hp : DefinitionSet.ofTokens ts = .ok p) :
    ∃ q, DefinitionSet.ofTokens us = .ok q ∧ p.move φ = q.move ψ := by
  -- rules that are entered from here meet only what is lighter than the row
  have hinner : Paired (Grammar.Facing φ ψ [] (Token.listWeight ts + 1))
      (Cursor.before ts (Token.rowSpan ts)) (Cursor.before us (Token.rowSpan us)) :=
    ⟨⟨h, fun hne => absurd rfl hne, Nat.lt_succ_self _⟩, (fun _ hf => by cases hf),
      (fun _ hf => by cases hf)⟩
  have hfollowed := follows_within (E := fun _ _ => True)
    (Grammar.follows_definitions (Grammar.alikeBelow hφ hψ _)) hinner (fun _ _ hcd => hcd.atEnd)
    ⟨trivial, hinner.calm, hinner.calm'⟩
  unfold DefinitionSet.ofTokens at hp ⊢
  dsimp only at hp ⊢
  split at hp
  · rename_i ds c hrun
    rw [hrun] at hfollowed
    obtain ⟨es, d, hrun', hmeet, -⟩ := hfollowed
    cases hp
    refine ⟨_, by rw [hrun'], ?_⟩
    rw [DefinitionSet.move_ofDefinitions, DefinitionSet.move_ofDefinitions,
      forall₂_iff_map_eq.mp hmeet]
  · cases hp

/-- Without its places a program is the same at other places. -/
lemma DefinitionSet.bare_move (p : DefinitionSet.Placed) : (p.move φ).bare = p.bare :=
  DefinitionSet.bare_move_of_formulas fun f _ => f.bare_move

lemma DefinitionSet.move_id (p : DefinitionSet.Placed) : p.move id = p :=
  DefinitionSet.move_id_of_formulas fun f _ => f.move_id

/-- A map that carries all places to one. -/
def nowhere (_ : Position) : Position := {}

lemma keepsHulls_nowhere : KeepsHulls nowhere :=
  keepsHulls_of_monotone (fun _ _ _ => Nat.le_refl _) fun _ _ _ _ => rfl

/-- A row that differs in its layout only is read as the same program, but for places. -/
lemma DefinitionSet.exists_of_unlaidRow {ts us : List (Located Token)}
    (h : Token.unlaidRow nowhere ts = Token.unlaidRow nowhere us) {p : DefinitionSet.Placed}
    (hp : DefinitionSet.ofTokens ts = .ok p) :
    ∃ q, DefinitionSet.ofTokens us = .ok q ∧ p.bare = q.bare := by
  obtain ⟨q, hq, hmove⟩ :=
    exists_of_rowsMeet keepsHulls_nowhere keepsHulls_nowhere (Token.rowsMeet_of_unlaid h) hp
  refine ⟨q, hq, ?_⟩
  calc p.bare = (p.move nowhere).bare := p.bare_move.symm
    _ = (q.move nowhere).bare := by rw [hmove]
    _ = q.bare := q.bare_move

/-- A row that differs only in what holds its blocks together is read as the same program. -/
lemma DefinitionSet.eq_of_unlaidRow {ts us : List (Located Token)}
    (h : Token.unlaidRow id ts = Token.unlaidRow id us) {p q : DefinitionSet.Placed}
    (hp : DefinitionSet.ofTokens ts = .ok p) (hq : DefinitionSet.ofTokens us = .ok q) : p = q := by
  obtain ⟨q', hq', hmove⟩ :=
    exists_of_rowsMeet (fun _ _ => rfl) (fun _ _ => rfl) (Token.rowsMeet_of_unlaid h) hp
  rw [hq] at hq'
  cases hq'
  rwa [move_id, move_id] at hmove

namespace Store

/-- Reading depends on the values of tokens and not on their layout.  Of two rows that differ only
in the places of tokens and in blocks being indented or in braces, one is read as a program if the
other one is, and both programs have the same snapshot and the same definitions, with all that is in
them, in the order in which they are stored.  If no places differ, the programs are stored alike
with all their places. -/
theorem ofTokens_layout {ts us : List (Located Token)}
    (h : Token.unlaidRow nowhere ts = Token.unlaidRow nowhere us) :
    ((∃ p, DefinitionSet.ofTokens ts = .ok p) ↔ ∃ q, DefinitionSet.ofTokens us = .ok q) ∧
      ∀ p q, DefinitionSet.ofTokens ts = .ok p → DefinitionSet.ofTokens us = .ok q →
        (∃ s, (ofProgram p).snapshot = .ok s ∧ (ofProgram q).snapshot = .ok s) ∧
        (∃ v w, (ofProgram p).view .whole = .ok v ∧ (ofProgram q).view .whole = .ok w ∧
          v.bare = w.bare) ∧
        (Token.unlaidRow id ts = Token.unlaidRow id us → ofProgram p = ofProgram q) := by
  refine ⟨⟨fun ⟨p, hp⟩ => ?_, fun ⟨q, hq⟩ => ?_⟩, fun p q hp hq => ?_⟩
  · obtain ⟨q, hq, -⟩ := DefinitionSet.exists_of_unlaidRow h hp
    exact ⟨q, hq⟩
  · obtain ⟨p, hp, -⟩ := DefinitionSet.exists_of_unlaidRow h.symm hq
    exact ⟨p, hp⟩
  · obtain ⟨q', hq', hbare⟩ := DefinitionSet.exists_of_unlaidRow h hp
    rw [hq] at hq'
    cases hq'
    obtain ⟨v, hv, hvp⟩ := exists_view_ofProgram p
    obtain ⟨w, hw, hwq⟩ := exists_view_ofProgram q
    have hview : v.bare = w.bare := hvp.trans (hbare.trans hwq.symm)
    refine ⟨⟨p.snapshot, snapshot_ofProgram p, ?_⟩, ⟨v, w, hv, hw, hview⟩, fun hkinds => ?_⟩
    · rw [snapshot_ofProgram, ← p.snapshot_of_bare, hbare, q.snapshot_of_bare]
    · rw [DefinitionSet.eq_of_unlaidRow hkinds hp hq]

/-- A switch and its only case, in a group of this kind, with all tokens at this place. -/
def switchRow (kind : GroupKind) (s : Span) : List (Located Token) :=
  [⟨.ident "x" false, s⟩, ⟨.operator "=", s⟩, ⟨.ident "switch" false, s⟩,
    ⟨.group kind [⟨.ident "otherwise" false, s⟩, ⟨.space, s⟩, ⟨.null, s⟩], s⟩]

/-- A switch is read from an indented block and from one in braces elsewhere, and written down in
the same snapshot. -/
theorem ofTokens_layout_of_switch :
    ∃ p q, DefinitionSet.ofTokens (switchRow .indented ⟨{}, ⟨7, 2, 3⟩⟩) = .ok p ∧
      DefinitionSet.ofTokens (switchRow .braces {}) = .ok q ∧
      (ofProgram p).snapshot = (ofProgram q).snapshot := by
  have hunlaid : Token.unlaidRow nowhere (switchRow .indented ⟨{}, ⟨7, 2, 3⟩⟩) =
      Token.unlaidRow nowhere (switchRow .braces {}) := rfl
  have hlayout := ofTokens_layout hunlaid
  have hread : (DefinitionSet.ofTokens (switchRow .braces {})).toOption.isSome := by
    decide +kernel
  obtain ⟨q, hq⟩ := Option.isSome_iff_exists.mp hread
  have hbraces := eq_ok_of_toOption hq
  obtain ⟨p, hindented⟩ := hlayout.1.mpr ⟨q, hbraces⟩
  obtain ⟨⟨s, hs, hs'⟩, -⟩ := hlayout.2 p q hindented hbraces
  exact ⟨p, q, hindented, hbraces, hs.trans hs'.symm⟩

end Store

end Formulary
