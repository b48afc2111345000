/-
# A program below another one

A text, a line feed and a second text that does not begin with white space are read as the
definitions of both.  Blocks that are open at the end of the first text end there, and nothing of
the second text becomes a part of a definition of the first.  The definitions of the second text
are found on the lines below.  Those of the first text stay where they are; only a block at its
very end may lose the white space that comes after its last line.
-/
import Formulary.Proofs.Grammar.Composition
import Formulary.Proofs.Store.Contents
import Formulary.Proofs.Store.Ownership
import Formulary.Proofs.Token.Joined

namespace Formulary

open Text Token

variable {P Q : List Char} {p q : DefinitionSet.Placed} {ts : List (Located Token)}

/-- A text that does not begin with white space has no token of white space at its beginning. -/
lemma Token.not_isGap_of_head (h : Token.ofText Q = .ok ts)
    (hstart : ∀ a ∈ Q.head?, isBlank a = false) :
    ∀ t ∈ ts.head?, t.value.isGap = false := by
  intro t ht
  have htiles := tiles_of_ofText h
  cases htiles with
  | nil => cases ht
  | block _ _ _ =>
    cases ht
    rfl
  | @cons _ t _ cs _ _ hspells hne _ =>
    cases ht
    obtain ⟨a, cs, rfl⟩ := List.exists_cons_of_ne_nil hne
    have ha : isBlank a = false := hstart a rfl
    have hblank : ¬∀ b ∈ a :: cs, isBlank b = true := fun hall => by
      rw [hall a List.mem_cons_self] at ha
      cases ha
    cases t with
    | space =>
      cases hspells with
      | leaf hleaf =>
        cases hleaf with
        | space hall _ => exact absurd hall hblank
    | lineBreak =>
      cases hspells with
      | leaf hleaf =>
        cases hleaf with
        | lineBreak hall _ => exact absurd hall hblank
    | _ => rfl

/-- The definitions of two programs, one below the other. -/
theorem DefinitionSet.exists_joined (hp : DefinitionSet.ofText P = .ok p)
    (hq : DefinitionSet.ofText Q = .ok q) (hstart : ∀ a ∈ Q.head?, isBlank a = false) :
    ∃ r, DefinitionSet.ofText (P ++ '\n' :: Q) = .ok r ∧
      r.definitions = p.definitions.map (Definition.move (settle P)) ++
        q.definitions.map (Definition.move (Position.after {} P).below) := by
  obtain ⟨ps, hps, hp⟩ := bind_eq_ok_iff.mp hp
  obtain ⟨qs, hqs, hq⟩ := bind_eq_ok_iff.mp hq
  obtain ⟨rs, span, us, hrs, hrows, hus⟩ := exists_tokens_joined hps hqs hstart
  obtain ⟨r, hr, hdefinitions⟩ := ofTokens_joined (keepsHulls_settle P) keepsHulls_id
    (keepsHulls_below _) hrows hus (not_isGap_of_head hqs hstart) hp hq
  refine ⟨r, ?_, ?_⟩
  · rw [DefinitionSet.ofText, hrs]
    exact hr
  · rw [← hdefinitions, funext Definition.move_id]
    exact (List.map_id _).symm

namespace Store

/-- The definitions of a program in the order in which they are stored. -/
lemma exists_view_definitions (program : DefinitionSet.Placed) :
    ∃ v, (ofProgram program).view .whole = .ok v ∧
      v.definitions.map Definition.bare = program.definitions.map Definition.bare := by
  obtain ⟨v, hview, hbare⟩ := exists_view_ofProgram program
  refine ⟨v, hview, ?_⟩
  obtain ⟨key, ds, floating⟩ := v
  obtain ⟨_, es, floating'⟩ := program
  rw [DefinitionSet.bare_node, DefinitionSet.bare_node, DefinitionSet.node.injEq] at hbare
  exact hbare.2.1

/-- Programs compose.  Where two texts can be read, so can the first one with the second one on the
lines below, if that does not begin with white space.  It has the definitions of the first and then
those of the second, in the order in which they are stored, with the same names and the same
formulas.  The places of the second are shifted, and those of the first behind its last character
that is not white space settle right behind that. -/
theorem ofText_joined {s t : Store} (hs : ofText P = .ok s) (ht : ofText Q = .ok t)
    (hstart : ∀ a ∈ Q.head?, isBlank a = false) :
    ∃ p q r, (DefinitionSet.ofText P = .ok p ∧ s = ofProgram p) ∧
      (DefinitionSet.ofText Q = .ok q ∧ t = ofProgram q) ∧
      ofText (P ++ '\n' :: Q) = .ok (ofProgram r) ∧
      r.definitions = p.definitions.map (Definition.move (settle P)) ++
        q.definitions.map (Definition.move (Position.after {} P).below) ∧
      ∃ u v w, s.view .whole = .ok u ∧ t.view .whole = .ok v ∧
        (ofProgram r).view .whole = .ok w ∧ w.definitions.map Definition.bare =
          u.definitions.map Definition.bare ++ v.definitions.map Definition.bare := by
  obtain ⟨p, hp, rfl⟩ := exists_of_ofText hs
  obtain ⟨q, hq, rfl⟩ := exists_of_ofText ht
  obtain ⟨r, hr, hdefinitions⟩ := DefinitionSet.exists_joined hp hq hstart
  obtain ⟨u, hu, hp'⟩ := exists_view_definitions p
  obtain ⟨v, hv, hq'⟩ := exists_view_definitions q
  obtain ⟨w, hw, hr'⟩ := exists_view_definitions r
  refine ⟨p, q, r, ⟨hp, rfl⟩, ⟨hq, rfl⟩, ?_, hdefinitions, u, v, w, hu, hv, hw, ?_⟩
  · rw [ofText, hr]
    rfl
  · rw [hp', hq', hr', hdefinitions, List.map_append, List.map_map, List.map_map]
    congr 1 <;> exact List.map_congr_left fun d _ => Definition.bare_move d

/-- A block that is open at the end of the first text ends in front of the second one. -/
theorem ofText_joined_of_block :
    ∃ p q r, ofText "f = x -> y where\n  y = 1  ".toList = .ok (ofProgram p) ∧
      ofText "g = f(2)".toList = .ok (ofProgram q) ∧
      ofText "f = x -> y where\n  y = 1  \ng = f(2)".toList = .ok (ofProgram r) ∧
      r.definitions = p.definitions.map (Definition.move
          (settle "f = x -> y where\n  y = 1  ".toList)) ++
        q.definitions.map (Definition.move
          (Position.after {} "f = x -> y where\n  y = 1  ".toList).below) := by
  have hP : (ofText "f = x -> y where\n  y = 1  ".toList).toOption.isSome = true := by
    decide +kernel
  have hQ : (ofText "g = f(2)".toList).toOption.isSome = true := by decide +kernel
  obtain ⟨s, hs⟩ := Option.isSome_iff_exists.mp hP
  obtain ⟨t, ht⟩ := Option.isSome_iff_exists.mp hQ
  obtain ⟨p, q, r, ⟨-, rfl⟩, ⟨-, rfl⟩, hr, hdefinitions, -⟩ :=
    ofText_joined (eq_ok_of_toOption hs) (eq_ok_of_toOption ht) (by rintro a ⟨⟩; decide)
  exact ⟨p, q, r, eq_ok_of_toOption hs, eq_ok_of_toOption ht, hr, hdefinitions⟩

/-- The places of the first text do not all stay: the spaces at its end are a part of the block
there, and with a line feed after them they are not. -/
theorem not_ofText_joined_unmoved :
    ∃ p q r, DefinitionSet.ofText "f = x -> y where\n  y = 1  ".toList = .ok p ∧
      DefinitionSet.ofText [] = .ok q ∧
      DefinitionSet.ofText ("f = x -> y where\n  y = 1  ".toList ++ '\n' :: []) = .ok r ∧
      r.definitions ≠ p.definitions ++ q.definitions.map (Definition.move
        (Position.after {} "f = x -> y where\n  y = 1  ".toList).below) := by
  have hP : (DefinitionSet.ofText "f = x -> y where\n  y = 1  ".toList).toOption.map
      (fun p => p.definitions.map Definition.note) = some [⟨{}, ⟨26, 2, 10⟩⟩] := by
    decide +kernel
  have hQ : (DefinitionSet.ofText []).toOption.map (fun q => q.definitions.map Definition.note) =
      some [] := by
    decide +kernel
  have hR : (DefinitionSet.ofText ("f = x -> y where\n  y = 1  ".toList ++ '\n' :: [])).toOption.map
      (fun r => r.definitions.map Definition.note) = some [⟨{}, ⟨24, 2, 8⟩⟩] := by
    decide +kernel
  obtain ⟨p, hp, hpspans⟩ := Option.map_eq_some_iff.mp hP
  obtain ⟨q, hq, hqspans⟩ := Option.map_eq_some_iff.mp hQ
  obtain ⟨r, hr, hrspans⟩ := Option.map_eq_some_iff.mp hR
  refine ⟨p, q, r, eq_ok_of_toOption hp, eq_ok_of_toOption hq, eq_ok_of_toOption hr, fun heq => ?_⟩
  rw [List.map_eq_nil_iff.mp hqspans, List.map_nil, List.append_nil] at heq
  rw [heq, hpspans] at hrspans
  revert hrspans
  decide

end Store

end Formulary
