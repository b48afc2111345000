/-
# Written names read back

A name is written bare if it consists of name characters and is not reserved, and in quotes
otherwise.  The quotes are marked with the least number of number signs, one at least, such that no
quote in the name is followed by as many.  That number is found by one pass over the name, and it is
enough: a quote that ends the name is followed by the closing quote and not by a number sign, so
reading does not stop before the closing quote is reached.
-/
import Mathlib.Order.Bounds.Basic
import Formulary.Proofs.Grammar.Tokens
import Formulary.Proofs.Layout.Words
import Formulary.Proofs.Token.Steps

namespace Formulary.Layout

open Text Word Parsing Token

variable {c : Char} {cs : List Char} {k n : Nat}

/-! ## The number of number signs -/

/-- The numbers of number signs, from one on, that follow no quote in a text. -/
def freeHashes (cs : List Char) : Set Nat := {k | 1 ≤ k ∧ ¬('"' :: hashes k) <:+: cs}

lemma hashes_prefix_of_le (h : k ≤ n) : hashes k <+: hashes n := by
  rw [← Nat.add_sub_cancel' h, hashes, hashes, List.replicate_add]
  exact List.prefix_append _ _

/-- The number signs that lead a text are in front of it. -/
lemma hashes_prefix_of_leading (cs : List Char) : hashes (leadingHashes cs) <+: cs := by
  have hsigns : cs.takeWhile (· == '#') = hashes (leadingHashes cs) :=
    List.eq_replicate_of_mem fun c hc => by simpa using List.all_eq_true.mp List.all_takeWhile c hc
  rw [← hsigns]
  exact List.takeWhile_prefix _

lemma one_le_closingHashes (cs : List Char) : 1 ≤ closingHashes cs := by
  induction cs with
  | nil => exact Nat.le_refl _
  | cons c cs ih =>
    rw [closingHashes]
    split
    · exact Nat.le_trans ih (Nat.le_max_right _ _)
    · exact ih

/-- A quote in a text is followed by fewer number signs than are used to close it. -/
lemma not_infix_closingHashes (cs : List Char) : ¬('"' :: hashes (closingHashes cs)) <:+: cs := by
  intro hheld
  obtain ⟨s, hpre, hsuffix⟩ := List.infix_iff_prefix_suffix.mp hheld
  obtain ⟨t, rfl⟩ := hpre
  have hunclosed := unclosed_of_closingHashes_le (Nat.le_refl (closingHashes cs))
  exact hunclosed _ hsuffix (by simp) ((List.prefix_append _ t).trans (List.prefix_append _ _))

/-- A number that is not enough follows a quote in the text. -/
lemma closingHashes_le (h : k ∈ freeHashes cs) : closingHashes cs ≤ k := by
  induction cs with
  | nil => exact h.1
  | cons c cs ih =>
    have hrest : closingHashes cs ≤ k :=
      ih ⟨h.1, fun hheld => h.2 (hheld.trans (List.suffix_cons c cs).isInfix)⟩
    rw [closingHashes]
    split
    · rename_i hquote
      refine Nat.max_le.mpr ⟨?_, hrest⟩
      by_contra hless
      have hle : k ≤ leadingHashes cs := Nat.le_of_lt_succ (Nat.lt_of_not_le hless)
      have hpre : hashes k <+: cs := (hashes_prefix_of_le hle).trans (hashes_prefix_of_leading cs)
      refine h.2 (List.IsPrefix.isInfix ?_)
      rw [hquote]
      exact (List.prefix_cons_inj '"').mpr hpre
    · exact hrest

lemma isLeast_closingHashes (cs : List Char) : IsLeast (freeHashes cs) (closingHashes cs) :=
  ⟨⟨one_le_closingHashes cs, not_infix_closingHashes cs⟩, fun _ => closingHashes_le⟩

/-! ## Reading -/

/-- What is written for a name is read as just that name wherever it is the next token, if the text
ends behind it or goes on with a delimiter, and the grammar takes it for a name.  It is quoted
exactly if it is not bare or is reserved, and then with the least number of number signs that the
name leaves free; there always is one. -/
theorem name_read_back (n : String) {rest : List Char} (hrest : Stops rest) :
    (∀ (c : Cursor Char) (x : Position), Parsing.Stands c x ((name n).toList ++ rest) →
      ∃ c', optional (readToken readTokens) c =
          .ok (some ⟨.ident n (isQuoted n), x, x.after (name n).toList⟩) c' ∧
        Parsing.Stands c' (x.after (name n).toList) rest) ∧
    (∀ (c : Cursor Token) (span : Span) (items : List (Located Token)),
      c.rest = ⟨.ident n (isQuoted n), span⟩ :: items →
        ∃ c', Grammar.name c = .ok n c' ∧ c'.rest = items) ∧
    (isQuoted n = true ↔ isBareName n = false ∨ isReserved n = true) ∧
    (name n).toList =
      (if isQuoted n then quotedName (closingHashes n.toList) n.toList else n.toList) ∧
    IsLeast (freeHashes n.toList) (closingHashes n.toList) := by
  refine ⟨fun c x hst => ?_, fun c span items hitems => ?_, ?_, toList_name n,
    isLeast_closingHashes n.toList⟩
  · obtain ⟨t, c', hrun, ht, hst', -⟩ := exists_of_accepts (accepts_readToken_name n hrest)
      (reads_readToken reads_readTokens) hst.fork rfl (calm_fork c)
    obtain ⟨-, hspan⟩ := readToken_inv hrun
    rw [hst.fork.position_eq, hst'.position_eq] at hspan
    refine ⟨c.adopt c', ?_, hst'.adopt c⟩
    rw [optional_of_ok hrun, ← ht, ← hspan]
  · refine ⟨c.pass ⟨.ident n (isQuoted n), span⟩ items, ?_, rfl⟩
    unfold Grammar.name
    rw [hitems]
    rcases isName_isQuoted n with h | h
    · rw [h]
      rfl
    · simp [h]
  · simp [isQuoted]

/-- A name with a quote and a number sign in it takes two of them; another sign after its last quote
would be too many. -/
theorem name_read_back_of_quotes : Stops ['(', 'x'] ∧
    (name "a\"#\"").toList = "r##\"a\"#\"\"##".toList ∧
    ∃ c', optional (readToken readTokens) (Cursor.ofText ("r##\"a\"#\"\"##(x").toList) =
        .ok (some ⟨.ident "a\"#\"" true, {}, ⟨11, 1, 12⟩⟩) c' ∧
      Parsing.Stands c' ⟨11, 1, 12⟩ ['(', 'x'] := by
  have hstops : Stops ['(', 'x'] := stops_cons (by decide)
  refine ⟨hstops, by decide, ?_⟩
  exact (name_read_back "a\"#\"" hstops).1 (Cursor.ofText ("r##\"a\"#\"\"##(x").toList) {}
    (stands_ofText _)

end Formulary.Layout
