/-
# Rows as steps

A row of tokens is read step by step.  What a token, a group and a row are read from, the other way
round what they are read as, and where a row ends.
-/
import Formulary.Proofs.Parsing.Following
import Formulary.Proofs.Token.Lossless
import Formulary.Proofs.Token.Row

namespace Formulary.Token

open Text Word Parsing

variable {c c' : Cursor Char} {E : Option Nat} {x : Position}

/-- The steps of a row. -/
abbrev readSteps (E : Option Nat) : Parser Char (List (List (Located Token))) :=
  collect (readStep readTokens E)

lemma readTokens_of_ok {rows : List (List (Located Token))} (h : readSteps E c = .ok rows c') :
    readTokens E c = .ok rows.flatten c' := by
  rw [readTokens_eq, readRow, map_eq_pure_bind, bind_of_ok h]
  rfl

lemma readTokens_inv {ts : List (Located Token)} (h : readTokens E c = .ok ts c') :
    ∃ rows, readSteps E c = .ok rows c' ∧ ts = rows.flatten := by
  rw [readTokens_eq] at h
  obtain ⟨rows, hrows, hts⟩ := map_inv h
  exact ⟨rows, hrows, hts⟩

/-! ## Single tokens -/

/-- A token of a given kind is what the choice gives. -/
lemma readToken_inv {contents : Option Nat → Parser Char (List (Located Token))}
    {t : Located Token} (h : readToken contents c = .ok t c') :
    choice [readKeyword, readComma, readNumber, readText, readRawName, readBareName, readOperator,
      readGroup contents, readBlank] c = .ok t.value c' ∧ t.span = ⟨c.position, c'.position⟩ := by
  replace h := get_inv h
  obtain ⟨token, c₁, hchoice, h⟩ := bind_inv h
  replace h := get_inv h
  obtain ⟨rfl, rfl⟩ := pure_inv h
  exact ⟨hchoice, rfl⟩

lemma readToken_of_ok {contents : Option Nat → Parser Char (List (Located Token))} {t : Token}
    (h : choice [readKeyword, readComma, readNumber, readText, readRawName, readBareName,
      readOperator, readGroup contents, readBlank] c = .ok t c') :
    readToken contents c = .ok ⟨t, c.position, c'.position⟩ c' := by
  rw [readToken, get_bind, bind_of_ok h]
  rfl

/-! ## Groups -/

lemma next?_of_exactly {a : Char} {s as : List Char} (h : exactly (a :: s) c = .ok as c') :
    ∃ item rest, c.rest = item :: rest ∧ item.value = a := by
  rw [exactly, literal, literal.go] at h
  cases hrest : c.rest with
  | nil =>
    rw [hrest] at h
    cases h
  | cons item rest =>
    rw [hrest] at h
    dsimp only at h
    split at h
    · rename_i hitem
      exact ⟨item, rest, rfl, beq_iff_eq.mp hitem⟩
    · cases h

section Parts

variable {contents : Option Nat → Parser Char (List (Located Token))} {t : Token}
  {kind : GroupKind} {a q : Char} {as bs : List Char} {ts : List (Located Token)}
  {c₁ c₂ : Cursor Char}

lemma readGroup_of_ok (hkind : kind.delimiters = some (a, q)) (hopening : exactly [a] c = .ok as c₁)
    (htokens : contents none c₁ = .ok ts c₂) (hclosing : exactly [q] c₂ = .ok bs c') :
    readGroup contents c = .ok (.group kind ts) c' := by
  obtain ⟨item, rest, hrest, hitem⟩ := next?_of_exactly hopening
  have hpeek : peek c = .ok item c := by rw [peek, hrest]
  have hfind : [GroupKind.parens, .brackets, .braces].find? (·.delimiters.any (·.1 == a)) =
      some kind := by
    cases kind <;> cases hkind <;> decide
  have hdelimited : delimited (exactly [a]) (exactly [q]) (contents none) c = .ok ts c' := by
    rw [delimited, bind_of_ok hopening, bind_of_ok htokens, bind_of_ok hclosing]
    rfl
  rw [readGroup, bind_of_ok hpeek]
  dsimp only
  rw [hitem, hfind]
  dsimp only
  rw [hkind]
  exact bind_of_ok hdelimited

end Parts

/-! ## Tokens one by one -/

lemma readStep_of_rowStep {contents : Option Nat → Parser Char (List (Located Token))}
    {o : Option (List (Located Token) × Bool)} (h : RowStep contents E c o c') :
    readStep contents E c = .ok o c' := by
  cases h with
  | ends hends =>
    rw [readStep, get_bind, if_pos hends]
    rfl
  | stalls hgoes htoken =>
    rw [readStep, get_bind, hgoes, if_neg Bool.false_ne_true, bind_of_ok htoken]
    rfl
  | plain hgoes htoken hplain =>
    rw [readStep, get_bind, hgoes, if_neg Bool.false_ne_true, bind_of_ok htoken]
    dsimp only
    rw [hplain]
    rfl
  | blockless hgoes htoken hopens hblock =>
    rw [readStep, get_bind, hgoes, if_neg Bool.false_ne_true, bind_of_ok htoken]
    dsimp only
    rw [if_pos hopens, bind_of_ok hblock]
    rfl
  | block hgoes htoken hopens hblock =>
    rw [readStep, get_bind, hgoes, if_neg Bool.false_ne_true, bind_of_ok htoken]
    dsimp only
    rw [if_pos hopens, bind_of_ok hblock]
    rfl

/-- A step fails only if a token or a block does. -/
lemma readStep_error_inv {contents : Option Nat → Parser Char (List (Located Token))}
    {f : Failure} (h : readStep contents E c = .error f c') :
    (∃ c₁, Parsing.optional (readToken contents) c = .error f c₁) ∨
      ∃ t c₁ c₂, Parsing.optional (readToken contents) c = .ok (some t) c₁ ∧
        Parsing.optional (readBlock contents (E.getD 0)) c₁ = .error f c₂ := by
  rw [readStep, get_bind] at h
  split at h
  · cases h
  · cases htoken : Parsing.optional (readToken contents) c with
    | error g c₁ =>
      rw [bind_of_error htoken] at h
      cases h
      exact .inl ⟨_, rfl⟩
    | ok o c₁ =>
      rw [bind_of_ok htoken] at h
      cases o with
      | none => cases h
      | some t =>
        dsimp only at h
        split at h
        · cases hblock : Parsing.optional (readBlock contents (E.getD 0)) c₁ with
          | error g c₂ =>
            rw [bind_of_error hblock] at h
            cases h
            exact .inr ⟨t, c₁, _, rfl, hblock⟩
          | ok o c₂ =>
            rw [bind_of_ok hblock] at h
            cases o <;> cases h
        · cases h

/-- A token is not empty. -/
lemma length_lt_of_readToken {text : List Char} {t : Located Token} (hst : Stands c x text)
    (hrun : readToken readTokens c = .ok t c') : c'.rest.length < c.rest.length := by
  obtain ⟨cs, ds, rfl, hst', ⟨-, hne, -⟩, -⟩ := reads_readToken reads_readTokens hst hrun
  rw [hst.length_rest, hst'.length_rest, List.length_append]
  exact Nat.lt_add_of_pos_left (List.length_pos_iff.mpr hne)

/-- A token that opens no block is a step. -/
lemma readSteps_cons {text : List Char} {t : Located Token} (hst : Stands c x text)
    (hE : E.any (blockEnds · text) = false) (htoken : readToken readTokens c.fork = .ok t c')
    (hplain : t.value.opensBlock = false) :
    readSteps E c = Outcome.prepend [t] (readSteps E (c.adopt c')) := by
  rw [← hst.upcoming_eq] at hE
  have hless : (c.adopt c').rest.length < c.rest.length := by
    rw [Cursor.rest_adopt]
    exact length_lt_of_readToken (c := c.fork) hst.fork htoken
  exact collect_of_some (readStep_of_rowStep (.plain hE (optional_of_ok htoken) hplain)) hless

/-! ## Ends -/

lemma readSteps_of_stalls (hgoes : E.any (blockEnds · c.upcoming) = false)
    (htoken : Parsing.optional (readToken readTokens) c = .ok none c') :
    readSteps E c = .ok [] c' :=
  collect_of_none (readStep_of_rowStep (.stalls hgoes htoken))

/-- At the end of the text a row ends. -/
lemma readSteps_nil (E : Option Nat) (hst : Stands c x []) (hc : c.Calm) :
    ∃ c', readSteps E c = .ok [] c' ∧ c'.fork = c.fork ∧ c'.Calm := by
  have hgoes : E.any (blockEnds · c.upcoming) = false := by
    rw [hst.upcoming_eq]
    cases E <;> rfl
  obtain ⟨f, c₁, htoken, hf⟩ : Recoverable (readToken readTokens c.fork) :=
    rejects_readToken (p := c.previous.map Located.value) (show Shuts [] by rintro d ⟨⟩)
      ⟨⟨hst.upcoming_eq, rfl⟩, calm_fork c⟩
  exact ⟨c.record f, readSteps_of_stalls hgoes (optional_of_error htoken hf), rfl, hc.record hf⟩

/-- Where its block ends a row ends. -/
lemma readSteps_of_blockEnds (h : E.any (blockEnds · c.upcoming) = true) :
    readSteps E c = .ok [] c :=
  collect_of_none (readStep_of_rowStep (.ends h))

end Formulary.Token
