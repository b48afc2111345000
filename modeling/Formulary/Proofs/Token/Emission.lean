/-
# From text to tokens, piece by piece

A stretch of text emits tokens if a row that goes on after the stretch is the row of these tokens
and of those that come after.  Whether it does may depend on the block that the row belongs to, on
the character before the stretch and on the text after it.  Stretches are put together; a group or
a block is put around a whole row.
-/
import Formulary.Proofs.Token.Header
import Formulary.Proofs.Token.Row

namespace Formulary.Token

open Text Word Parsing

variable {E : Option Nat} {p q : Option Char} {c : Char} {cs ds rest : List Char}
  {ts us : List Token}

/-- In a block indented by `E`, the row from `cs` on has the tokens `ts` and ends in front of
`rest`. -/
def IsRow (E : Option Nat) (p : Option Char) (cs : List Char) (ts : List Token) (q : Option Char)
    (rest : List Char) : Prop :=
  Accepts (Around p cs) (collect (readStep readTokens E)) fun rows r i =>
    bares rows.flatten = ts ∧ Around q rest r i

/-- The stretch `cs` between `p` and `rest` gives the tokens `ts` to the row that it is a part
of. -/
def Emits (E : Option Nat) (p : Option Char) (cs : List Char) (ts : List Token)
    (rest : List Char) : Prop :=
  ∀ ⦃us q rest'⦄, IsRow E (lastOf p cs) rest us q rest' → IsRow E p (cs ++ rest) (ts ++ us) q rest'

lemma emits_nil : Emits E p [] [] rest := fun _ _ _ h => h

lemma Emits.append (h : Emits E p cs ts (ds ++ rest)) (h' : Emits E (lastOf p cs) ds us rest) :
    Emits E p (cs ++ ds) (ts ++ us) rest := by
  intro vs q rest' hrow
  rw [lastOf_append] at hrow
  rw [List.append_assoc, List.append_assoc]
  exact h (h' hrow)

lemma IsRow.accepts (h : IsRow E p cs ts q rest) :
    Accepts (Around p cs) (readTokens E) fun tokens r i => bares tokens = ts ∧ Around q rest r i := by
  rw [readTokens_eq]
  exact accepts_map h

/-! ## Where a block ends -/

lemma takeWhile_isBlank (hcs : ∀ c ∈ cs, isBlank c = true) (hds : ∀ d ∈ ds.head?, isBlank d = false) :
    (cs ++ ds).takeWhile isBlank = cs := by
  rw [List.takeWhile_append_of_pos hcs]
  cases ds with
  | nil => simp
  | cons d ds => simp [hds d rfl]

/-- Whether a block ends is seen from the white space that is next. -/
lemma blockEnds_append (hcs : ∀ c ∈ cs, isBlank c = true) (hds : ∀ d ∈ ds.head?, isBlank d = false)
    (n : Nat) : blockEnds n (cs ++ ds) =
      (cs.contains '\n' && (decide (ds = []) || decide (indentation (lastLine cs) < n))) := by
  have hlength : (cs.length == (cs ++ ds).length) = decide (ds = []) := by
    cases ds <;> simp
  rw [blockEnds, takeWhile_isBlank hcs hds, hlength]

lemma blockEnds_eq_false (n : Nat) (h : ∀ c ∈ cs.head?, isBlank c = false) :
    blockEnds n cs = false := by
  have hends := blockEnds_append (show ∀ c ∈ ([] : List Char), isBlank c = true by simp) h n
  simpa using hends

/-- A row ends where its block ends, and at the end of its group. -/
lemma isRow_nil (h : E.any (blockEnds · cs) = true ∨ Shuts cs) : IsRow E p cs [] p cs := by
  refine Accepts.mono (W := fun rows r i => rows = [] ∧ Around p cs r i)
    (accepts_collect_none ?_) ?_
  · refine accepts_get fun cur hcur => ?_
    rw [hcur.upcoming]
    rcases h with h | h
    · rw [if_pos h]
      exact accepts_pure fun r i hr => ⟨rfl, hr⟩
    · split
      · exact accepts_pure fun r i hr => ⟨rfl, hr⟩
      · refine accepts_bind (accepts_optional_none (rejects_readToken h)) fun o =>
          accepts_and fun ho => ?_
        rw [ho]
        exact accepts_pure fun r i hr => ⟨rfl, hr⟩
  · rintro rows r i ⟨rfl, hr⟩
    exact ⟨rfl, hr⟩

/-! ## Tokens without a block -/

lemma emits_of_accepts_step (hcs : cs ≠ [])
    (h : Accepts (Around p (cs ++ rest)) (readStep readTokens E) fun o r i =>
      ∃ tokens, o = some (tokens, true) ∧ bares tokens = ts ∧ Around (lastOf p cs) rest r i) :
    Emits E p cs ts rest := by
  intro us q rest' hrow
  have hless : ∀ (tokens : List (Located Token)) r i r' i', Around p (cs ++ rest) r i →
      bares tokens = ts ∧ Around (lastOf p cs) rest r' i' → r'.length < r.length :=
    fun _ _ _ _ _ hr hr' => length_lt_of_around hcs hr hr'.2
  have hmore (tokens : List (Located Token)) :
      Accepts (fun r i => bares tokens = ts ∧ Around (lastOf p cs) rest r i)
        (collect (readStep readTokens E)) fun rows r i =>
          (bares tokens = ts ∧ bares rows.flatten = us) ∧ Around q rest' r i :=
    accepts_and fun htokens => hrow.mono fun rows r i hr => ⟨⟨htokens, hr.1⟩, hr.2⟩
  refine (accepts_collect_cons h hless hmore).mono ?_
  rintro _ r i ⟨tokens, rows, rfl, ⟨htokens, hrows⟩, hr⟩
  refine ⟨?_, hr⟩
  rw [List.flatten_cons, bares_append, htokens, hrows]

/-- A token that opens no block. -/
lemma emits_token {t : Token} (hcs : cs ≠ []) (hE : E.any (blockEnds · (cs ++ rest)) = false)
    (ht : t.opensBlock = false)
    (h : Accepts (Around p (cs ++ rest)) (readToken readTokens) fun token r i =>
      token.value.bare = t ∧ Around (lastOf p cs) rest r i) : Emits E p cs [t] rest := by
  refine emits_of_accepts_step hcs (accepts_get fun cur hcur => ?_)
  rw [hcur.upcoming, hE]
  refine accepts_bind (accepts_optional_some h) fun o => accepts_exists fun token =>
    accepts_and fun ho => accepts_and fun htoken => ?_
  subst ho
  have hopens : token.value.opensBlock = false := by rw [← opensBlock_bare, htoken, ht]
  dsimp only
  rw [hopens]
  exact accepts_pure fun r i hr => ⟨_, rfl, by rw [bares_cons, bares_nil, htoken], hr⟩

/-! ## Blocks -/

/-- A row of spaces. -/
def spaces (n : Nat) : List Char := List.replicate n ' '

lemma isBlank_of_mem_spaces {n : Nat} (h : c ∈ spaces n) : isBlank c = true := by
  rw [List.eq_of_mem_replicate h]
  decide

lemma lastLine_spaces (n : Nat) : lastLine (spaces n) = spaces n := by
  refine lastLine_of_not_mem fun h => ?_
  have hspace := List.eq_of_mem_replicate h
  revert hspace
  decide

lemma indentation_spaces (n : Nat) : indentation (spaces n) = n := by
  induction n with
  | zero => rfl
  | succ n ih =>
    rw [spaces, List.replicate_succ, indentation, ← spaces, ih]
    simp [Nat.add_comm]

/-- A block is read from the line break and the indentation in front of it and from a row that
is indented by as much. -/
lemma accepts_readBlock {n enclosing : Nat} (hdeep : enclosing < n) (hne : cs ++ rest ≠ [])
    (hcs : ∀ c ∈ (cs ++ rest).head?, isBlank c = false)
    (h : Accepts (Around (lastOf (some '\n') (spaces n)) (cs ++ rest)) (readTokens (some n))
      fun tokens r i => bares tokens = ts ∧ Around q rest r i) :
    Accepts (Around p ('\n' :: (spaces n ++ (cs ++ rest)))) (readBlock readTokens enclosing)
      fun t r i => t.value.bare = grouped .indented ts ∧ Around q rest r i := by
  refine accepts_get fun cur _ => ?_
  refine accepts_bind (accepts_optional_none (rejects_matching ?_)) fun _ => accepts_and fun _ => ?_
  · exact length?_oneOrMore_eq_none (by simp)
  refine accepts_bind (accepts_exactly p ['\n'] _) fun _ => ?_
  refine accepts_bind (accepts_readReference_blank (fun _ hc => isBlank_of_mem_spaces hc) hne hcs)
    fun k => accepts_and fun hk => ?_
  rw [hk, lastLine_spaces, indentation_spaces, if_neg (Nat.not_le.mpr hdeep)]
  refine accepts_bind h fun tokens => accepts_and fun htokens => accepts_get fun cur' _ => ?_
  exact accepts_pure fun r i hr => ⟨by rw [bare, htokens], hr⟩

/-- A word that opens a block, with the block on the lines below it. -/
lemma emits_block {n : Nat} {t : Token} {ds : List Char}
    (hopens : t.opensBlock = true)
    (hE : E.any (blockEnds · (ds ++ ('\n' :: (spaces n ++ (cs ++ rest))))) = false)
    (hword : Accepts (Around p (ds ++ ('\n' :: (spaces n ++ (cs ++ rest))))) (readToken readTokens)
      fun token r i => token.value.bare = t ∧
        Around (lastOf p ds) ('\n' :: (spaces n ++ (cs ++ rest))) r i)
    (hdeep : E.getD 0 < n) (hne : cs ++ rest ≠ [])
    (hcs : ∀ c ∈ (cs ++ rest).head?, isBlank c = false)
    (h : IsRow (some n) (lastOf (some '\n') (spaces n)) (cs ++ rest) ts
      (lastOf p (ds ++ '\n' :: (spaces n ++ cs))) rest) :
    Emits E p (ds ++ '\n' :: (spaces n ++ cs)) [t, grouped .indented ts, lineBreak] rest := by
  have hsplit : ds ++ '\n' :: (spaces n ++ cs) ++ rest =
      ds ++ ('\n' :: (spaces n ++ (cs ++ rest))) := by simp
  refine emits_of_accepts_step (by simp) ?_
  rw [hsplit]
  refine accepts_get fun cur hcur => ?_
  rw [hcur.upcoming, hE]
  refine accepts_bind (accepts_optional_some hword) fun o => accepts_exists fun token =>
    accepts_and fun ho => accepts_and fun htoken => ?_
  subst ho
  have htrue : token.value.opensBlock = true := by rw [← opensBlock_bare, htoken, hopens]
  dsimp only
  rw [htrue]
  refine accepts_bind (accepts_optional_some (accepts_readBlock hdeep hne hcs h.accepts)) fun o =>
    accepts_exists fun block => accepts_and fun ho => accepts_and fun hblock => ?_
  subst ho
  refine accepts_pure fun r i hr => ⟨_, rfl, ?_, hr⟩
  simp only [bares_cons, bares_nil, htoken, hblock, bare]

/-- A word that could open a block, in a line that goes on. -/
lemma emits_word {t : Token} (hcs : cs ≠ []) (hE : E.any (blockEnds · (cs ++ rest)) = false)
    (hline : ∃ c ds, rest = ' ' :: c :: ds ∧ isBlank c = false)
    (h : Accepts (Around p (cs ++ rest)) (readToken readTokens) fun token r i =>
      token.value.bare = t ∧ Around (lastOf p cs) rest r i) : Emits E p cs [t] rest := by
  obtain ⟨d, ds, rfl, hd⟩ := hline
  refine emits_of_accepts_step hcs (accepts_get fun cur hcur => ?_)
  rw [hcur.upcoming, hE]
  refine accepts_bind (accepts_optional_some h) fun o => accepts_exists fun token =>
    accepts_and fun ho => accepts_and fun htoken => ?_
  subst ho
  have hgive : bares [token] = [t] := by rw [bares_cons, bares_nil, htoken]
  -- a block needs a line break, and here the line goes on
  have hno : Rejects (Around (lastOf p cs) (' ' :: d :: ds))
      (readBlock readTokens (E.getD 0)) := by
    have hspace : spacePattern.length? ([' '] ++ d :: ds) = some [' '].length :=
      length?_oneOrMore (by simp; decide) (by simp) (by simp [hd])
    refine rejects_get fun _ _ => rejects_bind
      (accepts_optional_some (accepts_matching hspace (by simp))) fun o => ?_
    refine rejects_bind_left ?_
    rintro cur ⟨⟨as, -, -, hr⟩, hcalm⟩
    refine rejects_exactly (p := lastOf (lastOf p cs) [' ']) (not_prefix_of_head ?_) ⟨hr, hcalm⟩
    intro hhead
    cases hhead
    exact absurd hd (by decide)
  dsimp only
  split
  · refine accepts_bind (accepts_optional_none hno) fun o => accepts_and fun ho => ?_
    subst ho
    exact accepts_pure fun r i hr => ⟨_, rfl, hgive, hr⟩
  · exact accepts_pure fun r i hr => ⟨_, rfl, hgive, hr⟩

end Formulary.Token
