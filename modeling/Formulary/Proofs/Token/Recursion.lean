/-
# Rows of tokens as an equation

A row is read inside of a group or a block only after the delimiter or the line break in front
of it.  So the rule for rows satisfies its equation without any bound.
-/
import Formulary.Proofs.Parsing.Recursion
import Formulary.Token.Reading

namespace Formulary.Token

open Text Word Parsing

variable {α : Type} {n : Nat}

/-! ## Rules that do not refer to rows -/

lemma passes_of_takeItems {k : Nat} {c c' : Cursor Char} {as : List Char}
    (h : takeItems k c = .ok as c') :
    c'.rest <:+ c.rest ∧ (0 < k → c'.rest.length < c.rest.length) := by
  induction k generalizing c as with
  | zero =>
    obtain ⟨-, rfl⟩ := pure_inv h
    exact ⟨List.suffix_refl _, fun hk => absurd hk (Nat.lt_irrefl 0)⟩
  | succ k ih =>
    obtain ⟨item, c₁, hnext, hrest⟩ := bind_inv h
    obtain ⟨items, c₂, htake, hpure⟩ := bind_inv hrest
    obtain ⟨-, rfl⟩ := pure_inv hpure
    have hfirst := passes_next hnext
    have hsecond := (ih htake).1
    exact ⟨hsecond.trans hfirst.1, fun _ => Nat.lt_of_le_of_lt hsecond.length_le hfirst.2⟩

lemma advances_takeItems (k : Nat) : Advances (takeItems k : Parser Char (List Char)) :=
  fun _ _ _ h => (passes_of_takeItems h).1

lemma passes_matching (q : Pattern Char) : Passes (matching q) := by
  intro c as c' h
  unfold matching at h
  split at h
  · have htake := passes_of_takeItems h
    exact ⟨htake.1, htake.2 (Nat.succ_pos _)⟩
  · cases h

lemma passes_of_literal {wanted ws : List Char} {failure : Failure}
    {c c' : Cursor Char} {as : List Char} (h : literal.go wanted failure ws c = .ok as c') :
    c'.rest <:+ c.rest ∧ (ws ≠ [] → c'.rest.length < c.rest.length) := by
  induction ws generalizing c with
  | nil =>
    rw [literal.go] at h
    cases h
    exact ⟨List.suffix_refl _, fun hne => absurd rfl hne⟩
  | cons w ws ih =>
    rw [literal.go] at h
    split at h
    · cases h
    · rename_i item rest hrest
      split at h
      · have hfirst := suffix_of_rest_eq hrest
        have hsecond := (ih h).1
        exact ⟨hsecond.trans hfirst.1, fun _ => Nat.lt_of_le_of_lt hsecond.length_le hfirst.2⟩
      · cases h

lemma passes_exactly {s : List Char} (hs : s ≠ []) : Passes (exactly s) := by
  intro c as c' h
  have hgo := passes_of_literal h
  exact ⟨hgo.1, hgo.2 hs⟩

lemma advances_exactly (s : List Char) : Advances (exactly s) :=
  fun _ _ _ h => (passes_of_literal h).1

lemma advances_readTextChar : Advances readTextChar := by
  refine advances_of_agrees fun n => agrees_choice_cons falls_length ?_
    (agrees_choice_cons falls_length ?_ agrees_choice_nil)
  · exact (advances_bind (passes_exactly (by simp)).advances fun _ =>
      advances_bind passes_next.advances fun _ => advances_pure _).agrees
  · exact agrees_map (passes_satisfying _ _).advances.agrees _

lemma advances_delimited {β γ : Type} {opening : Parser Char β} {closing : Parser Char γ}
    {inner : Parser Char α} (hopening : Advances opening) (hclosing : Advances closing)
    (hinner : Advances inner) : Advances (delimited opening closing inner) :=
  advances_bind hopening fun _ => advances_bind hinner fun _ =>
    advances_bind hclosing fun _ => advances_pure _

lemma advances_takeUntil {β : Type} {stop : Parser Char β} : Advances (takeUntil stop) := by
  intro c as c' h
  induction h using takeUntil_induction with
  | found c b c₁ _ hstop => exact List.suffix_refl _
  | pass c f c₁ item rest as c' _ _ hstop hrest ih =>
    exact ih.trans (suffix_of_rest_eq hrest).1

lemma advances_readKeyword : Advances readKeyword := by
  refine advances_of_agrees fun n => agrees_get fun c => (advances_bind
    (passes_matching _).advances fun word => ?_).agrees
  cases keyword? (String.ofList word) with
  | none => exact advances_throw _
  | some k =>
    cases k with
    | null => exact advances_pure _
    | bool value => exact advances_pure _

lemma advances_readComma : Advances readComma :=
  advances_bind (passes_exactly (by simp)).advances fun _ => advances_pure _

lemma advances_readNumber : Advances readNumber := by
  refine advances_of_agrees fun n => agrees_get fun c => ?_
  split
  · exact (advances_failHere _).agrees
  · refine agrees_bind falls_length (passes_matching _).advances.agrees fun cs =>
      agrees_get fun c => ?_
    split
    · exact (advances_failHere _).agrees
    · exact (advances_pure _).agrees

lemma advances_readText : Advances readText :=
  advances_bind (advances_delimited (passes_exactly (by simp)).advances
    (passes_exactly (by simp)).advances (advances_of_agrees fun _ =>
      agrees_many falls_length advances_readTextChar.agrees)) fun _ => advances_pure _

lemma advances_readRawName : Advances readRawName :=
  advances_bind (passes_matching _).advances fun _ => advances_bind advances_takeUntil fun _ =>
    advances_bind (passes_exactly (by simp)).advances fun _ => advances_pure _

lemma advances_readBareName : Advances readBareName :=
  advances_bind (passes_matching _).advances fun _ => advances_pure _

lemma advances_readOperator : Advances readOperator :=
  advances_bind (passes_matching _).advances fun _ => advances_pure _

lemma advances_readBlank : Advances readBlank :=
  advances_bind (passes_matching _).advances fun _ => advances_pure _

lemma advances_readReference : Advances readReference := by
  refine advances_of_agrees fun n => agrees_get fun c => ?_
  split
  · split
    · exact (advances_bind (advances_takeItems _) fun _ => advances_pure _).agrees
    · exact (advances_failHere _).agrees
  · split
    · exact (advances_throw _).agrees
    · exact (advances_pure _).agrees

/-! ## Rules that refer to rows -/

section Rules

variable {g g' : Option Nat → Parser Char (List (Located Token))}
  (h : ∀ k, Agrees List.length n (g k) (g' k))

include h

lemma agrees_readGroup : Agrees List.length (n + 1) (readGroup g) (readGroup g') := by
  refine agrees_bind falls_length advances_peek.agrees fun opening => ?_
  dsimp only
  split
  · exact (advances_expected _).agrees
  · refine agrees_bind falls_length ?_ fun tokens => (advances_pure _).agrees
    exact agrees_bind_of_passes falls_length (passes_exactly (by simp)) fun _ =>
      agrees_bind falls_length (h none) fun _ =>
        agrees_bind falls_length (advances_exactly _).agrees fun _ => (advances_pure _).agrees

lemma agrees_readToken : Agrees List.length (n + 1) (readToken g) (readToken g') := by
  refine agrees_get fun c => agrees_bind falls_length ?_ fun token =>
    agrees_get fun _ => (advances_pure _).agrees
  exact agrees_choice_cons falls_length advances_readKeyword.agrees
    (agrees_choice_cons falls_length advances_readComma.agrees
    (agrees_choice_cons falls_length advances_readNumber.agrees
    (agrees_choice_cons falls_length advances_readText.agrees
    (agrees_choice_cons falls_length advances_readRawName.agrees
    (agrees_choice_cons falls_length advances_readBareName.agrees
    (agrees_choice_cons falls_length advances_readOperator.agrees
    (agrees_choice_cons falls_length (agrees_readGroup h)
    (agrees_choice_cons falls_length advances_readBlank.agrees agrees_choice_nil))))))))

lemma agrees_readBlock (enclosing : Nat) :
    Agrees List.length (n + 1) (readBlock g enclosing) (readBlock g' enclosing) := by
  refine agrees_get fun c => agrees_bind falls_length
    (agrees_optional (passes_matching _).advances.agrees) fun _ => ?_
  refine agrees_bind_of_passes falls_length (passes_exactly (by simp)) fun _ =>
    agrees_bind falls_length advances_readReference.agrees fun reference => ?_
  split
  · exact (advances_failHere _).agrees
  · exact agrees_bind falls_length (h _) fun _ => agrees_get fun _ => (advances_pure _).agrees

lemma agrees_readStep (k : Option Nat) :
    Agrees List.length (n + 1) (readStep g k) (readStep g' k) := by
  refine agrees_get fun c => ?_
  split
  · exact (advances_pure _).agrees
  · refine agrees_bind falls_length (agrees_optional (agrees_readToken h)) ?_
    rintro (_ | token)
    · exact (advances_pure _).agrees
    · dsimp only
      split
      · refine agrees_bind falls_length (agrees_optional (agrees_readBlock h _)) ?_
        rintro (_ | block)
        · exact (advances_pure _).agrees
        · exact (advances_pure _).agrees
      · exact (advances_pure _).agrees

lemma agrees_readRow (k : Option Nat) :
    Agrees List.length (n + 1) (readRow g k) (readRow g' k) :=
  agrees_map (agrees_collect falls_length (agrees_readStep h k)) _

end Rules

/-- A row is read by reading rows in its groups and blocks. -/
theorem readTokens_eq (k : Option Nat) : readTokens k = readRow readTokens k :=
  fix_eq (fun _ _ _ h k => agrees_readRow h k) k

end Formulary.Token
