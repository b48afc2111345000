/-
# Tokens on their own

The part of a text that a name or a value was read from is read as just that token when it stands
alone.  A token ends where its class of characters ends, so the end of the text ends it just as
well; a quoted name goes up to its first closing quote, and a text up to its first quote without a
backslash in front of it.
-/
import Formulary.Proofs.Token.Fitting

namespace Formulary.Token

open Text Word Parsing

variable {cs ds : List Char} {t : Token}

/-- The text is read as this token and nothing else. -/
def Alone (t : Token) (cs : List Char) : Prop :=
  ofText cs = .ok [⟨t, ⟨{}, Position.after {} cs⟩⟩]

/-- The token stands for a name or for a value. -/
def isTelling : Token → Bool
  | .ident n raw => raw || !isReserved n
  | .operator _ | .number .. | .bool _ | .null | .text _ => true
  | .comma | .space | .lineBreak | .group .. => false

lemma opensBlock_of_isTelling (h : t.isTelling = true) : t.opensBlock = false := by
  cases t with
  | ident n raw =>
    cases raw with
    | true => simp [opensBlock, isWord]
    | false =>
      have hreserved : isReserved n = false := by simpa [isTelling] using h
      have hne (w : String) (hw : isReserved w = true) : n ≠ w := by
        rintro rfl
        rw [hreserved] at hw
        cases hw
      simp [opensBlock, isWord, hne "where" (by decide), hne "switch" (by decide)]
  | _ => rfl

/-- A token that is read and opens no block is the first step of a row. -/
lemma readSteps_of_accepts {c : Cursor Char} {p : Position} {q r : Option Char}
    (h : Accepts (Around q (cs ++ ds)) (readToken readTokens) fun u rest i =>
      u.value = t ∧ Around r ds rest i) (hopens : t.opensBlock = false)
    (hst : Stands c p (cs ++ ds)) (hq : c.previous.map Located.value = q) (hc : c.Calm) :
    ∃ c', Stands c' (p.after cs) ds ∧ c'.previous.map Located.value = r ∧ c'.Calm ∧
      readSteps none c = Outcome.prepend [⟨t, p, p.after cs⟩] (readSteps none c') := by
  obtain ⟨u, c₁, htoken, hu, hst₁, hr, hc₁⟩ := exists_of_accepts (c := c.fork) h
    (reads_readToken reads_readTokens) hst.fork hq (calm_fork _)
  obtain ⟨-, hspan⟩ := readToken_inv htoken
  rw [hst.fork.position_eq, hst₁.position_eq] at hspan
  obtain ⟨u, span⟩ := u
  subst hu hspan
  refine ⟨c.adopt c₁, hst₁.adopt c, ?_, hc.adopt hc₁,
    readSteps_cons (E := none) hst rfl htoken hopens⟩
  rw [previous_of_fork_eq (fork_adopt c c₁), hr]

/-- At the end of a text its row is at its end. -/
lemma readSteps_end {c : Cursor Char} {p : Position} (hst : Stands c p []) (hc : c.Calm) :
    ∃ c', readSteps none c = .ok [] c' ∧ c'.atEnd = true := by
  obtain ⟨c', hnil, hfork, -⟩ := readSteps_nil none hst hc
  exact ⟨c', hnil, (hst.of_fork_eq hfork).atEnd_iff.mpr rfl⟩

lemma ofText_of_readSteps {text : List Char} {rows : List (List (Located Token))} {c : Cursor Char}
    (h : readSteps none (Cursor.ofText text) = .ok rows c) (hend : c.atEnd = true) :
    ofText text = .ok rows.flatten := by
  rw [ofText, readTokens_of_ok h]
  dsimp only
  rw [if_pos hend]

lemma calm_ofText (text : List Char) : (Cursor.ofText text).Calm := fun f hf => by cases hf

/-- A token that is read from all of a text is the only one. -/
lemma alone_of_accepts {q : Option Char}
    (h : Accepts (Around none (cs ++ [])) (readToken readTokens) fun u r i =>
      u.value = t ∧ Around q [] r i) (htelling : t.isTelling = true) : Alone t cs := by
  obtain ⟨c₁, hst₁, -, hc₁, hrows⟩ := readSteps_of_accepts h (opensBlock_of_isTelling htelling)
    (stands_ofText (cs ++ [])) rfl (calm_ofText _)
  obtain ⟨c₂, hnil, hend⟩ := readSteps_end hst₁ hc₁
  rw [List.append_nil, hnil] at hrows
  exact ofText_of_readSteps hrows hend

/-- A token that is read at the start of a text is the first one of the text. -/
lemma head?_of_accepts {q : Option Char} {ts : List (Located Token)}
    (h : Accepts (Around none (cs ++ ds)) (readToken readTokens) fun u r i =>
      u.value = t ∧ Around q ds r i) (hopens : t.opensBlock = false)
    (hrun : ofText (cs ++ ds) = .ok ts) : ts.head? = some ⟨t, {}, Position.after {} cs⟩ := by
  obtain ⟨c₁, -, -, -, hrows⟩ :=
    readSteps_of_accepts h hopens (stands_ofText (cs ++ ds)) rfl (calm_ofText _)
  rw [ofText] at hrun
  split at hrun
  · rename_i us c₂ hread
    obtain ⟨rows, hsteps, rfl⟩ := readTokens_inv hread
    rw [hrows] at hsteps
    obtain ⟨rows, -, rfl⟩ := prepend_inv hsteps
    split at hrun <;> cases hrun
    rfl
  · cases hrun

/-! ## What is read stands alone -/

/-- A token that fits somewhere fits where nothing is around it. -/
lemma Fits.alone {q : Option Char} (h : Fits q t cs ds) (htelling : t.isTelling = true) :
    Alone t cs := by
  cases h with
  | keyword hname hkey _ =>
    have haccepts : Accepts (Around none _) (readToken readTokens) _ :=
      accepts_readToken_keyword hname hkey stops_nil
    rw [String.toList_ofList] at haccepts
    exact alone_of_accepts haccepts htelling
  | bareName hname hkey _ =>
    have haccepts : Accepts (Around none _) (readToken readTokens) _ :=
      accepts_readToken_bareName hname hkey stops_nil
    rw [String.toList_ofList] at haccepts
    exact alone_of_accepts haccepts htelling
  | @quotedName k n _ hn =>
    have haccepts : Accepts (Around none (_ ++ [])) (readToken readTokens) _ :=
      accepts_readToken_quotedName (n := String.ofList n) (k := k) (by rwa [String.toList_ofList])
    rw [String.toList_ofList] at haccepts
    exact alone_of_accepts haccepts htelling
  | number n _ _ =>
    have haccepts : Accepts (Around none _) (readToken readTokens) _ :=
      accepts_readToken_number n (fun _ c hc => by cases hc) stops_nil
    exact alone_of_accepts haccepts htelling
  | @text es v _ hv =>
    have haccepts : Accepts (Around none (_ :: _ ++ ['"'])) (readToken readTokens) _ :=
      accepts_readToken_text (v := String.ofList v) (by rwa [String.toList_ofList])
    exact alone_of_accepts (by simpa using haccepts) htelling
  | operator hcs hne _ _ =>
    have haccepts : Accepts (Around none (_ ++ [])) (readToken readTokens) _ :=
      accepts_readToken_operator (s := String.ofList cs) (by rwa [String.toList_ofList])
        (by rwa [String.toList_ofList]) nofun
    rw [String.toList_ofList] at haccepts
    exact alone_of_accepts haccepts htelling
  | comma => cases htelling
  | blank =>
    rw [ofBlank] at htelling
    split at htelling <;> cases htelling

end Formulary.Token
