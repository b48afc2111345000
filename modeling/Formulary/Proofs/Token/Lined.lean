/-
# Rows of tokens in order

The tokens of a text lie one after the other, and so do those of every group between its ends.
Each covers a part of the text, which is read as just that token if it stands for a name or a
value.
-/
import Formulary.Proofs.Text.Spans
import Formulary.Proofs.Token.Alone

namespace Formulary.Token

open Text Word Parsing

variable {c c' : Cursor Char} {p : Position} {text cs ds : List Char} {t : Token}

/-! ## Order -/

/-- The tokens have a property and lie one after the other between two bytes, and so do the tokens
of every group between its ends. -/
inductive Orderly (T : Located Token → Prop) : Nat → Nat → List (Located Token) → Prop
  | nil {lo hi : Nat} (h : lo ≤ hi) : Orderly T lo hi []
  | cons {lo hi : Nat} {t : Located Token} {tokens : List (Located Token)} (here : T t)
      (hlo : lo ≤ t.span.start.byte) (hle : t.span.start.byte ≤ t.span.stop.byte)
      (inside : ∀ kind ts, t.value = .group kind ts →
        Orderly T t.span.start.byte t.span.stop.byte ts)
      (tail : Orderly T t.span.stop.byte hi tokens) : Orderly T lo hi (t :: tokens)

variable {T U : Located Token → Prop} {lo lo' mid hi hi' : Nat} {ts us : List (Located Token)}

lemma Orderly.le (h : Orderly T lo hi ts) : lo ≤ hi := by
  induction h with
  | nil h => exact h
  | cons _ hlo hle _ _ _ ih => omega

lemma Orderly.mono (h : Orderly T lo hi ts) (himp : ∀ t, T t → U t) (hlo : lo' ≤ lo)
    (hhi : hi ≤ hi') : Orderly U lo' hi' ts := by
  induction h generalizing lo' hi' with
  | nil h => exact .nil (by omega)
  | cons here hstart hle _ _ ihinside ihtail =>
    exact .cons (himp _ here) (Nat.le_trans hlo hstart) hle
      (fun kind ts heq => ihinside kind ts heq (Nat.le_refl _) (Nat.le_refl _))
      (ihtail (Nat.le_refl _) hhi)

lemma Orderly.append (h : Orderly T lo mid ts) (h' : Orderly T mid hi us) :
    Orderly T lo hi (ts ++ us) := by
  induction ts generalizing lo with
  | nil => exact h'.mono (fun _ => id) h.le (Nat.le_refl _)
  | cons t ts ih =>
    cases h with
    | cons here hlo hle inside tail => exact .cons here hlo hle inside (ih tail)

/-- A row of tokens goes from the beginning of the first one up to the end of the last one. -/
lemma Orderly.up_to_last {t u : Located Token} (h : Orderly T lo hi (t :: ts))
    (hu : (t :: ts).getLast? = some u) :
    Orderly T t.span.start.byte u.span.stop.byte (t :: ts) ∧ T u ∧
      t.span.start.byte ≤ u.span.start.byte ∧ t.span.stop.byte ≤ u.span.stop.byte := by
  induction ts generalizing t lo with
  | nil =>
    cases h with
    | cons here _ hle inside _ =>
      cases hu
      exact ⟨.cons here (Nat.le_refl _) hle inside (.nil (Nat.le_refl _)), here, Nat.le_refl _,
        Nat.le_refl _⟩
  | cons v ts ih =>
    cases h with
    | cons here _ hle inside tail =>
      obtain ⟨horderly, hlast, hstart, hstop⟩ := ih tail (by rwa [List.getLast?_cons_cons] at hu)
      cases tail with
      | cons _ hnext hle' _ _ =>
        refine ⟨.cons here (Nat.le_refl _) hle inside ?_, hlast, by omega, by omega⟩
        exact horderly.mono (fun _ => id) hnext (Nat.le_refl _)

/-! ## Places in a text -/

/-- The token covers a part of a text that begins at `p`, and stands alone there if it stands for a
name or a value. -/
def Cut (p : Position) (text : List Char) (t : Located Token) : Prop :=
  ∃ before cs after, text = before ++ cs ++ after ∧
    t.span = ⟨p.after before, p.after (before ++ cs)⟩ ∧
      (t.value.isTelling = true → Alone t.value cs)

/-- The tokens lie one after the other in a text that begins at `p`. -/
def Lined (p : Position) (ts : List (Located Token)) (text : List Char) : Prop :=
  Orderly (Cut p text) p.byte (p.after text).byte ts

lemma Cut.inside {t : Located Token} {before : List Char} (h : Cut (p.after before) cs t)
    (after : List Char) : Cut p (before ++ cs ++ after) t := by
  obtain ⟨b, ds, a, rfl, hspan, halone⟩ := h
  refine ⟨before ++ b, ds, a ++ after, by simp, ?_, halone⟩
  rw [hspan, List.append_assoc, Position.after_append p before b,
    Position.after_append p before (b ++ ds)]

lemma lined_nil (p : Position) (cs : List Char) : Lined p [] cs := .nil (byte_le_after p cs)

/-- What is in order stays so when the text is a part of another one. -/
lemma Lined.inside {before : List Char} (h : Lined (p.after before) ts cs) (after : List Char) :
    Lined p ts (before ++ cs ++ after) := by
  refine h.mono (fun _ ht => ht.inside after) (byte_le_after p before) ?_
  rw [Position.after_append, Position.after_append]
  exact byte_le_after _ _

lemma Lined.append (h : Lined p ts cs) (h' : Lined (p.after cs) us ds) :
    Lined p (ts ++ us) (cs ++ ds) := by
  have hfront : Orderly (Cut p (cs ++ ds)) p.byte (p.after cs).byte ts :=
    h.mono (fun t (ht : Cut (p.after []) cs t) => ht.inside ds) (Nat.le_refl _) (Nat.le_refl _)
  refine hfront.append (h'.mono (fun t ht => ?_) (Nat.le_refl _) ?_)
  · have hback := ht.inside (p := p) []
    rwa [List.append_nil] at hback
  · rw [Position.after_append]

lemma lined_singleton (htelling : t.isTelling = true → Alone t cs)
    (hinside : ∀ kind ts, t = .group kind ts → Lined p ts cs) :
    Lined p [⟨t, ⟨p, p.after cs⟩⟩] cs :=
  .cons ⟨[], cs, [], by simp, rfl, htelling⟩ (Nat.le_refl _) (byte_le_after p cs) hinside
    (.nil (Nat.le_refl _))

/-! ## Reading -/

section Contents

variable {contents : Option Nat → Parser Char (List (Located Token))}
  (hcontents : ∀ k, Reads (contents k) Lined)

include hcontents

lemma lined_readGroup :
    Reads (readGroup contents) fun p t cs => Lined p [⟨t, ⟨p, p.after cs⟩⟩] cs := by
  intro c p text t c' hst hrun
  obtain ⟨kind, a, q, ts, as, bs, c₁, c₂, -, hopening, htokens, hclosing, rfl⟩ := readGroup_inv hrun
  obtain ⟨_, ds, rfl, hst₁, rfl⟩ := reads_exactly _ hst hopening
  obtain ⟨cs, es, rfl, hst₂, hlined⟩ := hcontents none hst₁ htokens
  obtain ⟨_, fs, rfl, hst₃, rfl⟩ := reads_exactly _ hst₂ hclosing
  refine ⟨[a] ++ cs ++ [q], fs, by simp, ?_, lined_singleton nofun ?_⟩
  · rwa [Position.after_append, Position.after_append]
  · rintro kind' ts' ⟨⟩
    exact hlined.inside [q]

lemma lined_readToken : Reads (readToken contents) fun p t cs => Lined p [t] cs := by
  intro c p text t c' hst hrun
  obtain ⟨t, span⟩ := t
  rcases fits_or_group hst hrun with ⟨cs, ds, rfl, hst', hspan, hfits⟩ | ⟨d, hgroup, hfork, hspan⟩
  · dsimp only at hspan hfits
    subst hspan
    exact ⟨cs, ds, rfl, hst', lined_singleton hfits.alone fun kind ts heq =>
      absurd heq (hfits.ne_group kind ts)⟩
  · obtain ⟨cs, ds, rfl, hd, hlined⟩ := lined_readGroup hcontents hst.fork hgroup
    have hst' := hd.of_fork_eq hfork
    rw [hst'.position_eq] at hspan
    dsimp only at hspan hlined
    subst hspan
    exact ⟨cs, ds, rfl, hst', hlined⟩

lemma lined_readBlock (enclosing : Nat) : Reads (readBlock contents enclosing) fun p t cs =>
    Lined p [t] cs ∧ t.span = ⟨p, p.after cs⟩ := by
  intro c p text t c' hst hrun
  obtain ⟨blank, _, k, ts, c₁, rfl, -, -, -, hst₁, htokens, rfl⟩ := readBlock_parts hst hrun
  obtain ⟨cs, ds, rfl, hst₂, hlined⟩ := hcontents k hst₁ htokens
  rw [← Position.after_append] at hst₂
  have hinside := hlined.inside (p := p) []
  rw [List.append_nil] at hinside
  rw [hst₂.position_eq]
  refine ⟨blank ++ cs, ds, by simp, hst₂, lined_singleton nofun ?_, rfl⟩
  rintro kind ts ⟨⟩
  exact hinside

lemma lined_readStep (k : Option Nat) :
    Reads (readStep contents k) (Perhaps fun p a cs => Lined p a.1 cs) := by
  have htokens := reads_optional (lined_readToken hcontents)
  have hblocks := reads_optional (lined_readBlock hcontents (k.getD 0))
  intro c p text o c' hst hrun
  cases rowStep_of_readStep hrun with
  | ends => exact ⟨[], text, rfl, hst, rfl⟩
  | stalls hgoes htoken =>
    obtain ⟨cs, ds, rfl, hst₁, rfl⟩ := htokens hst htoken
    exact ⟨[], ds, rfl, hst₁, rfl⟩
  | plain hgoes htoken hplain => exact htokens hst htoken
  | blockless hgoes htoken hopens hblock =>
    obtain ⟨cs, ds, rfl, hst₁, hlined⟩ := htokens hst htoken
    obtain ⟨es, fs, rfl, hst₂, rfl⟩ := hblocks hst₁ hblock
    exact ⟨cs, fs, rfl, hst₂, hlined⟩
  | @block c₁ _ t b hgoes htoken hopens hblock =>
    obtain ⟨cs, ds, rfl, hst₁, hlined⟩ := htokens hst htoken
    obtain ⟨es, fs, rfl, hst₂, hblocked, hspan⟩ := hblocks hst₁ hblock
    -- the line break after the block covers nothing
    have hbreak : Lined ((p.after cs).after es) [⟨lineBreak, Span.point b.span.stop⟩] [] := by
      rw [hspan]
      exact lined_singleton nofun nofun
    refine ⟨cs ++ es, fs, by simp, by rwa [Position.after_append], ?_⟩
    have hboth := hblocked.append hbreak
    rw [List.append_nil] at hboth
    exact hlined.append hboth

lemma lined_readRow (k : Option Nat) : Reads (readRow contents k) Lined := by
  refine (reads_map (reads_collect (R := Lined) (lined_readStep hcontents k))).mono ?_
  rintro p a cs ⟨rows, rfl, hpieces⟩
  induction hpieces with
  | nil => exact lined_nil _ _
  | cons head _ ih => exact head.append ih

end Contents

lemma lined_readTokens (k : Option Nat) : Reads (readTokens k) Lined :=
  reads_fix (R := fun _ => Lined) (fun _ h => lined_readRow h) k

/-- The tokens of a text, at any depth, lie one after the other; each covers a part of the text,
which is read as just that token if it stands for a name or a value. -/
theorem lined_of_ofText (h : ofText text = .ok ts) : Lined {} ts text := by
  unfold ofText at h
  cases hrun : readTokens none (Cursor.ofText text) with
  | error f c =>
    rw [hrun] at h
    cases h
  | ok us c =>
    rw [hrun] at h
    obtain ⟨cs, ds, rfl, hst, hlined⟩ := lined_readTokens none (stands_ofText text) hrun
    dsimp only at h
    split at h
    · rename_i hend
      cases h
      rwa [hst.atEnd_iff.mp hend, List.append_nil]
    · cases h

end Formulary.Token
