/-
# Texts read side by side

A text goes on with `z` in one run and with `z'` in another.  The first is white space, and the
second begins with white space if it is not empty.  No token but white space begins in the text
and ends beyond it, so words, numbers, operators and quoted names are read alike in both runs, or
in none.  A text in quotes and a group that are read in the first run are read in the second.
-/
import Formulary.Proofs.Parsing.Following
import Formulary.Proofs.Token.Lossless
import Formulary.Proofs.Token.Meeting
import Formulary.Proofs.Token.Row

namespace Formulary.Token

open Text Word Parsing

variable {α α' : Type} {c : Char} {cs ds t z : List Char} {pat : Pattern Char}

/-! ## Patterns in front of white space -/

/-- The text is at its end or goes on with white space. -/
def Gapped (z : List Char) : Prop := ∀ c ∈ z.head?, isBlank c = true

/-- The pattern takes no more than there is, and the same whatever comes after white space. -/
structure Gapless (pat : Pattern Char) : Prop where
  le : ∀ t n, pat.length? t = some n → n ≤ t.length
  append : ∀ t z, Gapped z → pat.length? (t ++ z) = pat.length? t

lemma runLength_le {q : Char → Bool} (t : List Char) : Pattern.runLength q t ≤ t.length :=
  (List.takeWhile_prefix q).length_le

lemma runLength_of_gapped {q : Char → Bool} (hq : ∀ c, isBlank c = true → q c = false)
    (t : List Char) (hz : Gapped z) : Pattern.runLength q (t ++ z) = Pattern.runLength q t := by
  induction t with
  | nil =>
    cases z with
    | nil => rfl
    | cons c z => simp [Pattern.runLength, hq c (hz c rfl)]
  | cons d t ih =>
    cases hd : q d with
    | true =>
      have hlen : (List.takeWhile q (t ++ z)).length = (List.takeWhile q t).length := ih
      simp [Pattern.runLength, hd, hlen]
    | false => simp [Pattern.runLength, hd]

lemma drop_append_runLength {q : Char → Bool} (t z : List Char) :
    (t ++ z).drop (Pattern.runLength q t) = t.drop (Pattern.runLength q t) ++ z :=
  List.drop_append_of_le_length (runLength_le t)

lemma gapless_namePattern : Gapless namePattern := by
  constructor
  · intro t n hn
    cases t with
    | nil => cases hn
    | cons c t =>
      simp only [namePattern, Option.ite_none_right_eq_some, Option.some.injEq] at hn
      have hle := runLength_le (q := isNamePart) t
      rw [List.length_cons]
      omega
  · intro t z hz
    cases t with
    | nil => exact length?_namePattern_eq_none fun c hc => not_isNameStart_of_isBlank (hz c hc)
    | cons c t =>
      simp only [namePattern, List.cons_append,
        runLength_of_gapped (fun _ h => (class_of_blank h).1) t hz]

lemma gapless_oneOrMore {source : String} {q : Char → Bool}
    (hq : ∀ c, isBlank c = true → q c = false) : Gapless (.oneOrMore source q) := by
  constructor
  · intro t n hn
    simp only [Pattern.oneOrMore, Option.ite_none_left_eq_some, Option.some.injEq] at hn
    have hle := runLength_le (q := q) t
    omega
  · intro t z hz
    simp only [Pattern.oneOrMore, runLength_of_gapped hq t hz]

lemma unsignedLength?_le {n : Nat} (h : unsignedLength? t = some n) : n ≤ t.length := by
  have hwhole := runLength_le (q := Char.isDigit) t
  unfold unsignedLength? at h
  dsimp only at h
  split at h
  · cases h
  · split at h
    · rename_i es hdrop
      cases h
      have hfraction := runLength_le (q := Char.isDigit) es
      have hlen := congrArg List.length hdrop
      rw [List.length_drop, List.length_cons] at hlen
      split <;> omega
    · cases h
      exact hwhole

lemma unsignedLength?_of_gapped (t : List Char) (hz : Gapped z) :
    unsignedLength? (t ++ z) = unsignedLength? t := by
  have hdigit : ∀ c, isBlank c = true → c.isDigit = false := fun _ h => (class_of_blank h).2.2.1
  unfold unsignedLength?
  dsimp only
  rw [runLength_of_gapped hdigit t hz, drop_append_runLength]
  cases hdrop : t.drop (Pattern.runLength Char.isDigit t) with
  | cons e es =>
    by_cases he : e = '.'
    · subst he
      simp only [List.cons_append, runLength_of_gapped hdigit es hz]
    · have hne : ∀ fs, e :: es ≠ '.' :: fs := fun fs h => he (List.cons.inj h).1
      simp [he]
  | nil =>
    rw [List.nil_append]
    cases z with
    | nil => rfl
    | cons c z =>
      have hc : c ≠ '.' := by
        rintro rfl
        exact (class_of_blank (hz '.' rfl)).2.2.2 (by simp)
      simp [hc]

lemma length?_of_ne_minus (hc : c ≠ '-') (t : List Char) :
    numberPattern.length? (c :: t) = unsignedLength? (c :: t) := by
  unfold numberPattern
  dsimp only
  split
  · rename_i heq
    exact absurd (List.cons.inj heq).1 hc
  · rfl

lemma gapless_numberPattern : Gapless numberPattern := by
  constructor
  · intro t n hn
    unfold numberPattern at hn
    dsimp only at hn
    split at hn
    · obtain ⟨k, hk, rfl⟩ := Option.map_eq_some_iff.mp hn
      exact Nat.succ_le_succ (unsignedLength?_le hk)
    · exact unsignedLength?_le hn
  · intro t z hz
    cases t with
    | nil =>
      rw [List.nil_append, length?_numberPattern_eq_none, length?_numberPattern_eq_none]
      · rintro c ⟨⟩
      · intro c hc
        have hclass := class_of_blank (hz c hc)
        refine ⟨?_, hclass.2.2.1⟩
        rintro rfl
        exact hclass.2.2.2 (by simp)
    | cons c t =>
      by_cases hc : c = '-'
      · subst hc
        simp only [numberPattern, List.cons_append, unsignedLength?_of_gapped t hz]
      · rw [List.cons_append, length?_of_ne_minus hc, length?_of_ne_minus hc, ← List.cons_append,
          unsignedLength?_of_gapped _ hz]

lemma length?_rawOpening_le {n : Nat} (h : rawOpeningPattern.length? t = some n) :
    n ≤ t.length := by
  unfold rawOpeningPattern at h
  dsimp only at h
  split at h
  · split at h
    · rename_i es fs hdrop
      cases h
      have hlen := congrArg List.length hdrop
      rw [List.length_drop, List.length_cons] at hlen
      rw [List.length_cons]
      omega
    · cases h
  · cases h

/-- Whether a quote comes after the marks does not depend on white space behind the text. -/
lemma length?_rawOpening_of_gapped (t : List Char) (hz : Gapped z) :
    rawOpeningPattern.length? ('r' :: (t ++ z)) = rawOpeningPattern.length? ('r' :: t) := by
  have hhash : ∀ c, isBlank c = true → (c == '#') = false := fun c h => by
    refine beq_false_of_ne ?_
    rintro rfl
    exact (class_of_blank h).2.2.2 (by simp)
  simp only [rawOpeningPattern, runLength_of_gapped hhash t hz, drop_append_runLength]
  cases t.drop (Pattern.runLength (· == '#') t) with
  | cons e es =>
    by_cases he : e = '"'
    · subst he
      rfl
    · simp [he]
  | nil =>
    cases z with
    | nil => rfl
    | cons d z =>
      have hd : d ≠ '"' := by
        rintro rfl
        exact (class_of_blank (hz '"' rfl)).2.2.2 (by simp)
      simp [hd]

lemma gapless_rawOpeningPattern : Gapless rawOpeningPattern := by
  refine ⟨fun t n hn => length?_rawOpening_le hn, fun t z hz => ?_⟩
  cases t with
  | nil =>
    rw [List.nil_append, length?_rawOpening_of_head, length?_rawOpening_of_head]
    · simp
    · intro hc
      exact (class_of_blank (hz 'r' hc)).2.2.2 (by simp)
  | cons c t =>
    by_cases hc : c = 'r'
    · subst hc
      exact length?_rawOpening_of_gapped t hz
    · rw [length?_rawOpening_of_head (by simpa using hc),
        length?_rawOpening_of_head (by simpa using hc)]

/-! ## Two texts -/

/-- How the second text goes on where the first one does with `z`, and where its places are. -/
structure Prolongs (φ : Position → Position) (text z z' : List Char) : Prop where
  advance : ∀ pre c t, text = pre ++ c :: t →
    φ (Position.after {} (pre ++ [c])) = (φ (Position.after {} pre)).advance c
  last : φ (Position.after {} (text ++ z)) = φ (Position.after {} text)
  blank : ∀ c ∈ z, isBlank c = true
  gapped : Gapped z'
  solid : z = [] ∧ z' = [] ∨ ∀ t, t <:+ text → t ≠ [] → ∃ c ∈ t, isBlank c = false

/-- The first cursor is after `pre` and in front of `t`, and the second is at the same place in the
other text.  As the end of an operand both take what they have passed for the same. -/
structure Beside (φ : Position → Position) (z z' pre t : List Char) (c d : Cursor Char) : Prop where
  left : Stands c (Position.after {} pre) (t ++ z)
  right : Stands d (φ (Position.after {} pre)) (t ++ z')
  operand : c.previous.any (endsOperand ·.value) = d.previous.any (endsOperand ·.value)

/-- Both cursors are at the same place of a text. -/
def Along (φ : Position → Position) (text z z' : List Char) (c d : Cursor Char) : Prop :=
  ∃ pre t, text = pre ++ t ∧ Beside φ z z' pre t c d

variable {φ : Position → Position} {text z z' pre : List Char} {c d : Cursor Char}

lemma Prolongs.gapped_left (h : Prolongs φ text z z') : Gapped z := fun _ hc =>
  h.blank _ (List.mem_of_mem_head? hc)

lemma Beside.of_fork (h : Beside φ z z' pre t c.fork d.fork) : Beside φ z z' pre t c d :=
  ⟨⟨h.left.rest_eq, h.left.stop_eq⟩, ⟨h.right.rest_eq, h.right.stop_eq⟩, h.operand⟩

lemma Along.of_fork (h : Along φ text z z' c.fork d.fork) : Along φ text z z' c d := by
  obtain ⟨pre, t, htext, hcd⟩ := h
  exact ⟨pre, t, htext, hcd.of_fork⟩

/-- Where a character of the text is next, it is passed in both. -/
lemma Beside.pass {a : Char} (h : Prolongs φ text z z') (htext : text = pre ++ a :: t)
    (hcd : Beside φ z z' pre (a :: t) c d) :
    ∃ item rest item' rest', c.rest = item :: rest ∧ d.rest = item' :: rest' ∧ item.value = a ∧
      item'.value = a ∧
      Paired (Beside φ z z' (pre ++ [a]) t) (c.pass item rest) (d.pass item' rest') := by
  have hstart : Position.after {} (pre ++ [a]) = (Position.after {} pre).advance a := by
    rw [Position.after_append]
    rfl
  refine ⟨_, _, _, _, hcd.left.rest_eq, hcd.right.rest_eq, rfl, rfl, paired_pass ⟨?_, ?_, rfl⟩⟩
  · rw [hstart]
    exact (hcd.left.pass _).fork
  · rw [h.advance pre a t htext]
    exact (hcd.right.pass _).fork

/-- What comes next is the same character, or the text is at its end and no class without white
space holds of what comes next. -/
lemma Beside.next?_any {q : Char → Bool} (h : Prolongs φ text z z')
    (hq : ∀ c, isBlank c = true → q c = false) (hcd : Beside φ z z' pre t c d) :
    c.next?.any q = d.next?.any q := by
  rw [hcd.left.next?_eq, hcd.right.next?_eq]
  cases t with
  | cons a t => rfl
  | nil =>
    have hnone : ∀ {z : List Char}, Gapped z → z.head?.any q = false := by
      intro z hz
      cases z with
      | nil => rfl
      | cons a z => exact hq a (hz a rfl)
    rw [List.nil_append, List.nil_append, hnone h.gapped_left, hnone h.gapped]

lemma Beside.takeItems (h : Prolongs φ text z z') (cs : List Char) {pre : List Char}
    {c d : Cursor Char} (htext : text = pre ++ (cs ++ t))
    (hcd : Paired (Beside φ z z' pre (cs ++ t)) c d) :
    ∃ c' d', takeItems cs.length c = .ok cs c' ∧ takeItems cs.length d = .ok cs d' ∧
      Paired (Beside φ z z' (pre ++ cs) t) c' d' := by
  induction cs generalizing pre c d with
  | nil =>
    rw [List.append_nil]
    exact ⟨c, d, rfl, rfl, hcd⟩
  | cons a cs ih =>
    obtain ⟨item, rest, item', rest', hc, hd, rfl, hitem', hpass⟩ :=
      hcd.related.of_fork.pass h htext
    obtain ⟨c', d', htake, htake', hcd'⟩ := ih (by simpa using htext) hpass
    have hnext : next c = .ok item (c.pass item rest) := by rw [next, hc]
    have hnext' : next d = .ok item' (d.pass item' rest') := by rw [next, hd]
    refine ⟨c', d', ?_, ?_, by simpa using hcd'⟩
    · rw [List.length_cons, Parsing.takeItems, bind_of_ok hnext, bind_of_ok htake]
      rfl
    · rw [List.length_cons, Parsing.takeItems, bind_of_ok hnext', bind_of_ok htake', hitem']
      rfl

/-- A pattern takes the same in both texts if it takes no more than is common to them. -/
lemma Beside.matching (h : Prolongs φ text z z') (htext : text = pre ++ t)
    (hcd : Paired (Beside φ z z' pre t) c d)
    (hsame : pat.length? (t ++ z') = pat.length? (t ++ z))
    (hle : ∀ n, pat.length? (t ++ z) = some n → n ≤ t.length) :
    Outcome.FollowedBy Eq (Along φ text z z') (matching pat c) (matching pat d) := by
  have hbeside := hcd.related.of_fork
  rw [Parsing.matching, Parsing.matching, hbeside.left.upcoming_eq, hbeside.right.upcoming_eq,
    hsame]
  cases hlen : pat.length? (t ++ z) with
  | none => exact fun _ => recoverable_error rfl
  | some n =>
    cases n with
    | zero => exact fun _ => recoverable_error rfl
    | succ n =>
      have hsplit := List.take_append_drop (n + 1) t
      have hcount : (t.take (n + 1)).length = n + 1 := List.length_take_of_le (hle _ hlen)
      rw [← hsplit] at htext hcd
      obtain ⟨c', d', htake, htake', hcd'⟩ := Beside.takeItems h _ htext hcd
      rw [hcount] at htake htake'
      show Outcome.FollowedBy _ _ (Parsing.takeItems (n + 1) c) (Parsing.takeItems (n + 1) d)
      rw [htake]
      refine ⟨_, d', htake', rfl, hcd'.mono fun _ _ hc => ⟨_, _, ?_, hc⟩⟩
      rw [htext, List.append_assoc]

lemma follows_matching (h : Prolongs φ text z z') (hpat : Gapless pat) :
    Follows (Along φ text z z') (matching pat) (matching pat) Eq (Along φ text z z') := by
  intro c d hcd
  obtain ⟨pre, t, htext, hbeside⟩ := hcd.related
  have hleft := hpat.append t z h.gapped_left
  refine Beside.matching h htext ⟨hbeside, hcd.calm, hcd.calm'⟩ ?_ ?_
  · rw [hleft, hpat.append t z' h.gapped]
  · rw [hleft]
    exact hpat.le t

/-- Fixed text that does not begin with white space is not found where white space is next. -/
lemma recoverable_literal {x : Position} {a : Char} {s wanted : List Char} {f : Failure}
    (hf : f.fatal = false) (ha : isBlank a = false) (hz : Gapped z) (hst : Stands c x z) :
    Recoverable (literal.go wanted f (a :: s) c) := by
  rw [literal.go, hst.rest_eq]
  cases z with
  | nil => exact recoverable_error hf
  | cons b z =>
    have hne : b ≠ a := by
      rintro rfl
      rw [hz b rfl] at ha
      cases ha
    simp only [locate, beq_iff_eq, hne, if_false]
    exact recoverable_error hf

/-- Fixed text without white space is found in both texts or in none. -/
lemma follows_exactly (h : Prolongs φ text z z') {s : List Char}
    (hs : ∀ c ∈ s, isBlank c = false) :
    Follows (Along φ text z z') (exactly s) (exactly s) (fun _ _ => True) (Along φ text z z') := by
  have hgo : ∀ (s wanted : List Char), (∀ c ∈ s, isBlank c = false) →
      ∀ f g : Failure, f.fatal = false → g.fatal = false → Follows (Along φ text z z')
        (literal.go wanted f s) (literal.go wanted g s) (fun _ _ => True) (Along φ text z z') := by
    intro s wanted hs f g hf hg
    induction s with
    | nil => exact fun c d hcd => ⟨wanted, d, rfl, trivial, hcd⟩
    | cons a s ih =>
      have ha := hs a List.mem_cons_self
      intro c d hcd
      obtain ⟨pre, t, htext, hbeside⟩ := hcd.related.of_fork
      cases t with
      | nil =>
        -- at the end of the text only white space follows, which the fixed text does not hold
        obtain ⟨e, c', hrun, -⟩ :=
          (recoverable_literal hf ha h.gapped_left hbeside.left :
            Recoverable (literal.go wanted f (a :: s) c))
        rw [hrun]
        exact fun _ => recoverable_literal hg ha h.gapped hbeside.right
      | cons b t =>
        obtain ⟨item, rest, item', rest', hc, hd, rfl, hitem', hpass⟩ := hbeside.pass h htext
        rw [literal.go, literal.go, hc, hd]
        dsimp only
        rw [hitem']
        split
        · exact ih (fun c hc => hs c (List.mem_cons_of_mem _ hc))
            (hpass.mono fun _ _ hc => ⟨_, _, by simpa using htext, hc⟩)
        · exact fun _ => recoverable_error hg
  exact fun c d hcd => hgo s s hs _ _ rfl rfl hcd

/-! ## Words, numbers and operators -/

lemma follows_readKeyword (h : Prolongs φ text z z') :
    Follows (Along φ text z z') readKeyword readKeyword (Meet φ id) (Along φ text z z') := by
  refine follows_get fun c d _ => Follows.of_imp ?_ fun _ _ => id
  refine follows_bind (follows_matching h gapless_namePattern) fun w w' hw => ?_
  subst hw
  cases keyword? (String.ofList w) with
  | none => exact follows_throw fun _ => rfl
  | some k => cases k <;> exact follows_pure (.leaf fun _ _ ht => by cases ht) fun _ _ => id

lemma follows_readComma (h : Prolongs φ text z z') :
    Follows (Along φ text z z') readComma readComma (Meet φ id) (Along φ text z z') :=
  follows_bind (follows_exactly h (List.forall_mem_singleton.mpr (by decide))) fun _ _ _ =>
    follows_pure (.leaf fun _ _ ht => by cases ht) fun _ _ => id

lemma ofNumberText_ne_group (cs : List Char) (kind : GroupKind) (ts : List (Located Token)) :
    ofNumberText cs ≠ .group kind ts := by
  unfold ofNumberText
  dsimp only
  split <;> exact Token.noConfusion

lemma follows_readNumber (h : Prolongs φ text z z') :
    Follows (Along φ text z z') readNumber readNumber (Meet φ id) (Along φ text z z') := by
  have hminus : ∀ o : Option Char, (o == some '-') = o.any (· == '-') := by
    rintro (_ | c) <;> rfl
  refine follows_get fun c d hcd => ?_
  obtain ⟨pre, t, -, hbeside⟩ := hcd.of_fork
  have hsame : (c.next? == some '-') = (d.next? == some '-') := by
    rw [hminus, hminus]
    refine hbeside.next?_any h fun c hc => beq_false_of_ne ?_
    rintro rfl
    exact (class_of_blank hc).2.2.2 (by simp)
  rw [hsame, hbeside.operand]
  split
  · exact follows_failHere _ _
  · refine follows_bind (follows_matching h gapless_numberPattern) fun cs ds hcs => ?_
    subst hcs
    refine follows_get fun c d hcd => ?_
    obtain ⟨pre, t, -, hbeside⟩ := hcd.of_fork
    rw [hbeside.next?_any h fun _ hc => (class_of_blank hc).1]
    split
    · exact follows_failHere _ _
    · exact follows_pure (.leaf (ofNumberText_ne_group cs)) fun _ _ => id

lemma follows_readBareName (h : Prolongs φ text z z') :
    Follows (Along φ text z z') readBareName readBareName (Meet φ id) (Along φ text z z') := by
  refine follows_bind (follows_matching h gapless_namePattern) fun cs ds hcs => ?_
  subst hcs
  exact follows_pure (.leaf fun _ _ ht => by cases ht) fun _ _ => id

lemma follows_readOperator (h : Prolongs φ text z z') :
    Follows (Along φ text z z') readOperator readOperator (Meet φ id) (Along φ text z z') := by
  have hpattern : Gapless operatorPattern := gapless_oneOrMore fun _ hc => (class_of_blank hc).2.1
  refine follows_bind (follows_matching h hpattern) fun cs ds hcs => ?_
  subst hcs
  exact follows_pure (.leaf fun _ _ ht => by cases ht) fun _ _ => id

/-! ## White space -/

/-- Both cursors are at the same place of a text, in front of its end. -/
def Amid (φ : Position → Position) (text z z' : List Char) (c d : Cursor Char) : Prop :=
  ∃ pre t, text = pre ++ t ∧ t ≠ [] ∧ Beside φ z z' pre t c d

lemma Amid.along (h : Amid φ text z z' c d) : Along φ text z z' c d := by
  obtain ⟨pre, t, htext, -, hcd⟩ := h
  exact ⟨pre, t, htext, hcd⟩

lemma Amid.of_fork (h : Amid φ text z z' c.fork d.fork) : Amid φ text z z' c d := by
  obtain ⟨pre, t, htext, hne, hcd⟩ := h
  exact ⟨pre, t, htext, hne, hcd.of_fork⟩

lemma takeWhile_isBlank_append (h : ∃ c ∈ t, isBlank c = false) (z : List Char) :
    (t ++ z).takeWhile isBlank = t.takeWhile isBlank := by
  obtain ⟨c, hc, hblank⟩ := h
  rw [List.takeWhile_append, if_neg]
  intro hlen
  have hall := List.all_eq_true.mp (List.all_takeWhile (p := isBlank) (l := t)) c
  rw [(List.takeWhile_prefix isBlank).eq_of_length hlen, hblank] at hall
  exact Bool.false_ne_true (hall hc)

/-- In front of the end of the text, the white space to come ends in the text. -/
lemma Prolongs.takeWhile_isBlank (h : Prolongs φ text z z') (ht : t <:+ text) (hne : t ≠ []) :
    (t ++ z).takeWhile isBlank = t.takeWhile isBlank ∧
      (t ++ z').takeWhile isBlank = t.takeWhile isBlank := by
  rcases h.solid with ⟨rfl, rfl⟩ | hsolid
  · rw [List.append_nil]
    exact ⟨rfl, rfl⟩
  · exact ⟨takeWhile_isBlank_append (hsolid t ht hne) z, takeWhile_isBlank_append (hsolid t ht hne) z'⟩

lemma follows_readBlank (h : Prolongs φ text z z') :
    Follows (Amid φ text z z') readBlank readBlank (Meet φ id) (Along φ text z z') := by
  have hblank : Follows (Amid φ text z z') (matching blankPattern) (matching blankPattern) Eq
      (Along φ text z z') := by
    intro c d hcd
    obtain ⟨pre, t, htext, hne, hbeside⟩ := hcd.related
    obtain ⟨hleft, hright⟩ := h.takeWhile_isBlank ⟨pre, htext.symm⟩ hne
    refine Beside.matching h htext ⟨hbeside, hcd.calm, hcd.calm'⟩ ?_ fun n hn => ?_
    · simp only [blankPattern, Pattern.oneOrMore, Pattern.runLength, hleft, hright]
    · simp only [blankPattern, Pattern.oneOrMore, Pattern.runLength, hleft,
        Option.ite_none_left_eq_some, Option.some.injEq] at hn
      rw [← hn.2]
      exact (List.takeWhile_prefix isBlank).length_le
  refine follows_bind hblank fun cs ds hcs => ?_
  subst hcs
  exact follows_pure (.leaf fun _ _ ht => by split at ht <;> cases ht) fun _ _ => id

/-! ## Quotes -/

/-- White space is no end of a text in quotes, and running out of it is fatal. -/
lemma takeUntil_blank {x : Position} {a : Char} {s : List Char} (ha : isBlank a = false)
    (hz : ∀ c ∈ z, isBlank c = true) (hst : Stands c x z) :
    ∃ f c', takeUntil (exactly (a :: s)) c = .error f c' ∧ f.fatal = true := by
  induction z generalizing c x with
  | nil =>
    obtain ⟨f, c', hstop, hf⟩ : Recoverable (exactly (a :: s) c.fork) :=
      recoverable_literal rfl ha (fun _ hc => by cases hc) hst.fork
    exact ⟨_, _, takeUntil_of_nil hstop hf hst.rest_eq, rfl⟩
  | cons b z ih =>
    obtain ⟨f, c', hstop, hf⟩ : Recoverable (exactly (a :: s) c.fork) :=
      recoverable_literal rfl ha (fun d hd => hz d (List.mem_of_mem_head? hd)) hst.fork
    obtain ⟨g, c₁, hrun, hg⟩ := ih (fun d hd => hz d (List.mem_cons_of_mem _ hd)) (hst.pass _)
    refine ⟨g, c₁, ?_, hg⟩
    rw [takeUntil_of_cons hstop hf hst.rest_eq, hrun]
    rfl

/-- The closing quote is found at the same place in both texts. -/
lemma follows_takeUntil (h : Prolongs φ text z z') {a : Char} {s : List Char}
    (hs : ∀ c ∈ a :: s, isBlank c = false) :
    Follows (Along φ text z z') (takeUntil (exactly (a :: s))) (takeUntil (exactly (a :: s)))
      (List.Forall₂ fun x y => x.value = y.value) (Along φ text z z') := by
  refine takeUntil_rounds (motive := fun c o => ∀ ⦃d⦄, Paired (Along φ text z z') c d →
    Outcome.FollowedBy (List.Forall₂ fun x y => x.value = y.value) (Along φ text z z') o
      (takeUntil (exactly (a :: s)) d)) ?_ ?_ ?_ ?_
  · intro c b c₁ hrun d hcd
    have hstop := follows_exactly h hs hcd.fork
    rw [hrun] at hstop
    obtain ⟨_, d₁, hrun', -⟩ := hstop
    rw [takeUntil_of_ok hrun']
    exact ⟨[], d, rfl, .nil, hcd⟩
  · exact fun c f c₁ _ hf d _ => followedBy_of_fatal hf
  · exact fun c f c₁ _ _ _ d _ => followedBy_of_fatal rfl
  · intro c f c₁ item rest hrun hf hc ih d hcd
    obtain ⟨pre, t, htext, hbeside⟩ := hcd.related.of_fork
    cases t with
    | nil =>
      -- no quote is left in the first text, so its run fails for good
      obtain ⟨g, c', hrun', hg⟩ := takeUntil_blank (s := s) (hs a List.mem_cons_self) h.blank
        hbeside.left
      rw [takeUntil_of_cons hrun hf hc] at hrun'
      rw [hrun']
      exact followedBy_of_fatal hg
    | cons b t =>
      obtain ⟨item', rest', item₁, rest₁, hc', hd, rfl, hitem₁, hpass⟩ := hbeside.pass h htext
      rw [hc] at hc'
      cases hc'
      have hstop := follows_exactly h hs hcd.fork
      rw [hrun] at hstop
      obtain ⟨g, d₁, hrun', hg⟩ := hstop hf
      rw [takeUntil_of_cons hrun' hg hd]
      exact Outcome.FollowedBy.prepend
        (ih (hpass.mono fun _ _ hc => ⟨_, _, by simpa using htext, hc⟩)) hitem₁.symm

lemma follows_readRawName (h : Prolongs φ text z z') :
    Follows (Along φ text z z') readRawName readRawName (Meet φ id) (Along φ text z z') := by
  refine follows_bind (follows_matching h gapless_rawOpeningPattern) fun o o' ho => ?_
  subst ho
  have hclosing : ∀ c ∈ '"' :: List.replicate (o.length - 2) '#', isBlank c = false := by
    intro c hc
    rcases List.mem_cons.mp hc with rfl | hc
    · decide
    · rw [List.eq_of_mem_replicate hc]
      decide
  refine follows_bind (follows_takeUntil h hclosing) fun xs ys hxys => ?_
  refine follows_bind (follows_exactly h hclosing) fun _ _ _ => ?_
  rw [forall₂_iff_map_eq.mp hxys]
  exact follows_pure (.leaf fun _ _ ht => by cases ht) fun _ _ => id

lemma exactly_of_eq {a : Char} {item : Located Char} {rest : List (Located Char)}
    (hrest : c.rest = item :: rest) (h : item.value = a) :
    exactly [a] c = .ok [a] (c.pass item rest) := by
  rw [exactly, literal, literal.go, hrest]
  simp [h, literal.go]

lemma recoverable_exactly_of_ne {a : Char} {item : Located Char} {rest : List (Located Char)}
    (hrest : c.rest = item :: rest) (h : item.value ≠ a) : Recoverable (exactly [a] c) := by
  rw [exactly, literal, literal.go, hrest]
  simp only [beq_iff_eq, h, if_false]
  exact recoverable_error rfl

/-- A character without a backslash stands for itself. -/
lemma readTextChar_plain {item : Located Char} {rest : List (Located Char)} (hc : c.Calm)
    (hrest : c.rest = item :: rest) (hquote : item.value ≠ '"') (hescape : item.value ≠ '\\') :
    ∃ c', readTextChar c = .ok item.value c' ∧ c'.fork = (c.pass item rest).fork ∧ c'.Calm := by
  obtain ⟨f, c₁, hfirst, hf⟩ := recoverable_exactly_of_ne (c := c.fork) hrest hescape
  have hsecond : Parsing.satisfying "a string character" (fun c => c != '"' && c != '\\')
      (c.record f).fork = .ok item ((c.record f).fork.pass item rest) := by
    rw [Parsing.satisfying, show (c.record f).fork.rest = item :: rest from hrest]
    simp [hquote, hescape]
  refine ⟨(c.record f).adopt ((c.record f).fork.pass item rest), ?_, ?_, ?_⟩
  · rw [readTextChar, choice, bind_of_ok (optional_of_error (bind_of_error hfirst) hf)]
    dsimp only
    rw [choice, bind_of_ok (optional_of_ok (a := item.value) ?_)]
    · rfl
    · rw [map_eq_pure_bind, bind_of_ok hsecond]
      rfl
  · rw [fork_adopt]
    rfl
  · exact (hc.record hf).adopt fun _ hg => by cases hg

/-- After a backslash any character stands for itself. -/
lemma readTextChar_escaped {item item' : Located Char} {rest : List (Located Char)} (hc : c.Calm)
    (hrest : c.rest = item :: item' :: rest) (hescape : item.value = '\\') :
    ∃ c', readTextChar c = .ok item'.value c' ∧
      c'.fork = ((c.pass item (item' :: rest)).pass item' rest).fork ∧ c'.Calm := by
  have hfirst := exactly_of_eq (c := c.fork) hrest hescape
  have hnext : next (c.fork.pass item (item' :: rest)) =
      .ok item' ((c.fork.pass item (item' :: rest)).pass item' rest) := rfl
  refine ⟨c.adopt ((c.fork.pass item (item' :: rest)).pass item' rest), ?_, ?_, ?_⟩
  · rw [readTextChar, choice, bind_of_ok (optional_of_ok (a := item'.value) ?_)]
    · rfl
    · rw [bind_of_ok hfirst, bind_of_ok hnext]
      rfl
  · rw [fork_adopt]
    rfl
  · exact hc.adopt fun _ hg => by cases hg

/-- A character of a text in quotes is read alike if it ends in front of `z`. -/
lemma Beside.readTextChar (h : Prolongs φ text z z') {a : Char} (htext : text = pre ++ (cs ++ t))
    (hcd : Paired (Beside φ z z' pre (cs ++ t)) c d)
    (hcs : cs = [a] ∧ a ≠ '"' ∧ a ≠ '\\' ∨ cs = ['\\', a]) :
    ∃ c' d', readTextChar c = .ok a c' ∧ readTextChar d = .ok a d' ∧
      Paired (Beside φ z z' (pre ++ cs) t) c' d' := by
  rcases hcs with ⟨rfl, hquote, hescape⟩ | rfl
  · obtain ⟨item, rest, item', rest', hc, hd, rfl, hitem', hpass⟩ :=
      hcd.related.of_fork.pass h htext
    obtain ⟨c', hrun, hfork, hc'⟩ := readTextChar_plain hcd.calm hc hquote hescape
    obtain ⟨d', hrun', hfork', hd'⟩ := readTextChar_plain hcd.calm' hd (by rwa [hitem'])
      (by rwa [hitem'])
    rw [hitem'] at hrun'
    exact ⟨c', d', hrun, hrun', by rw [hfork, hfork']; exact hpass.related, hc', hd'⟩
  · obtain ⟨item, rest, item', rest', hc, hd, hitem, hitem', hpass⟩ :=
      hcd.related.of_fork.pass h htext
    -- the character behind the backslash is passed, too
    obtain ⟨item₂, rest₂, item₂', rest₂', hc₂, hd₂, rfl, hitem₂', hpass₂⟩ :=
      hpass.related.of_fork.pass h (show text = (pre ++ ['\\']) ++ a :: t by simpa using htext)
    have hrest : c.rest = item :: item₂ :: rest₂ := by rw [hc, ← hc₂]; rfl
    have hrest' : d.rest = item' :: item₂' :: rest₂' := by rw [hd, ← hd₂]; rfl
    obtain ⟨c', hrun, hfork, hc'⟩ := readTextChar_escaped hcd.calm hrest hitem
    obtain ⟨d', hrun', hfork', hd'⟩ := readTextChar_escaped hcd.calm' hrest' hitem'
    rw [hitem₂'] at hrun'
    refine ⟨c', d', hrun, hrun', ?_, hc', hd'⟩
    rw [hfork, hfork']
    have hlast := hpass₂.related
    rw [List.append_assoc] at hlast
    have hcrest : rest = item₂ :: rest₂ := hc₂
    have hdrest : rest' = item₂' :: rest₂' := hd₂
    rw [hcrest, hdrest] at hlast
    exact hlast

lemma Prolongs.quote_notMem (h : Prolongs φ text z z') : '"' ∉ z := by
  intro hmem
  have hblank := h.blank _ hmem
  revert hblank
  decide

/-- What is read in front of a quote is read in front of `z`. -/
lemma Prolongs.exists_of_quote (h : Prolongs φ text z z') {cs ds : List Char}
    (hsplit : t ++ z = cs ++ ds) (hquote : '"' ∈ ds) : ∃ u, t = cs ++ u ∧ ds = u ++ z := by
  rcases List.append_eq_append_iff.mp hsplit with ⟨u, rfl, hz⟩ | ⟨u, rfl, hds⟩
  · refine absurd ?_ h.quote_notMem
    rw [hz]
    exact List.mem_append_right _ hquote
  · exact ⟨u, rfl, hds⟩

/-- A quote that is next in the first run is next in the second, where no character is read. -/
lemma Beside.recoverable_readTextChar (h : Prolongs φ text z z') (hcd : Beside φ z z' pre t c d)
    (hclosed : c.next? = some '"') : Recoverable (Token.readTextChar d.fork) := by
  rw [hcd.left.next?_eq] at hclosed
  cases t with
  | nil => exact absurd (List.mem_of_mem_head? hclosed) h.quote_notMem
  | cons a t =>
    cases hclosed
    exact rejects_readTextChar ⟨⟨hcd.right.upcoming_eq, rfl⟩, calm_fork d⟩

/-- The characters of a text in quotes that is closed in the first run. -/
lemma many_readTextChar_of_closed (h : Prolongs φ text z z') {c' : Cursor Char} {as : List Char}
    (hcd : Paired (Along φ text z z') c d) (hrun : many readTextChar c = .ok as c')
    (hclosed : c'.next? = some '"') :
    ∃ d', many readTextChar d = .ok as d' ∧ Paired (Along φ text z z') c' d' := by
  induction hrun using many_induction generalizing d with
  | stop c f c₁ _ hchar hf =>
    obtain ⟨pre, t, -, hbeside⟩ := hcd.related.of_fork
    obtain ⟨g, d₁, hchar', hg⟩ := hbeside.recoverable_readTextChar h hclosed
    exact ⟨d.record g, many_of_error hchar' hg, hcd.record hf hg⟩
  | idle c a c₁ _ hchar hle =>
    obtain ⟨pre, t, -, hbeside⟩ := hcd.related.of_fork
    obtain ⟨cs, ds, hsplit, hst₁, hcs⟩ := reads_readTextChar hbeside.left.fork hchar
    have hpos : 0 < cs.length := by rcases hcs with ⟨rfl, -⟩ | rfl <;> simp
    refine absurd ?_ hle
    rw [hst₁.length_rest, hbeside.left.length_rest, hsplit, List.length_append]
    omega
  | more c a c₁ as c' hmore _ hchar hlt ih =>
    obtain ⟨pre, t, htext, hbeside⟩ := hcd.related.of_fork
    obtain ⟨cs, ds, hsplit, hst₁, hcs⟩ := reads_readTextChar hbeside.left.fork hchar
    -- the closing quote is still to come, so the character is in front of `z`
    obtain ⟨t, rfl, rfl⟩ : ∃ u, t = cs ++ u ∧ ds = u ++ z := by
      obtain ⟨es, fs, rfl, hst', -⟩ := reads_many reads_readTextChar (hst₁.adopt c) hmore
      rw [hst'.next?_eq] at hclosed
      exact h.exists_of_quote hsplit
        (List.mem_append_right _ (List.mem_of_mem_head? hclosed))
    obtain ⟨c₂, d₁, hchar₂, hchar', hcd₁⟩ := Beside.readTextChar h htext (c := c.fork)
      (d := d.fork) ⟨⟨hbeside.left.fork, hbeside.right.fork, hbeside.operand⟩, calm_fork c,
        calm_fork d⟩ hcs
    rw [hchar] at hchar₂
    cases hchar₂
    have hlt' : d₁.rest.length < d.rest.length := by
      have hpos : 0 < cs.length := by rcases hcs with ⟨rfl, -⟩ | rfl <;> simp
      have hlen : d₁.rest.length = (t ++ z').length := hcd₁.related.right.length_rest
      rw [hlen, hbeside.right.length_rest]
      simp only [List.length_append]
      omega
    have hnext : Paired (Along φ text z z') (c.adopt c₁) (d.adopt d₁) :=
      (hcd₁.mono fun _ _ hc => ⟨_, _, by rw [htext, List.append_assoc], hc⟩).adopt hcd
    obtain ⟨d', hmore', hcd'⟩ := ih hnext hclosed
    refine ⟨d', ?_, hcd'⟩
    rw [many_of_ok hchar' hlt', hmore']
    rfl

/-- A text in quotes that is read in the first run is read in the second. -/
lemma readText_of_ok (h : Prolongs φ text z z') {c' : Cursor Char} {a : Token}
    (hcd : Paired (Along φ text z z') c d) (hrun : readText c = .ok a c') :
    ∃ b d', readText d = .ok b d' ∧ Meet φ id a b ∧ Paired (Along φ text z z') c' d' := by
  have hquote : ∀ c ∈ ['"'], isBlank c = false := List.forall_mem_singleton.mpr (by decide)
  rw [readText, delimited] at hrun
  obtain ⟨as, c₃, hdelimited, hpure⟩ := bind_inv hrun
  obtain ⟨rfl, rfl⟩ := pure_inv hpure
  obtain ⟨_, c₁, hopening, hdelimited⟩ := bind_inv hdelimited
  obtain ⟨as', c₂, hmany, hdelimited⟩ := bind_inv hdelimited
  obtain ⟨_, c₃, hclosing, hpure⟩ := bind_inv hdelimited
  obtain ⟨rfl, rfl⟩ := pure_inv hpure
  have hopening' := follows_exactly h hquote hcd
  rw [hopening] at hopening'
  obtain ⟨_, d₁, hopening', -, hcd₁⟩ := hopening'
  -- the characters end in front of the quote that was found behind them
  have hclosed : c₂.next? = some '"' := by
    cases hrest : c₂.rest with
    | nil =>
      rw [exactly, literal, literal.go, hrest] at hclosing
      cases hclosing
    | cons item rest =>
      by_cases hitem : item.value = '"'
      · rw [Cursor.next?, hrest, ← hitem]
        rfl
      · obtain ⟨f, c', hfail, -⟩ := recoverable_exactly_of_ne hrest hitem
        rw [hclosing] at hfail
        cases hfail
  obtain ⟨d₂, hmany', hcd₂⟩ := many_readTextChar_of_closed h hcd₁ hmany hclosed
  have hclosing' := follows_exactly h hquote hcd₂
  rw [hclosing] at hclosing'
  obtain ⟨_, d₃, hclosing', -, hcd₃⟩ := hclosing'
  refine ⟨_, d₃, ?_, .leaf (fun _ _ ht => by cases ht), hcd₃⟩
  have hdelimited' : delimited (exactly ['"']) (exactly ['"']) (many readTextChar) d = .ok as d₃ := by
    rw [delimited, bind_of_ok hopening', bind_of_ok hmany', bind_of_ok hclosing']
    rfl
  rw [readText, bind_of_ok hdelimited']
  rfl

end Formulary.Token
