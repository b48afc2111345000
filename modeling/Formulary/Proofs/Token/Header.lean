/-
# Where blocks begin

An indented block is opened by the white space in front of its first line.  That has to contain a
line feed, something has to come after it, and its last line has to be indented deeper than the
block around it.  Then the contents are read right after the white space, and otherwise nothing is
read at all.
-/
import Formulary.Proofs.Parsing.Following
import Formulary.Proofs.Token.Lossless
import Formulary.Proofs.Token.Row

namespace Formulary.Token

open Text Word Parsing

variable {α : Type} {c : Cursor Char} {cs ds : List Char} {p q : Option Char} {x : Position}

/-! ## The last line of white space -/

lemma lastLine_of_not_mem (h : '\n' ∉ cs) : lastLine cs = cs := by
  have hall : ∀ c ∈ cs.reverse, (c != '\n') = true := by
    intro c hc
    rw [bne_iff_ne]
    rintro rfl
    exact h (List.mem_reverse.mp hc)
  have htake : (cs.reverse ++ []).takeWhile (· != '\n') = _ := List.takeWhile_append_of_pos hall
  rw [List.takeWhile_nil, List.append_nil] at htake
  rw [lastLine, htake, List.reverse_reverse]

/-- What is in front of a line feed does not belong to the last line. -/
lemma lastLine_append (cs ds : List Char) : lastLine (cs ++ '\n' :: ds) = lastLine ds := by
  rw [lastLine, lastLine, List.reverse_append, List.reverse_cons, List.append_assoc]
  congr 1
  induction ds.reverse with
  | nil => simp
  | cons d ds ih =>
    cases hd : d != '\n' with
    | true => simpa [hd] using ih
    | false => simp [hd]

/-! ## The white space in front of a line -/

/-- In front of a line its indentation is passed, with all lines that are empty. -/
lemma accepts_readReference_blank (hcs : ∀ c ∈ cs, isBlank c = true) (hne : ds ≠ [])
    (hds : ∀ d ∈ ds.head?, isBlank d = false) :
    Accepts (Around p (cs ++ ds)) readReference fun k r i =>
      k = indentation (lastLine cs) ∧ Around (lastOf p cs) ds r i := by
  refine accepts_get fun c hc => ?_
  by_cases hnil : cs = []
  · subst hnil
    have hmatch : blankPattern.match? c = none := by
      rw [Pattern.match?, hc.upcoming, List.nil_append, blankPattern, length?_oneOrMore_eq_none hds]
      rfl
    have hend : c.atEnd = false := by
      rw [← Bool.not_eq_true, hc.atEnd_iff]
      exact hne
    rw [hmatch]
    dsimp only
    rw [if_neg (by rw [hend]; exact Bool.false_ne_true)]
    exact accepts_pure fun r i hr => ⟨rfl, hr⟩
  · have hmatch : blankPattern.match? c = some cs := by
      rw [Pattern.match?, hc.upcoming, blankPattern, length?_oneOrMore hcs hnil hds,
        Option.map_some, List.take_left]
    -- something follows the white space, otherwise it would not be passed
    have hless : cs.length < c.rest.length := by
      rw [hc.length_rest, List.length_append]
      exact Nat.lt_add_of_pos_right (List.length_pos_iff.mpr hne)
    rw [hmatch]
    dsimp only
    rw [if_pos hless]
    exact accepts_bind (accepts_takeItems p cs ds) fun as =>
      accepts_pure fun r i hr => ⟨rfl, hr.2⟩

/-- In front of nothing but white space there is no line. -/
lemma rejects_readReference (hcs : ∀ c ∈ cs, isBlank c = true) :
    Rejects (Around p cs) readReference := by
  refine rejects_get fun c hc => ?_
  by_cases hnil : cs = []
  · subst hnil
    have hmatch : blankPattern.match? c = none := by
      rw [Pattern.match?, hc.upcoming]
      rfl
    have hend : c.atEnd = true := hc.atEnd_iff.mpr rfl
    rw [hmatch]
    dsimp only
    rw [if_pos hend]
    exact rejects_throw rfl
  · have hmatch : blankPattern.match? c = some cs := by
      have hlen : blankPattern.length? (cs ++ []) = some cs.length :=
        length?_oneOrMore hcs hnil (by rintro d ⟨⟩)
      rw [List.append_nil] at hlen
      rw [Pattern.match?, hc.upcoming, hlen, Option.map_some, List.take_length]
    have hless : ¬cs.length < c.rest.length := by
      rw [hc.length_rest]
      exact Nat.lt_irrefl _
    rw [hmatch]
    dsimp only
    rw [if_neg hless]
    exact rejects_failHere _

/-! ## Blocks -/

lemma accepts_optional_space (hcs : ∀ c ∈ cs, isBlank c = true ∧ c ≠ '\n')
    (hds : ∀ d ∈ ds.head?, isBlank d = false ∨ d = '\n') :
    Accepts (Around p (cs ++ ds)) (Parsing.optional (matching spacePattern)) fun _ r i =>
      True ∧ Around (lastOf p cs) ds r i := by
  have hclass : ∀ d ∈ ds.head?, (isBlank d && d != '\n') = false := fun d hd => by
    rcases hds d hd with h | rfl
    · simp [h]
    · simp
  by_cases hne : cs = []
  · subst hne
    refine (accepts_optional_none (rejects_matching ?_)).mono fun _ _ _ hr => ⟨trivial, hr.2⟩
    exact length?_oneOrMore_eq_none hclass
  · refine (accepts_optional_some (accepts_matching (length?_oneOrMore (fun c hc => ?_) hne hclass)
      hne)).mono fun _ _ _ hr => ?_
    · simp [(hcs c hc).1, (hcs c hc).2]
    · obtain ⟨a, -, hr⟩ := hr
      exact ⟨trivial, hr.2⟩

lemma reads_readReference : Reads readReference fun _ _ _ => True := by
  intro c x text n c' hst hrun
  replace hrun := get_inv hrun
  cases hmatch : blankPattern.match? c with
  | some blank =>
    rw [hmatch] at hrun
    dsimp only at hrun
    split at hrun
    · obtain ⟨_, c₁, htake, hpure⟩ := bind_inv hrun
      obtain ⟨-, rfl⟩ := pure_inv hpure
      obtain ⟨cs, ds, rfl, hst', -⟩ := reads_takeItems _ hst htake
      exact ⟨cs, ds, rfl, hst', trivial⟩
    · cases hrun
  | none =>
    rw [hmatch] at hrun
    dsimp only at hrun
    split at hrun
    · cases hrun
    · obtain ⟨-, rfl⟩ := pure_inv hrun
      exact ⟨[], text, rfl, hst, trivial⟩

/-- White space that opens a block inside of one that is indented by `enclosing`, in front of
`ds`. -/
structure Leads (enclosing : Nat) (blank ds : List Char) : Prop where
  blanks : ∀ c ∈ blank, isBlank c = true
  line : '\n' ∈ blank
  more : ds ≠ []
  first : ∀ d ∈ ds.head?, isBlank d = false
  deeper : enclosing < indentation (lastLine blank)

/-- White space with a line feed, as what is in front of the first line feed and what follows. -/
lemma exists_of_lineFeed (hcs : ∀ c ∈ cs, isBlank c = true) (hline : '\n' ∈ cs) :
    ∃ s b, cs = s ++ '\n' :: b ∧ (∀ c ∈ s, isBlank c = true ∧ c ≠ '\n') ∧
      ∀ c ∈ b, isBlank c = true := by
  obtain ⟨s, b, rfl, hs⟩ := List.eq_append_cons_of_mem hline
  refine ⟨s, b, rfl, fun c hc => ⟨hcs c (by simp [hc]), ?_⟩, fun c hc => hcs c (by simp [hc])⟩
  rintro rfl
  exact hs hc

lemma endsOperand_of_isBlank {c : Char} (h : isBlank c = true) : endsOperand c = false := by
  have hclass := class_of_blank h
  have hmem : [')', ']', '\x7d', '"'].contains c = false := by
    rw [List.contains_eq_mem, decide_eq_false_iff_not]
    intro hc
    refine hclass.2.2.2 ?_
    simp only [List.mem_cons, List.not_mem_nil, or_false] at hc ⊢
    tauto
  rw [endsOperand, hclass.1, hmem]
  rfl

lemma any_lastOf_blank (hp : p.any endsOperand = false) (hcs : ∀ c ∈ cs, isBlank c = true) :
    (lastOf p cs).any endsOperand = false := by
  induction cs generalizing p with
  | nil => exact hp
  | cons c cs ih =>
    exact ih (endsOperand_of_isBlank (hcs c List.mem_cons_self))
      fun d hd => hcs d (List.mem_cons_of_mem _ hd)

variable (contents : Option Nat → Parser Char (List (Located Token))) {enclosing : Nat}

/-- The white space up to the first line feed is passed. -/
lemma exists_lineFeed (enclosing : Nat) {s : List Char} (hs : ∀ c ∈ s, isBlank c = true ∧ c ≠ '\n')
    (hst : Stands c x (s ++ '\n' :: ds)) (hc : c.Calm) :
    ∃ c', c'.Calm ∧ Stands c' (x.after (s ++ ['\n'])) ds ∧
      c'.previous.map Located.value = some '\n' ∧
      readBlock contents enclosing c = (readReference >>= fun reference =>
        if reference ≤ enclosing then failHere "expected an indented block"
        else contents (some reference) >>= fun tokens =>
          get >>= fun e => pure ⟨.group .indented tokens, x, e.position⟩) c' := by
  have hspace : Accepts (Around (c.previous.map Located.value) (s ++ '\n' :: ds))
      (Parsing.optional (matching spacePattern)) _ :=
    accepts_optional_space hs (by rintro d ⟨⟩; exact .inr rfl)
  obtain ⟨_, c₁, hrun₁, -, hst₁, hp₁, hc₁⟩ :=
    exists_of_accepts hspace (reads_optional reads_space) hst rfl hc
  have hfeed : Accepts (Around (lastOf (c.previous.map Located.value) s) (['\n'] ++ ds))
      (exactly ['\n']) fun _ r i => True ∧ Around (some '\n') ds r i :=
    (accepts_exactly _ ['\n'] ds).mono fun _ _ _ hr => ⟨trivial, hr⟩
  obtain ⟨_, c₂, hrun₂, -, hst₂, hp₂, hc₂⟩ :=
    exists_of_accepts hfeed (reads_exactly _) hst₁ hp₁ hc₁
  refine ⟨c₂, hc₂, by rwa [Position.after_append], hp₂, ?_⟩
  show (Parsing.optional (matching spacePattern) >>= fun _ => _) c = _
  rw [bind_of_ok hrun₁]
  show (exactly ['\n'] >>= fun _ => _) c₁ = _
  rw [bind_of_ok hrun₂, hst.position_eq]

/-- Behind white space that opens a block the contents are read. -/
lemma exists_readBlock (h : Leads enclosing cs ds) (hst : Stands c x (cs ++ ds)) (hc : c.Calm) :
    ∃ c', c'.Calm ∧ Stands c' (x.after cs) ds ∧
      c'.previous.map Located.value = lastOf (c.previous.map Located.value) cs ∧
      c'.previous.any (endsOperand ·.value) = false ∧
      readBlock contents enclosing c = (contents (some (indentation (lastLine cs))) >>= fun tokens =>
        get >>= fun e => pure ⟨.group .indented tokens, x, e.position⟩) c' := by
  obtain ⟨hcs, hline, hne, hds, hdeep⟩ := h
  obtain ⟨s, b, rfl, hs, hb⟩ := exists_of_lineFeed hcs hline
  rw [List.append_assoc, List.cons_append] at hst
  rw [lastLine_append] at hdeep ⊢
  obtain ⟨c₁, hc₁, hst₁, hp₁, hrun₁⟩ := exists_lineFeed contents enclosing hs hst hc
  obtain ⟨k, c₂, hrun₂, hk, hst₂, hp₂, hc₂⟩ :=
    exists_of_accepts (accepts_readReference_blank hb hne hds) reads_readReference hst₁ hp₁ hc₁
  subst hk
  refine ⟨c₂, hc₂, ?_, by simpa using hp₂, ?_, ?_⟩
  · have hplace : x.after (s ++ '\n' :: b) = (x.after (s ++ ['\n'])).after b := by
      rw [← Position.after_append, List.append_assoc]
      rfl
    rwa [hplace]
  · have hlast := any_lastOf_blank (p := some '\n') (by decide) hb
    rw [← hp₂, Option.any_map] at hlast
    exact hlast
  · rw [hrun₁, bind_of_ok hrun₂, if_neg (Nat.not_le.mpr hdeep)]

/-- White space that opens no block is not passed. -/
lemma recoverable_readBlock (hcs : ∀ c ∈ cs, isBlank c = true)
    (hds : ∀ d ∈ ds.head?, isBlank d = false) (h : ¬Leads enclosing cs ds)
    (hst : Stands c x (cs ++ ds)) (hc : c.Calm) : Recoverable (readBlock contents enclosing c) := by
  have hshallow : '\n' ∈ cs → ds ≠ [] → indentation (lastLine cs) ≤ enclosing :=
    fun hline hmore => Nat.le_of_not_lt fun hdeep => h ⟨hcs, hline, hmore, hds, hdeep⟩
  by_cases hline : '\n' ∈ cs
  · obtain ⟨s, b, rfl, hs, hb⟩ := exists_of_lineFeed hcs hline
    rw [List.append_assoc, List.cons_append] at hst
    rw [lastLine_append] at hshallow
    obtain ⟨c₁, hc₁, hst₁, hp₁, hrun₁⟩ := exists_lineFeed contents enclosing hs hst hc
    rw [hrun₁]
    by_cases hnil : ds = []
    · subst hnil
      rw [List.append_nil] at hst₁
      obtain ⟨f, c₂, hfail, hf⟩ := rejects_readReference hb
        ⟨⟨hst₁.upcoming_eq, hp₁⟩, hc₁⟩
      rw [bind_of_error hfail]
      exact recoverable_error hf
    · obtain ⟨k, c₂, hrun₂, hk, -⟩ :=
        exists_of_accepts (accepts_readReference_blank hb hnil hds) reads_readReference hst₁ hp₁ hc₁
      subst hk
      rw [bind_of_ok hrun₂, if_pos (hshallow hline hnil)]
      exact recoverable_error rfl
  · -- after the white space there is no line feed
    have hspace : Accepts (Around (c.previous.map Located.value) (cs ++ ds))
        (Parsing.optional (matching spacePattern)) _ :=
      accepts_optional_space (fun d hd => ⟨hcs d hd, fun heq => hline (heq ▸ hd)⟩)
        fun d hd => .inl (hds d hd)
    obtain ⟨_, c₁, hrun₁, -, hst₁, hp₁, hc₁⟩ :=
      exists_of_accepts hspace (reads_optional reads_space) hst rfl hc
    have hfeed : ds.head? ≠ some '\n' := fun hd => by
      have hblank := hds _ hd
      revert hblank
      decide
    obtain ⟨f, c₂, hfail, hf⟩ : Recoverable (exactly ['\n'] c₁) :=
      rejects_exactly (not_prefix_of_head hfeed) ⟨⟨hst₁.upcoming_eq, hp₁⟩, hc₁⟩
    refine ⟨f, c₂, ?_, hf⟩
    show (Parsing.optional (matching spacePattern) >>= fun _ => _) c = _
    rw [bind_of_ok hrun₁]
    exact bind_of_error hfail

/-- What a block is read from: white space that opens it, and its row. -/
lemma readBlock_inv {contents : Option Nat → Parser Char (List (Located Token))} {enclosing : Nat}
    {text : List Char} {t : Located Token} {c' : Cursor Char} (hst : Stands c x text) (hc : c.Calm)
    (hrun : readBlock contents enclosing c = .ok t c') :
    ∃ blank ds ts c₁, text = blank ++ ds ∧ Leads enclosing blank ds ∧ Stands c₁ (x.after blank) ds ∧
      c₁.previous.map Located.value = lastOf (c.previous.map Located.value) blank ∧
      contents (some (indentation (lastLine blank))) c₁ = .ok ts c' ∧
      t = ⟨.group .indented ts, x, c'.position⟩ := by
  obtain ⟨blank, ds, rfl, hblank, hfirst⟩ := exists_run isBlank text
  by_cases hleads : Leads enclosing blank ds
  · obtain ⟨c₁, -, hst₁, hprevious, -, hblock⟩ := exists_readBlock contents hleads hst hc
    rw [hblock] at hrun
    obtain ⟨ts, c₂, hts, hrun⟩ := bind_inv hrun
    replace hrun := get_inv hrun
    obtain ⟨rfl, rfl⟩ := pure_inv hrun
    exact ⟨blank, ds, ts, c₁, rfl, hleads, hst₁, hprevious, hts, rfl⟩
  · obtain ⟨f, c₁, hfail, -⟩ := recoverable_readBlock contents hblank hfirst hleads hst hc
    rw [hfail] at hrun
    cases hrun

end Formulary.Token
