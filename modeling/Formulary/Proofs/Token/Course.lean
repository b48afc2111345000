/-
# The course of a row

How the tokens of a row lie in their text, told by the recursion that read them.  A token that is
no group fits where it stands, a group holds a row between its delimiters, and a block holds a row
behind white space that opens it.  A block ends where it has to, or where no token could be read;
then nothing of the row around it is left either, so that it is followed by what follows that row.

The tokens of every text run such a course, up to the end of the text.  What is said of single
tokens, at any depth, follows from it: every token of a row has its seat in the course of the row,
behind which the course goes on, and the seat of a group or of a block holds the course of the row
in it.
-/
import Formulary.Proofs.Token.Fitting
import Formulary.Proofs.Token.Header

namespace Formulary.Token

open Text Word Parsing

/-- The tokens are read as a row from `cs`, at position `p`, behind the character `q` and in front
of `ds`; the row belongs to a block that is indented by `E`, if it belongs to one. -/
inductive Course :
    Option Nat → Option Char → Position → List (Located Token) → List Char → List Char → Prop
  | nil {E : Option Nat} {q : Option Char} {p : Position} {ds : List Char} : Course E q p [] [] ds
  | token {E : Option Nat} {q : Option Char} {p : Position} {t : Token}
      {ts : List (Located Token)} {cs es ds : List Char}
      (hgoes : E.any (blockEnds · (cs ++ (es ++ ds))) = false) (head : Fits q t cs (es ++ ds))
      (tail : Course E (lastOf q cs) (p.after cs) ts es ds) :
      Course E q p (⟨t, p, p.after cs⟩ :: ts) (cs ++ es) ds
  | group {E : Option Nat} {q : Option Char} {p : Position} {kind : GroupKind} {a b : Char}
      {us ts : List (Located Token)} {cs es ds : List Char}
      (hkind : kind.delimiters = some (a, b))
      (inside : Course none (some a) (p.advance a) us cs (b :: (es ++ ds)))
      (tail : Course E (some b) (p.after (a :: cs ++ [b])) ts es ds) :
      Course E q p (⟨.group kind us, p, p.after (a :: cs ++ [b])⟩ :: ts) (a :: cs ++ [b] ++ es) ds
  | block {E : Option Nat} {q : Option Char} {p : Position} {w : Token}
      {us ts : List (Located Token)} {word blank cs es ds : List Char}
      (hgoes : E.any (blockEnds · (word ++ (blank ++ cs ++ (es ++ ds)))) = false)
      (head : Fits q w word (blank ++ cs ++ (es ++ ds))) (hopens : w.opensBlock = true)
      (hleads : Leads (E.getD 0) blank (cs ++ (es ++ ds)))
      (inside : Course (some (indentation (lastLine blank))) (lastOf q (word ++ blank))
        (p.after (word ++ blank)) us cs (es ++ ds))
      (hends : blockEnds (indentation (lastLine blank)) (es ++ ds) = true ∨ es = [])
      (tail : Course E (lastOf q (word ++ blank ++ cs)) (p.after (word ++ blank ++ cs)) ts es ds) :
      Course E q p (⟨w, p, p.after word⟩ ::
        ⟨.group .indented us, p.after word, p.after (word ++ blank ++ cs)⟩ ::
        ⟨.lineBreak, Span.point (p.after (word ++ blank ++ cs))⟩ :: ts)
        (word ++ blank ++ cs ++ es) ds

variable {c c' c₁ : Cursor Char} {E : Option Nat} {p : Position} {q : Option Char}
  {text cs ds : List Char}

/-! ## Steps -/

/-- No token can be read. -/
def Stalled (c : Cursor Char) : Prop := Recoverable (readToken readTokens c.fork)

/-- What a step of a row does, and where it leads to. -/
inductive Steps (E : Option Nat) (c : Cursor Char) :
    Option (List (Located Token) × Bool) → Cursor Char → Prop
  | ends (hends : E.any (blockEnds · c.upcoming) = true) : Steps E c none c
  | stalls {c' : Cursor Char} (h : Stalled c) (hfork : c'.fork = c.fork) : Steps E c none c'
  | token {t : Located Token} {c₁ c' : Cursor Char}
      (hgoes : E.any (blockEnds · c.upcoming) = false) (h : readToken readTokens c.fork = .ok t c₁)
      (hfork : c'.fork = c₁.fork) : Steps E c (some ([t], true)) c'
  | block {w b : Located Token} {c₁ c₂ c' : Cursor Char}
      (hgoes : E.any (blockEnds · c.upcoming) = false) (h : readToken readTokens c.fork = .ok w c₁)
      (hopens : w.value.opensBlock = true)
      (hblock : readBlock readTokens (E.getD 0) c₁.fork = .ok b c₂) (hfork : c'.fork = c₂.fork) :
      Steps E c (some ([w, b, ⟨lineBreak, Span.point b.span.stop⟩], true)) c'

lemma steps_of_readStep {o : Option (List (Located Token) × Bool)}
    (h : readStep readTokens E c = .ok o c') : Steps E c o c' := by
  cases rowStep_of_readStep h with
  | ends hends => exact .ends hends
  | stalls hgoes htoken =>
    obtain ⟨hstalled, hfork⟩ := optional_none_inv htoken
    exact .stalls hstalled hfork
  | plain hgoes htoken hplain =>
    obtain ⟨c₂, hread, hfork⟩ := optional_some_inv htoken
    exact .token hgoes hread hfork
  | blockless hgoes htoken hopens hblock =>
    obtain ⟨c₂, hread, hfork⟩ := optional_some_inv htoken
    obtain ⟨-, hfork'⟩ := optional_none_inv hblock
    exact .token hgoes hread (hfork'.trans hfork)
  | block hgoes htoken hopens hblock =>
    obtain ⟨c₂, hread, hfork⟩ := optional_some_inv htoken
    obtain ⟨c₄, hinside, hfork'⟩ := optional_some_inv hblock
    rw [hfork] at hinside
    exact .block hgoes hread hopens hinside hfork'

/-- Where no token can be read, a row is at its end. -/
lemma readSteps_of_stalled {rows : List (List (Located Token))} (h : Stalled c)
    (hrun : readSteps E c = .ok rows c') : rows = [] ∧ c'.fork = c.fork := by
  obtain ⟨f, c₁, hfail, -⟩ := h
  have hnone {row : List (Located Token)} {goOn : Bool} {c₂ : Cursor Char} :
      readStep readTokens E c ≠ .ok (some (row, goOn)) c₂ := fun hstep => by
    cases steps_of_readStep hstep with
    | token _ htoken _ =>
      rw [hfail] at htoken
      cases htoken
    | block _ htoken _ _ =>
      rw [hfail] at htoken
      cases htoken
  rcases collect_inv hrun with ⟨hstep, rfl⟩ | ⟨row, goOn, hstep, -⟩ | ⟨row, goOn, c₂, _, hstep, -⟩
  · cases steps_of_readStep hstep with
    | ends hends => exact ⟨rfl, rfl⟩
    | stalls _ hfork => exact ⟨rfl, hfork⟩
  · exact absurd hstep hnone
  · exact absurd hstep hnone

/-! ## Rows -/

/-- A row that is read from the cursor runs a course; where it ends its block has to end, or no
token can be read. -/
def Charted (E : Option Nat) (c : Cursor Char) : Prop :=
  ∀ ⦃p text rows c'⦄, Stands c p text → readSteps E c = .ok rows c' →
    ∃ cs ds, text = cs ++ ds ∧ Stands c' (p.after cs) ds ∧
      (E.any (blockEnds · ds) = true ∨ Stalled c') ∧
      Course E (c.previous.map Located.value) p rows.flatten cs ds

lemma onward_of_ok {α : Type} {m : Parser Char α} {a : α} (hm : MovesOnward m)
    (h : m c = .ok a c') : c.Onward c' := by
  have hmoves := hm c
  rwa [h] at hmoves

lemma length_lt_of_stands (hst : Stands c p (cs ++ ds)) (hst' : Stands c' (p.after cs) ds)
    (hne : cs ≠ []) : c'.rest.length < c.rest.length := by
  rw [hst.length_rest, hst'.length_rest, List.length_append]
  exact Nat.lt_add_of_pos_left (List.length_pos_iff.mpr hne)

/-- A group holds a row between its delimiters. -/
lemma course_of_readGroup {t : Token}
    (ih : ∀ {E : Option Nat} {d : Cursor Char}, d.rest.length < c.rest.length → Charted E d)
    (hst : Stands c p text) (hrun : readGroup readTokens c = .ok t c') :
    ∃ kind a b us cs ds, text = a :: cs ++ [b] ++ ds ∧ Stands c' (p.after (a :: cs ++ [b])) ds ∧
      t = .group kind us ∧ kind.delimiters = some (a, b) ∧
      Course none (some a) (p.advance a) us cs (b :: ds) := by
  obtain ⟨kind, a, b, us, as, bs, c₁, c₂, hkind, hopening, htokens, hclosing, rfl⟩ :=
    readGroup_inv hrun
  obtain ⟨_, es, rfl, hst₁, rfl⟩ := reads_exactly _ hst hopening
  have hprevious := previous_of_onward hst hst₁ (onward_of_ok (movesOnward_exactly _) hopening)
  obtain ⟨rows, hrows, rfl⟩ := readTokens_inv htokens
  obtain ⟨cs, fs, rfl, hst₂, -, hcourse⟩ :=
    ih (length_lt_of_stands hst hst₁ (by simp)) hst₁ hrows
  obtain ⟨_, ds, rfl, hst₃, rfl⟩ := reads_exactly _ hst₂ hclosing
  rw [hprevious] at hcourse
  refine ⟨kind, a, b, rows.flatten, cs, ds, by simp, ?_, rfl, hkind, hcourse⟩
  have hplace : p.after (a :: cs ++ [b]) = ((p.after [a]).after cs).after [b] := by
    simp only [← Position.after_append, List.cons_append, List.nil_append]
  rwa [hplace]

/-- What is passed from `c` to `c'` is the front part of a course with the tokens `row`, whatever the
rest of it is.  Where no token can be read the rest is empty. -/
def Front (E : Option Nat) (c c' : Cursor Char) (p : Position) (text : List Char)
    (row : List (Located Token)) : Prop :=
  ∃ cs ds, text = cs ++ ds ∧ cs ≠ [] ∧ Stands c' (p.after cs) ds ∧
    ∀ {ts es fs}, ds = es ++ fs → (Stalled c' → es = []) →
      Course E (c'.previous.map Located.value) (p.after cs) ts es fs →
      Course E (c.previous.map Located.value) p (row ++ ts) (cs ++ es) fs

lemma front_of_token {t : Located Token}
    (ih : ∀ {E : Option Nat} {d : Cursor Char}, d.rest.length < c.rest.length → Charted E d)
    (hst : Stands c p text) (hgoes : E.any (blockEnds · text) = false)
    (htoken : readToken readTokens c.fork = .ok t c₁) (hfork : c'.fork = c₁.fork) :
    Front E c c' p text [t] := by
  have hmoves := movesOnward_readToken movesOnward_readTokens
  have hfront {cs ds : List Char} (hst : Stands c p (cs ++ ds)) (hst' : Stands c₁ (p.after cs) ds) :
      c'.previous.map Located.value = lastOf (c.previous.map Located.value) cs := by
    rw [previous_of_fork_eq hfork]
    exact previous_of_onward (c := c.fork) hst.fork hst' (onward_of_ok hmoves htoken)
  obtain ⟨t, span⟩ := t
  rcases fits_or_group hst.fork htoken with
    ⟨cs, ds, rfl, hst₁, rfl, hfits⟩ | ⟨d, hgroup, hd, rfl⟩
  · refine ⟨cs, ds, rfl, hfits.ne_nil, hst₁.of_fork_eq hfork, ?_⟩
    rintro ts es fs rfl - htail
    rw [hfront hst hst₁] at htail
    exact .token hgoes hfits htail
  · obtain ⟨kind, a, b, us, cs, ds, rfl, hst₁, rfl, hkind, hinside⟩ :=
      course_of_readGroup (c := c.fork) ih hst.fork hgroup
    have hst₁ := hst₁.of_fork_eq hd
    refine ⟨a :: cs ++ [b], ds, rfl, by simp, hst₁.of_fork_eq hfork, ?_⟩
    rintro ts es fs rfl - htail
    rw [hfront hst hst₁] at htail
    rw [hst₁.position_eq]
    exact .group hkind hinside (by simpa using htail)

/-- A token that opens a block is no group. -/
lemma fits_of_opensBlock {w : Token} {span : Span} (hst : Stands c p text)
    (hword : readToken readTokens c = .ok ⟨w, span⟩ c') (hopens : w.opensBlock = true) :
    ∃ cs ds, text = cs ++ ds ∧ Stands c' (p.after cs) ds ∧
      span = ⟨p, p.after cs⟩ ∧ Fits (c.previous.map Located.value) w cs ds := by
  rcases fits_or_group hst hword with hfits | ⟨d, hgroup, -, -⟩
  · exact hfits
  · obtain ⟨kind, _, _, _, _, _, _, _, -, -, -, -, rfl⟩ := readGroup_inv hgroup
    cases hopens

lemma front_of_block {w b : Located Token}
    (ih : ∀ {E : Option Nat} {d : Cursor Char}, d.rest.length < c.rest.length → Charted E d)
    (hst : Stands c p text) (hgoes : E.any (blockEnds · text) = false)
    (hword : readToken readTokens c.fork = .ok w c₁) (hopens : w.value.opensBlock = true)
    (hblock : readBlock readTokens (E.getD 0) c₁.fork = .ok b c₂) (hfork : c'.fork = c₂.fork) :
    Front E c c' p text [w, b, ⟨lineBreak, Span.point b.span.stop⟩] := by
  obtain ⟨w, span⟩ := w
  obtain ⟨word, _, rfl, hst₁, rfl, hfits⟩ := fits_of_opensBlock hst.fork hword hopens
  have hprevious₁ : c₁.previous.map Located.value = _ := previous_of_onward (c := c.fork) hst.fork
    hst₁ (onward_of_ok (movesOnward_readToken movesOnward_readTokens) hword)
  obtain ⟨blank, _, us, d, rfl, hleads, hst₂, hprevious₂, htokens, rfl⟩ :=
    readBlock_inv hst₁.fork (calm_fork c₁) hblock
  rw [← Position.after_append] at hst₂
  have hshorter : d.rest.length < c.rest.length := by
    rw [← List.append_assoc] at hst
    exact length_lt_of_stands hst hst₂ (by simp [hfits.ne_nil])
  obtain ⟨rows, hrows, rfl⟩ := readTokens_inv htokens
  obtain ⟨cs, ds, rfl, hst₃, hends, hinside⟩ := ih hshorter hst₂ hrows
  have hprevious₃ := previous_of_onward hst₂ hst₃ (onward_of_ok (movesOnward_readTokens _) htokens)
  have hlast : d.previous.map Located.value =
      lastOf (c.previous.map Located.value) (word ++ blank) := by
    rw [hprevious₂, lastOf_append]
    exact congrArg (lastOf · blank) hprevious₁
  rw [hlast] at hinside hprevious₃
  rw [← Position.after_append] at hst₃
  rw [← lastOf_append, ← previous_of_fork_eq hfork] at hprevious₃
  refine ⟨word ++ blank ++ cs, ds, by simp, by simp [hfits.ne_nil], hst₃.of_fork_eq hfork, ?_⟩
  rintro ts es fs rfl hstalled htail
  rw [hprevious₃] at htail
  rw [hst₃.position_eq]
  rw [← List.append_assoc blank] at hgoes hfits
  refine .block hgoes hfits hopens hleads hinside (hends.imp_right fun h => ?_) htail
  -- nothing more is read in this row either
  exact hstalled (by rwa [Stalled, hfork])

lemma front_of_steps {row : List (Located Token)} {goOn : Bool}
    (ih : ∀ {E : Option Nat} {d : Cursor Char}, d.rest.length < c.rest.length → Charted E d)
    (hst : Stands c p text) (h : Steps E c (some (row, goOn)) c') :
    goOn = true ∧ Front E c c' p text row := by
  cases h with
  | token hgoes htoken hfork =>
    rw [hst.upcoming_eq] at hgoes
    exact ⟨rfl, front_of_token ih hst hgoes htoken hfork⟩
  | block hgoes hword hopens hblock hfork =>
    rw [hst.upcoming_eq] at hgoes
    exact ⟨rfl, front_of_block ih hst hgoes hword hopens hblock hfork⟩

/-- Every row runs a course. -/
lemma charted (E : Option Nat) (c : Cursor Char) : Charted E c := by
  induction hk : c.rest.length using Nat.strongRecOn generalizing E c with
  | _ k ih =>
    intro p text rows c' hst hrun
    have hshorter {cs ds : List Char} {c₁ : Cursor Char} (hst : Stands c p (cs ++ ds))
        (hst₁ : Stands c₁ (p.after cs) ds) (hne : cs ≠ []) : c₁.rest.length < k :=
      hk ▸ length_lt_of_stands hst hst₁ hne
    rcases collect_inv hrun with ⟨hstep, rfl⟩ | ⟨row, goOn, hstep, -, hstays⟩ |
      ⟨row, goOn, c₁, rows, hstep, -, hmore, rfl⟩
    · refine ⟨[], text, rfl, ?_⟩
      cases steps_of_readStep hstep with
      | ends hends =>
        rw [hst.upcoming_eq] at hends
        exact ⟨hst, .inl hends, .nil⟩
      | stalls h hfork => exact ⟨hst.of_fork_eq hfork, .inr (by rwa [Stalled, hfork]), .nil⟩
    · -- a step that goes on passes something
      obtain ⟨hgoOn, cs, _, rfl, hne, hst₁, -⟩ := front_of_steps
        (fun hless => ih _ (by rwa [hk] at hless) _ _ rfl) hst (steps_of_readStep hstep)
      exact absurd ⟨hgoOn, length_lt_of_stands hst hst₁ hne⟩ hstays
    · obtain ⟨-, cs, _, rfl, hne, hst₁, hcourse⟩ := front_of_steps
        (fun hless => ih _ (by rwa [hk] at hless) _ _ rfl) hst (steps_of_readStep hstep)
      obtain ⟨es, fs, rfl, hst₂, hends, htail⟩ :=
        ih _ (hshorter hst hst₁ hne) E c₁ rfl hst₁ hmore
      rw [← Position.after_append] at hst₂
      refine ⟨cs ++ es, fs, by simp, hst₂, hends, hcourse rfl (fun hstalled => ?_) htail⟩
      -- the rest of the row stays where it is
      obtain ⟨-, hfork⟩ := readSteps_of_stalled hstalled hmore
      have hlength := (hst₁.of_fork_eq hfork).length_rest
      rw [hst₂.length_rest, List.length_append] at hlength
      exact List.length_eq_zero_iff.mp (by omega)

/-- The tokens of a text run a course from its beginning to its end. -/
theorem course_of_ofText {ts : List (Located Token)} (h : ofText text = .ok ts) :
    Course none none {} ts text [] := by
  rw [ofText] at h
  cases hrun : readTokens none (Cursor.ofText text) with
  | error f c =>
    rw [hrun] at h
    cases h
  | ok us c =>
    rw [hrun] at h
    obtain ⟨rows, hrows, rfl⟩ := readTokens_inv hrun
    obtain ⟨cs, ds, rfl, hst, -, hcourse⟩ := charted none _ (stands_ofText text) hrows
    dsimp only at h
    split at h
    · rename_i hend
      cases h
      rw [hst.atEnd_iff.mp hend] at hcourse ⊢
      rwa [List.append_nil]
    · cases h

/-! ## Tokens in their rows -/

/-- How a token of a row lies in the text that the row is read from. -/
inductive Seat (E : Option Nat) (q : Option Char) (p : Position) (ts : List (Located Token))
    (cs ds : List Char) : Located Token → Prop
  | plain {t : Token} {front mid back : List Char} (hcs : cs = front ++ mid ++ back)
      (hgoes : E.any (blockEnds · (mid ++ (back ++ ds))) = false)
      (hfits : Fits (lastOf q front) t mid (back ++ ds))
      (htail : t.opensBlock = false → ∃ us, us <:+ ts ∧
        Course E (lastOf q (front ++ mid)) (p.after (front ++ mid)) us back ds) :
      Seat E q p ts cs ds ⟨t, p.after front, p.after (front ++ mid)⟩
  | group {kind : GroupKind} {a b : Char} {us : List (Located Token)} {front mid back : List Char}
      (hcs : cs = front ++ (a :: mid ++ [b]) ++ back) (hkind : kind.delimiters = some (a, b))
      (inside : Course none (some a) (p.after (front ++ [a])) us mid (b :: (back ++ ds))) :
      Seat E q p ts cs ds ⟨.group kind us, p.after front, p.after (front ++ (a :: mid ++ [b]))⟩
  | block {w : Token} {start : Position} {us : List (Located Token)}
      {front blank mid back : List Char} (hcs : cs = front ++ (blank ++ mid) ++ back)
      (hopens : w.opensBlock = true)
      (hrow : [⟨w, start, p.after front⟩,
        ⟨.group .indented us, p.after front, p.after (front ++ (blank ++ mid))⟩,
        ⟨.lineBreak, Span.point (p.after (front ++ (blank ++ mid)))⟩] <:+: ts)
      (hleads : Leads (E.getD 0) blank (mid ++ (back ++ ds)))
      (inside : Course (some (indentation (lastLine blank))) (lastOf q (front ++ blank))
        (p.after (front ++ blank)) us mid (back ++ ds))
      (hends : blockEnds (indentation (lastLine blank)) (back ++ ds) = true ∨ back = []) :
      Seat E q p ts cs ds ⟨.group .indented us, p.after front, p.after (front ++ (blank ++ mid))⟩
  | close {front back : List Char} (hcs : cs = front ++ back) :
      Seat E q p ts cs ds ⟨.lineBreak, Span.point (p.after front)⟩

/-- A token lies in the same way when something is put in front of its row. -/
lemma Seat.behind {ts : List (Located Token)} {es : List Char} {t : Located Token} (xs : List Char)
    (us : List (Located Token)) (h : Seat E (lastOf q xs) (p.after xs) ts es ds t) :
    Seat E q p (us ++ ts) (xs ++ es) ds t := by
  cases h with
  | plain hcs hgoes hfits htail =>
    rw [← lastOf_append] at hfits
    rw [← lastOf_append, ← Position.after_append, ← List.append_assoc] at htail
    rw [← Position.after_append, ← Position.after_append, ← List.append_assoc]
    refine .plain (by simp [hcs]) hgoes hfits fun hopens => ?_
    obtain ⟨vs, hvs, hcourse⟩ := htail hopens
    exact ⟨vs, hvs.trans (List.suffix_append us ts), hcourse⟩
  | @group _ _ _ _ front _ _ hcs hkind inside =>
    rw [← Position.after_append, ← List.append_assoc] at inside
    rw [← Position.after_append, ← Position.after_append, ← List.append_assoc]
    exact .group (by simp [hcs]) hkind inside
  | block hcs hopens hrow hleads inside hends =>
    rw [← Position.after_append, ← List.append_assoc, ← lastOf_append, ← List.append_assoc] at inside
    rw [← Position.after_append, ← Position.after_append, ← List.append_assoc] at hrow ⊢
    exact .block (by simp [hcs]) hopens (hrow.trans (List.suffix_append us ts).isInfix) hleads inside
      hends
  | @close front back hcs =>
    have hcs : xs ++ es = xs ++ front ++ back := by simp [hcs]
    rw [← Position.after_append]
    exact .close hcs

/-- Every token of a row has its seat. -/
lemma Course.seat_of_mem {ts : List (Located Token)} {t : Located Token}
    (h : Course E q p ts cs ds) (ht : t ∈ ts) : Seat E q p ts cs ds t := by
  induction h with
  | nil => cases ht
  | @token E q p u ts cs es ds hgoes head tail ih =>
    rcases List.mem_cons.mp ht with rfl | ht
    · have hcs : cs ++ es = [] ++ cs ++ es := rfl
      exact .plain hcs hgoes head fun _ => ⟨ts, List.suffix_cons _ ts, tail⟩
    · exact (ih ht).behind cs [_]
  | @group E q p kind a b us ts cs es ds hkind inside tail _ ih =>
    rcases List.mem_cons.mp ht with rfl | ht
    · have hcs : a :: cs ++ [b] ++ es = [] ++ (a :: cs ++ [b]) ++ es := rfl
      exact .group hcs hkind inside
    · exact Seat.behind (a :: cs ++ [b]) [_] (by simpa using ih ht)
  | @block E q p w us ts word blank cs es ds hgoes head hopens hleads inside hends tail _ ih =>
    -- the three tokens of a block stand in the row together
    have hrow : [⟨w, p, p.after word⟩,
        ⟨.group .indented us, p.after word, p.after (word ++ blank ++ cs)⟩,
        ⟨.lineBreak, Span.point (p.after (word ++ blank ++ cs))⟩] <:+: _ ++ ts :=
      (List.prefix_append _ ts).isInfix
    rcases List.mem_cons.mp ht with rfl | ht
    · have hcs : word ++ blank ++ cs ++ es = [] ++ word ++ (blank ++ cs ++ es) := by simp
      refine .plain hcs (by simpa using hgoes) (by simpa using head) fun hnot => ?_
      rw [hopens] at hnot
      cases hnot
    · rcases List.mem_cons.mp ht with rfl | ht
      · rw [List.append_assoc] at hrow ⊢
        exact .block (by simp) hopens hrow hleads inside hends
      · rcases List.mem_cons.mp ht with rfl | ht
        · exact .close rfl
        · exact (ih ht).behind _ [_, _, _]

end Formulary.Token
