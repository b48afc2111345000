/-
# What a parser reads

A cursor over characters stands at a position in front of a text if the items to come are the
characters of that text, each with the span that it covers from there.  A parser reads what a
relation says if, whenever it succeeds, it has passed a front part of the text that the relation
ties to its value, and stands right after it.  This holds of a combinator if it holds of the
parsers it is made of: nothing is lost when a branch fails, since it is read on a fork.
-/
import Formulary.Proofs.Data.Lists
import Formulary.Proofs.Data.Results
import Formulary.Proofs.Parsing.Repetition

namespace Formulary.Parsing

open Text

variable {α β γ κ : Type} {c c' : Cursor Char} {p : Position} {text : List Char}

/-- The cursor is at position `p` and the characters of `text` are to come. -/
structure Stands (c : Cursor Char) (p : Position) (text : List Char) : Prop where
  rest_eq : c.rest = locate p text
  stop_eq : c.stop = p.after text

/-- What the parser passes when it succeeds is tied to its value and to where it begins. -/
def Reads (m : Parser Char α) (R : Position → α → List Char → Prop) : Prop :=
  ∀ ⦃c p text a c'⦄, Stands c p text → m c = .ok a c' →
    ∃ cs ds, text = cs ++ ds ∧ Stands c' (p.after cs) ds ∧ R p a cs

/-! ## Cursors -/

lemma stands_ofText (text : List Char) : Stands (Cursor.ofText text) {} text := ⟨rfl, rfl⟩

lemma Stands.upcoming_eq (h : Stands c p text) : c.upcoming = text := by
  rw [Cursor.upcoming, h.rest_eq, locate_values]

lemma Stands.position_eq (h : Stands c p text) : c.position = p := by
  unfold Cursor.position Cursor.span
  rw [h.rest_eq]
  cases text with
  | nil => simpa [locate, Span.point] using h.stop_eq
  | cons d ds => rfl

lemma Stands.next?_eq (h : Stands c p text) : c.next? = text.head? := by
  unfold Cursor.next?
  rw [h.rest_eq]
  cases text <;> rfl

lemma Stands.length_rest (h : Stands c p text) : c.rest.length = text.length := by
  rw [← h.upcoming_eq, Cursor.upcoming, List.length_map]

lemma Stands.atEnd_iff (h : Stands c p text) : c.atEnd = true ↔ text = [] := by
  rw [Cursor.atEnd, h.rest_eq]
  cases text <;> simp [locate]

lemma Stands.fork (h : Stands c p text) : Stands c.fork p text := ⟨h.rest_eq, h.stop_eq⟩

lemma Stands.of_fork_eq (h : Stands c p text) (hfork : c'.fork = c.fork) : Stands c' p text :=
  have hfork' : Stands c'.fork p text := hfork ▸ h.fork
  ⟨hfork'.rest_eq, hfork'.stop_eq⟩

lemma Stands.record (h : Stands c p text) (f : Failure) : Stands (c.record f) p text :=
  ⟨h.rest_eq, h.stop_eq⟩

lemma Stands.adopt (h : Stands c' p text) (c : Cursor Char) : Stands (c.adopt c') p text := by
  unfold Cursor.adopt
  split
  · exact ⟨h.rest_eq, h.stop_eq⟩
  · exact h

lemma Stands.pass {d : Char} {ds : List Char} (h : Stands c p (d :: ds)) (item : Located Char) :
    Stands (c.pass item (locate (p.advance d) ds)) (p.advance d) ds :=
  ⟨rfl, h.stop_eq⟩

/-! ## Steps -/

lemma bind_inv {ι : Type} {m : Parser ι α} {f : α → Parser ι β} {c c' : Cursor ι} {b : β}
    (h : (m >>= f) c = .ok b c') : ∃ a c₁, m c = .ok a c₁ ∧ f a c₁ = .ok b c' := by
  rw [bind_apply] at h
  cases hm : m c with
  | ok a c₁ =>
    rw [hm] at h
    exact ⟨a, c₁, rfl, h⟩
  | error e c₁ =>
    rw [hm] at h
    cases h

lemma map_inv {ι : Type} {m : Parser ι α} {f : α → β} {c c' : Cursor ι} {b : β}
    (h : (f <$> m) c = .ok b c') : ∃ a, m c = .ok a c' ∧ b = f a := by
  change EStateM.map f m c = .ok b c' at h
  unfold EStateM.map at h
  cases hm : m c with
  | ok a c₁ =>
    rw [hm] at h
    cases h
    exact ⟨a, rfl, rfl⟩
  | error e c₁ =>
    rw [hm] at h
    cases h

lemma pure_inv {ι : Type} {c c' : Cursor ι} {a b : α} (h : (pure a : Parser ι α) c = .ok b c') :
    b = a ∧ c' = c := by
  cases h
  exact ⟨rfl, rfl⟩

lemma get_inv {ι : Type} {f : Cursor ι → Parser ι β} {c c' : Cursor ι} {b : β}
    (h : (get >>= f) c = .ok b c') : f c c = .ok b c' := h

/-- What is read in another row is read up to the end of it, and the cursor stays where it is. -/
lemma within_inv {ι : Type} [Item ι] {inner c c' : Cursor ι} {m : Parser ι α} {a : α}
    (h : within inner m c = .ok a c') : c' = c ∧ ∃ c₁, m inner = .ok a c₁ ∧ c₁.rest = [] := by
  unfold within at h
  split at h
  · rename_i b c₁ hm
    split at h
    · rename_i hend
      cases h
      exact ⟨rfl, c₁, hm, List.isEmpty_iff.mp hend⟩
    · cases h
  · cases h

/-! ## What is read -/

lemma Reads.mono {m : Parser Char α} {R S : Position → α → List Char → Prop} (h : Reads m R)
    (himp : ∀ p a cs, R p a cs → S p a cs) : Reads m S := by
  intro c p text a c' hst hrun
  obtain ⟨cs, ds, htext, hst', hR⟩ := h hst hrun
  exact ⟨cs, ds, htext, hst', himp _ _ _ hR⟩

lemma reads_map {m : Parser Char α} {R : Position → α → List Char → Prop} (h : Reads m R)
    {f : α → β} : Reads (f <$> m) fun p b cs => ∃ a, b = f a ∧ R p a cs := by
  intro c p text b c' hst hrun
  obtain ⟨a, hm, rfl⟩ := map_inv hrun
  obtain ⟨cs, ds, htext, hst', hR⟩ := h hst hm
  exact ⟨cs, ds, htext, hst', a, rfl, hR⟩

lemma reads_next : Reads next fun p item cs => item = ⟨item.value, p, p.advance item.value⟩ ∧
    cs = [item.value] := by
  intro c p text a c' hst hrun
  unfold next at hrun
  rw [hst.rest_eq] at hrun
  cases text with
  | nil => simp [locate] at hrun
  | cons d ds =>
    simp only [locate] at hrun
    cases hrun
    exact ⟨[d], ds, rfl, hst.pass _, rfl, rfl⟩

lemma reads_satisfying (what : String) (holds : Char → Bool) :
    Reads (satisfying what holds) fun _ item cs => holds item.value = true ∧ cs = [item.value] := by
  intro c p text a c' hst hrun
  unfold satisfying at hrun
  rw [hst.rest_eq] at hrun
  cases text with
  | nil => simp [locate, expected] at hrun
  | cons d ds =>
    simp only [locate] at hrun
    split at hrun
    · rename_i hd
      cases hrun
      exact ⟨[d], ds, rfl, hst.pass _, hd, rfl⟩
    · simp [expected] at hrun

lemma reads_takeItems (n : Nat) : Reads (takeItems n) fun _ a cs => a = cs ∧ cs.length = n := by
  induction n with
  | zero =>
    intro c p text a c' hst hrun
    obtain ⟨rfl, rfl⟩ := pure_inv hrun
    exact ⟨[], text, rfl, hst, rfl, rfl⟩
  | succ n ih =>
    intro c p text a c' hst hrun
    obtain ⟨item, c₁, hnext, hrest⟩ := bind_inv hrun
    obtain ⟨items, c₂, htake, hpure⟩ := bind_inv hrest
    obtain ⟨rfl, rfl⟩ := pure_inv hpure
    obtain ⟨cs, ds, rfl, hst₁, -, rfl⟩ := reads_next hst hnext
    obtain ⟨cs, es, rfl, hst₂, rfl, rfl⟩ := ih hst₁ htake
    exact ⟨item.value :: items, es, rfl, hst₂, rfl, rfl⟩

/-- A pattern takes a front part of the text, of the length that it gives. -/
lemma reads_matching (q : Pattern Char) {a : List Char} (hst : Stands c p text)
    (hrun : matching q c = .ok a c') :
    ∃ ds, text = a ++ ds ∧ Stands c' (p.after a) ds ∧ q.length? text = some a.length ∧ a ≠ [] := by
  unfold matching at hrun
  rw [hst.upcoming_eq] at hrun
  cases hlen : q.length? text with
  | none => simp [hlen, expected] at hrun
  | some n =>
    cases n with
    | zero => simp [hlen, expected] at hrun
    | succ n =>
      rw [hlen] at hrun
      obtain ⟨cs, ds, rfl, hst', rfl, hn⟩ := reads_takeItems (n + 1) hst hrun
      refine ⟨ds, rfl, hst', by rw [hn], ?_⟩
      rintro rfl
      simp at hn

lemma reads_literal_go (failure : Failure) (wanted ws : List Char) :
    Reads (literal.go wanted failure ws) fun _ a cs => a = wanted ∧ cs = ws := by
  induction ws with
  | nil =>
    intro c p text a c' hst hrun
    rw [literal.go] at hrun
    cases hrun
    exact ⟨[], text, rfl, hst, rfl, rfl⟩
  | cons w ws ih =>
    intro c p text a c' hst hrun
    rw [literal.go, hst.rest_eq] at hrun
    cases text with
    | nil => simp [locate] at hrun
    | cons d ds =>
      simp only [locate] at hrun
      split at hrun
      · rename_i hd
        obtain ⟨cs, es, rfl, hst', rfl, rfl⟩ := ih (hst.pass _) hrun
        rw [beq_iff_eq] at hd
        subst hd
        exact ⟨d :: cs, es, rfl, hst', rfl, rfl⟩
      · cases hrun

lemma reads_literal (shown : String) (wanted : List Char) :
    Reads (literal shown wanted) fun _ _ cs => cs = wanted := by
  intro c p text a c' hst hrun
  obtain ⟨cs, ds, htext, hst', -, hcs⟩ := reads_literal_go _ wanted wanted hst hrun
  exact ⟨cs, ds, htext, hst', hcs⟩

/-! ## Runs -/

lemma take_runLength {ι : Type} (q : ι → Bool) (items : List ι) :
    items.take (Pattern.runLength q items) = items.takeWhile q :=
  (List.prefix_iff_eq_take.mp (List.takeWhile_prefix q)).symm

lemma drop_runLength {ι : Type} (q : ι → Bool) (items : List ι) :
    items.drop (Pattern.runLength q items) = items.dropWhile q := by
  have h := List.take_append_drop (Pattern.runLength q items) items
  rw [take_runLength] at h
  have hsplit := List.takeWhile_append_dropWhile (p := q) (l := items)
  exact List.append_cancel_left (h.trans hsplit.symm)

lemma mem_of_runLength {ι : Type} {q : ι → Bool} {is js : List ι}
    (h : Pattern.runLength q (is ++ js) = is.length) : ∀ i ∈ is, q i = true := by
  have htake := take_runLength q (is ++ js)
  rw [h, List.take_left] at htake
  intro i hi
  rw [htake] at hi
  exact List.all_eq_true.mp List.all_takeWhile i hi

lemma not_head_of_runLength {ι : Type} {q : ι → Bool} {is js : List ι}
    (h : Pattern.runLength q (is ++ js) = is.length) : ∀ j ∈ js.head?, q j = false := by
  have hdrop := drop_runLength q (is ++ js)
  rw [h, List.drop_left] at hdrop
  rw [hdrop]
  exact not_head_dropWhile q _

/-- What a run takes is in its class. -/
lemma mem_of_oneOrMore {ι : Type} {source : String} {q : ι → Bool} {is js : List ι}
    (h : (Pattern.oneOrMore source q).length? (is ++ js) = some is.length) :
    ∀ i ∈ is, q i = true := by
  unfold Pattern.oneOrMore at h
  dsimp only at h
  split at h
  · cases h
  · exact mem_of_runLength (Option.some.inj h)

lemma not_head_of_oneOrMore {ι : Type} {source : String} {q : ι → Bool} {is js : List ι}
    (h : (Pattern.oneOrMore source q).length? (is ++ js) = some is.length) :
    ∀ j ∈ js.head?, q j = false := by
  unfold Pattern.oneOrMore at h
  dsimp only at h
  split at h
  · cases h
  · exact not_head_of_runLength (Option.some.inj h)

/-! ## Combinators -/

/-- A value that may be missing; nothing is passed then. -/
def Perhaps (R : Position → α → List Char → Prop) (p : Position) : Option α → List Char → Prop
  | some a, cs => R p a cs
  | none, cs => cs = []

lemma reads_optional {m : Parser Char α} {R : Position → α → List Char → Prop} (h : Reads m R) :
    Reads (optional m) (Perhaps R) := by
  intro c p text a c' hst hrun
  unfold optional at hrun
  cases hm : m c.fork with
  | ok b c₁ =>
    rw [hm] at hrun
    cases hrun
    obtain ⟨cs, ds, rfl, hst', hR⟩ := h hst.fork hm
    exact ⟨cs, ds, rfl, hst'.adopt c, hR⟩
  | error f c₁ =>
    rw [hm] at hrun
    dsimp only at hrun
    split at hrun
    · cases hrun
    · cases hrun
      exact ⟨[], text, rfl, hst.record f, rfl⟩

/-- A choice reads what one of its branches reads. -/
lemma reads_choice {R : Position → α → List Char → Prop} {ms : List (Parser Char α)}
    (h : ∀ m ∈ ms, Reads m R) : Reads (choice ms) R := by
  induction ms with
  | nil =>
    intro c p text a c' hst hrun
    simp [choice] at hrun
  | cons m ms ih =>
    intro c p text a c' hst hrun
    rw [choice] at hrun
    obtain ⟨b, c₁, hopt, hrest⟩ := bind_inv hrun
    obtain ⟨cs, ds, rfl, hst₁, hR⟩ := reads_optional (h m (by simp)) hst hopt
    cases b with
    | some b =>
      obtain ⟨rfl, rfl⟩ := pure_inv hrest
      exact ⟨cs, ds, rfl, hst₁, hR⟩
    | none =>
      cases hR
      exact ih (fun m hm => h m (by simp [hm])) hst₁ hrest

/-- Values that were read one after the other. -/
inductive Pieces (R : Position → α → List Char → Prop) : Position → List α → List Char → Prop
  | nil (p : Position) : Pieces R p [] []
  | cons {p : Position} {a : α} {as : List α} {cs ds : List Char} (head : R p a cs)
      (tail : Pieces R (p.after cs) as ds) : Pieces R p (a :: as) (cs ++ ds)

lemma reads_many {m : Parser Char α} {R : Position → α → List Char → Prop} (h : Reads m R) :
    Reads (many m) (Pieces R) := by
  intro c p text as c' hst hrun
  induction hrun using many_induction generalizing p text with
  | stop c f c₁ _ hm hf => exact ⟨[], text, rfl, hst.record f, .nil p⟩
  | idle c a c₁ _ hm hle => exact ⟨[], text, rfl, hst, .nil p⟩
  | more c a c₁ as c' _ _ hm hlt ih =>
    obtain ⟨cs, ds, rfl, hst₁, hR⟩ := h hst.fork hm
    obtain ⟨es, fs, rfl, hst₂, hPieces⟩ := ih (hst₁.adopt c)
    refine ⟨cs ++ es, fs, by rw [List.append_assoc], ?_, .cons hR hPieces⟩
    rw [Position.after_append]
    exact hst₂

lemma reads_collect {step : Parser Char (Option (α × Bool))}
    {R : Position → α → List Char → Prop}
    (h : Reads step (Perhaps fun p a cs => R p a.1 cs)) : Reads (collect step) (Pieces R) := by
  intro c p text as c' hst hrun
  induction hrun using collect_induction generalizing p text with
  | done c c' _ hstep =>
    obtain ⟨cs, ds, rfl, hst₁, rfl⟩ := h hst hstep
    exact ⟨[], ds, rfl, hst₁, .nil p⟩
  | last c a goOn c' _ hstep =>
    obtain ⟨cs, ds, rfl, hst₁, hR⟩ := h hst hstep
    have hPieces : Pieces R p [a] (cs ++ []) := .cons hR (.nil _)
    rw [List.append_nil] at hPieces
    exact ⟨cs, ds, rfl, hst₁, hPieces⟩
  | more c a goOn c₁ as c' _ _ hstep ih =>
    obtain ⟨cs, ds, rfl, hst₁, hR⟩ := h hst hstep
    obtain ⟨es, fs, rfl, hst₂, hPieces⟩ := ih hst₁
    refine ⟨cs ++ es, fs, by rw [List.append_assoc], ?_, .cons hR hPieces⟩
    rw [Position.after_append]
    exact hst₂

/-- The first item of a row is the first character of the text. -/
lemma Stands.of_rest_eq {item : Located Char} {rest : List (Located Char)} (h : Stands c p text)
    (hrest : c.rest = item :: rest) :
    ∃ d ds, text = d :: ds ∧ item.value = d ∧ Stands (c.pass item rest) (p.advance d) ds := by
  rw [h.rest_eq] at hrest
  cases text with
  | nil => cases hrest
  | cons d ds =>
    rw [locate, List.cons.injEq] at hrest
    obtain ⟨rfl, rfl⟩ := hrest
    exact ⟨d, ds, rfl, rfl, h.pass _⟩

/-- The items up to where a parser would succeed. -/
lemma reads_takeUntil {m : Parser Char β} :
    Reads (takeUntil m) fun _ a cs => a.map Located.value = cs := by
  intro c p text as c' hst hrun
  induction hrun using takeUntil_induction generalizing p text with
  | found c b c₁ _ hm => exact ⟨[], text, rfl, hst, rfl⟩
  | pass c f c₁ item rest as c' _ _ hm hrest ih =>
    obtain ⟨d, ds, rfl, rfl, hst₁⟩ := hst.of_rest_eq hrest
    obtain ⟨cs, es, rfl, hst', rfl⟩ := ih hst₁
    exact ⟨item.value :: as.map Located.value, es, rfl, hst', rfl⟩

/-- A rule that is given in terms of itself reads what it reads if its parts do. -/
lemma reads_fix {size : Cursor Char → Nat}
    {rules : (κ → Parser Char α) → κ → Parser Char α}
    {R : κ → Position → α → List Char → Prop}
    (h : ∀ parser, (∀ k, Reads (parser k) (R k)) → ∀ k, Reads (rules parser k) (R k)) (k : κ) :
    Reads (fix size rules k) (R k) := fun c =>
  fix_induction (motive := fun k c o => ∀ ⦃p text a c'⦄, Stands c p text → o = .ok a c' →
      ∃ cs ds, text = cs ++ ds ∧ Stands c' (p.after cs) ds ∧ R k p a cs)
    (fun _ _ _ _ _ _ _ hrun => by cases hrun) (fun g hg k c => @h g (fun k c => hg k c) k c) k c

end Formulary.Parsing
