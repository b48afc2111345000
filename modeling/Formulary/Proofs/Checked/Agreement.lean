/-
# Checked runs and parsers

A place tracks a cursor if what is seen at the place is what the cursor says.  A checked run
carries out a parser if, from a place that tracks a cursor, it meets no fault, gives the value or
the failure that the parser gives, and ends at a place that tracks the cursor where the parser
ends.  A combinator carries out the combinator of parsers if what it is made of is carried out, so
faults can only come from what looks at a place.
-/
import Mathlib.Data.List.MinMax
import Formulary.Proofs.Checked.Run
import Formulary.Proofs.Parsing.Following

namespace Formulary.Checked

open Text Parsing

/-- When a place tracks a cursor; `ρ` is what is known of the row besides. -/
class Tracks (ι : outParam Type) (κ : Type) (ρ : outParam Type) [Item ι] [Place ι κ] where
  /-- The place tracks the cursor in the row. -/
  At : ρ → κ → Cursor ι → Prop
  next?_eq : ∀ {row : ρ} {k : κ} {c : Cursor ι}, At row k c → Place.next? k = .ok c.rest.head?
  step : ∀ {row : ρ} {k : κ} {c : Cursor ι} {item : Located ι} {rest : List (Located ι)},
    At row k c → c.rest = item :: rest → At row (Place.step k item) (c.pass item rest)
  offset_eq : ∀ {row : ρ} {k : κ} {c : Cursor ι}, At row k c → Place.offset k = c.offset
  span_eq : ∀ {row : ρ} {k : κ} {c : Cursor ι}, At row k c → Place.span k = .ok c.span
  previousEnd_eq : ∀ {row : ρ} {k : κ} {c : Cursor ι}, At row k c →
    Place.previousEnd k = .ok c.previousEnd
  pending_eq : ∀ {row : ρ} {k : κ} {c : Cursor ι}, At row k c → Place.pending k = c.pending
  withPending : ∀ {row : ρ} {k : κ} {c : Cursor ι}, At row k c → ∀ fs : List Failure,
    At row (Place.withPending k fs) { c with pending := fs }
  left_eq : ∀ {row : ρ} {k : κ} {c : Cursor ι}, At row k c → Place.left k = c.rest.length

open Tracks (At)

variable {ι κ ρ α β γ δ : Type} [Item ι] [Place ι κ] [Tracks ι κ ρ] {row : ρ} {k : κ}
  {c : Cursor ι}

/-- What a checked run gives is what a parser gives, and it ends where the parser ends. -/
inductive Follows (row : ρ) : Except Fault (EStateM.Result Failure κ α) → Outcome ι α → Prop
  | ok (a : α) {k : κ} {c : Cursor ι} (h : At row k c) :
      Follows row (.ok (.ok a k)) (.ok a c)
  | error (f : Failure) {k : κ} {c : Cursor ι} (h : At row k c) :
      Follows row (.ok (.error f k)) (.error f c)

/-- The checked run meets no fault and gives what the parser gives. -/
def CarriesOut (m : Run κ α) (p : Parser ι α) : Prop :=
  ∀ ⦃row : ρ⦄ ⦃k : κ⦄ ⦃c : Cursor ι⦄, At row k c → Follows row (m k) (p c)

lemma Follows.cases {r : Except Fault (EStateM.Result Failure κ α)} {o : Outcome ι α}
    (h : Follows row r o) :
    (∃ a k' c', r = .ok (.ok a k') ∧ o = .ok a c' ∧ At row k' c') ∨
      ∃ f k' c', r = .ok (.error f k') ∧ o = .error f c' ∧ At row k' c' := by
  cases h with
  | ok a h' => exact .inl ⟨a, _, _, rfl, rfl, h'⟩
  | error f h' => exact .inr ⟨f, _, _, rfl, rfl, h'⟩

/-! ## Failures -/

/-- The failures that are summed up are never none. -/
lemma richest_eq (fs : List Failure) : richest fs = .ok (Failure.furthest? fs) := by
  cases fs with
  | nil => rfl
  | cons f fs =>
    have hmax : ((f :: fs).map Failure.startByte).max? =
        some ((f :: fs).foldl (fun n g => max n g.startByte) 0) := by
      rw [List.map_cons, List.max?_cons', List.foldl_cons, Nat.zero_max, List.foldl_map]
    have hmem := List.max?_mem hmax
    unfold richest Failure.furthest?
    rw [hmax]
    dsimp only
    generalize (f :: fs).foldl (fun n g => max n g.startByte) 0 = limit at hmem ⊢
    obtain ⟨g, hg, hlimit⟩ := List.mem_map.mp hmem
    have hkept : g ∈ (f :: fs).filter fun e => e.startByte == limit :=
      List.mem_filter.mpr ⟨hg, beq_iff_eq.mpr hlimit⟩
    obtain ⟨e, es, hes⟩ := List.exists_cons_of_ne_nil (List.ne_nil_of_mem hkept)
    rw [hes, List.eraseDups_cons]
    rfl

/-! ## What is seen -/

lemma describeNext_eq (h : At row k c) : describeNext k = .ok c.describeNext := by
  unfold describeNext Cursor.describeNext
  rw [Tracks.next?_eq h]
  cases c.rest <;> rfl

lemma unexpected_eq (h : At row k c) : unexpected k = .ok c.unexpected := by
  unfold unexpected
  rw [describeNext_eq h]
  rfl

lemma blame_eq (h : At row k c) : blame k = .ok (c.blame c.unexpected) := by
  unfold blame Cursor.blame
  rw [unexpected_eq h, richest_eq, Tracks.pending_eq h, Tracks.span_eq h]
  cases Failure.furthest? c.pending <;> rfl

lemma atEnd_eq (h : At row k c) : atEnd k = .ok c.atEnd := by
  unfold atEnd Cursor.atEnd
  rw [Tracks.next?_eq h]
  cases c.rest <;> rfl

/-! ## Forks -/

lemma at_record (h : At row k c) (f : Failure) : At row (record k f) (c.record f) := by
  unfold record Cursor.record
  rw [Tracks.pending_eq h]
  exact Tracks.withPending h _

lemma at_fork (h : At row k c) : At row (fork k) c.fork := Tracks.withPending h _

lemma at_adopt {k' : κ} {c' : Cursor ι} (h : At row k c) (h' : At row k' c') :
    At row (adopt k k') (c.adopt c') := by
  unfold adopt Cursor.adopt
  rw [Tracks.offset_eq h, Tracks.offset_eq h', Tracks.pending_eq h, Tracks.pending_eq h']
  split
  · exact Tracks.withPending h' _
  · exact h'

/-! ## Steps -/

lemma carriesOut_pure (a : α) : CarriesOut (pure a : Run κ α) (pure a) := fun _ _ _ h => .ok a h

lemma carriesOut_fail (f : Failure) : CarriesOut (fail f : Run κ α) (throw f) :=
  fun _ _ _ h => .error f h

/-- A run that goes on with the value of another one, at the place where that one ends. -/
lemma follows_bind {m : Run κ α} {p : Parser ι α} {f : α → Run κ β} {q : α → Parser ι β}
    (hm : Follows row (m k) (p c))
    (hf : ∀ {a : α} {k' : κ} {c' : Cursor ι}, p c = .ok a c' → At row k' c' →
      Follows row (f a k') (q a c')) :
    Follows row ((m >>= f) k) ((p >>= q) c) := by
  rcases hm.cases with ⟨a, k', c', hk, hc, h'⟩ | ⟨e, k', c', hk, hc, h'⟩
  · rw [run_bind_of_ok hk, bind_of_ok hc]
    exact hf hc h'
  · rw [run_bind_of_error hk, bind_of_error hc]
    exact .error e h'

lemma carriesOut_bind {m : Run κ α} {p : Parser ι α} {f : α → Run κ β} {q : α → Parser ι β}
    (hm : CarriesOut m p) (hf : ∀ a, CarriesOut (f a) (q a)) : CarriesOut (m >>= f) (p >>= q) :=
  fun _ _ _ h => follows_bind (hm h) fun _ h' => hf _ h'

lemma carriesOut_map {m : Run κ α} {p : Parser ι α} (hm : CarriesOut m p) (g : α → β) :
    CarriesOut (g <$> m) (g <$> p) := by
  have hrun : g <$> m = m >>= fun a => pure (g a) := rfl
  rw [hrun, map_eq_pure_bind]
  exact carriesOut_bind hm fun a => carriesOut_pure (g a)

/-- Something is seen at a place, and the run goes on with it. -/
lemma look_bind {f : κ → Except Fault α} {a : α} (hf : f k = .ok a) (g : α → Run κ β) :
    (look f >>= g) k = g a k := run_bind_of_ok (by rw [look, hf])

lemma follows_look {f : κ → Except Fault α} {a : α} (hf : f k = .ok a) {g : α → Run κ β}
    {o : Outcome ι β} (h : Follows row (g a k) o) : Follows row ((look f >>= g) k) o := by
  rwa [look_bind hf]

/-- A computation that does not look at the place is gone on with. -/
lemma follows_given {x : Except Fault α} {a : α} (hx : x = .ok a) {g : α → Run κ β}
    {o : Outcome ι β} (h : Follows row (g a k) o) :
    Follows row ((look (fun _ => x) >>= g) k) o :=
  follows_look (f := fun _ => x) hx h

lemma carriesOut_get {f : κ → Except Fault α} (v : Cursor ι → α)
    (hf : ∀ {row : ρ} {k : κ} {c : Cursor ι}, At row k c → f k = .ok (v c)) {g : α → Run κ β}
    {q : Cursor ι → Parser ι β} (hg : ∀ c, CarriesOut (g (v c)) (q c)) :
    CarriesOut (look f >>= g) (get >>= q) :=
  fun _ _ c h => follows_look (hf h) (hg c h)

lemma carriesOut_look {f : κ → Except Fault α} {v : Cursor ι → α}
    (hf : ∀ {row : ρ} {k : κ} {c : Cursor ι}, At row k c → f k = .ok (v c)) {g : α → Run κ β}
    {q : α → Parser ι β} (hg : ∀ a, CarriesOut (g a) (q a)) :
    CarriesOut (look f >>= g) (get >>= fun c => q (v c)) :=
  carriesOut_get v hf fun c => hg (v c)

lemma failHere_eq (h : At row k c) (text : String) :
    (failHere text : Run κ α) k = .ok (.error (Failure.because c.span text) k) :=
  look_bind (Tracks.span_eq h) fun s => fail (Failure.because s text)

lemma expected_eq (h : At row k c) (what : String) : (expected what : Run κ α) k =
    .ok (.error (Failure.because c.span s!"expected {what}, found {c.describeNext}") k) :=
  (look_bind (describeNext_eq h) fun found => failHere s!"expected {what}, found {found}").trans
    (failHere_eq h _)

lemma carriesOut_failHere (text : String) :
    CarriesOut (failHere text : Run κ α) (Parsing.failHere text) := by
  intro row k c h
  rw [failHere_eq h]
  exact .error _ h

lemma carriesOut_expected (what : String) :
    CarriesOut (expected what : Run κ α) (Parsing.expected what) := by
  intro row k c h
  rw [expected_eq h]
  exact .error _ h

/-- Failing because of what is next. -/
lemma carriesOut_failUnexpected :
    CarriesOut (do failHere (← look unexpected) : Run κ α) fun c =>
      Parsing.failHere c.unexpected c :=
  carriesOut_look unexpected_eq carriesOut_failHere

lemma next_of_nil (h : At row k c) (hrest : c.rest = []) :
    next k = .ok (.error (Failure.endOfInput c.span) k) := by
  rw [next, Tracks.next?_eq h, hrest]
  exact look_bind (Tracks.span_eq h) fun s => fail (Failure.endOfInput s)

lemma next_of_cons {item : Located ι} {rest : List (Located ι)} (h : At row k c)
    (hrest : c.rest = item :: rest) : next k = .ok (.ok item (Place.step k item)) := by
  rw [next, Tracks.next?_eq h, hrest]
  rfl

/-- The next item, where it is known, is passed, and the run goes on with it. -/
lemma next_bind {item : Located ι} {rest : List (Located ι)} (h : At row k c)
    (hrest : c.rest = item :: rest) (g : Located ι → Run κ α) :
    (next >>= g) k = g item (Place.step k item) := run_bind_of_ok (next_of_cons h hrest)

lemma carriesOut_next : CarriesOut (next : Run κ (Located ι)) Parsing.next := by
  intro row k c h
  unfold Parsing.next
  cases hrest : c.rest with
  | nil =>
    rw [next_of_nil h hrest]
    exact .error _ h
  | cons item rest =>
    rw [next_of_cons h hrest]
    exact .ok item (Tracks.step h hrest)

/-- Looking at the next item, a run goes on with it or without one. -/
lemma carriesOut_look_next {g : Option (Located ι) → Run κ α} {p : Parser ι α}
    (hnil : ∀ {row : ρ} {k : κ} {c : Cursor ι}, At row k c → c.rest = [] →
      Follows row (g none k) (p c))
    (hcons : ∀ {row : ρ} {k : κ} {c : Cursor ι} {item : Located ι} {rest : List (Located ι)},
      At row k c → c.rest = item :: rest → Follows row (g (some item) k) (p c)) :
    CarriesOut (look Place.next? >>= g) p := by
  intro row k c h
  refine follows_look (Tracks.next?_eq h) ?_
  cases hrest : c.rest with
  | nil => exact hnil h hrest
  | cons item rest => exact hcons h hrest

lemma carriesOut_peek : CarriesOut (peek : Run κ (Located ι)) Parsing.peek := by
  refine carriesOut_look_next (fun h hrest => ?_) fun {_ _ _ item _} h hrest => ?_
  · rw [Parsing.peek, hrest]
    exact carriesOut_look Tracks.span_eq (fun s => carriesOut_fail (Failure.endOfInput s)) h
  · rw [Parsing.peek, hrest]
    exact .ok item h

lemma follows_next {item : Located ι} {rest : List (Located ι)} (h : At row k c)
    (hrest : c.rest = item :: rest) : Follows row (next k) (.ok item (c.pass item rest)) := by
  rw [next_of_cons h hrest]
  exact .ok item (Tracks.step h hrest)

lemma carriesOut_satisfying (what : String) (holds : ι → Bool) :
    CarriesOut (satisfying what holds : Run κ (Located ι)) (Parsing.satisfying what holds) := by
  refine carriesOut_look_next (fun h hrest => ?_) fun {_ _ _ item _} h hrest => ?_
  · rw [Parsing.satisfying, hrest]
    exact carriesOut_expected what h
  · rw [Parsing.satisfying, hrest]
    dsimp only
    split
    · exact follows_next h hrest
    · exact carriesOut_expected what h

/-! ## Combinators -/

section Combinators

variable {m : Run κ α} {p : Parser ι α}

lemma carriesOut_optional (hm : CarriesOut m p) : CarriesOut (optional m) (Parsing.optional p) := by
  intro row k c h
  unfold optional Parsing.optional
  rcases (hm (at_fork h)).cases with ⟨a, k', c', hk, hc, h'⟩ | ⟨f, k', c', hk, hc, h'⟩
  · rw [hk, hc]
    exact .ok (some a) (at_adopt h h')
  · rw [hk, hc]
    dsimp only
    split
    · exact .error f h
    · exact .ok none (at_record h f)

lemma carriesOut_choice {ms : List (Run κ α)} {ps : List (Parser ι α)}
    (h : List.Forall₂ CarriesOut ms ps) : CarriesOut (choice ms) (Parsing.choice ps) := by
  induction h with
  | nil => exact carriesOut_look blame_eq carriesOut_fail
  | cons hm _ ih =>
    rw [choice, Parsing.choice]
    refine carriesOut_bind (carriesOut_optional hm) fun a => ?_
    cases a with
    | some a => exact carriesOut_pure a
    | none => exact ih

lemma carriesOut_notAhead {forbidden : Run κ β} {q : Parser ι β} (hq : CarriesOut forbidden q)
    (hm : CarriesOut m p) : CarriesOut (notAhead forbidden m) (Parsing.notAhead q p) := by
  intro row k c h
  unfold notAhead Parsing.notAhead
  rcases (hq (at_fork h)).cases with ⟨a, k', c', hk, hc, -⟩ | ⟨f, k', c', hk, hc, -⟩
  · rw [hk, hc]
    exact carriesOut_failUnexpected h
  · rw [hk, hc]
    dsimp only
    split
    · exact .error f h
    · exact hm h

lemma carriesOut_delimited {opening : Run κ β} {closing : Run κ γ} {q : Parser ι β}
    {r : Parser ι γ} (hq : CarriesOut opening q) (hr : CarriesOut closing r)
    (hm : CarriesOut m p) :
    CarriesOut (delimited opening closing m) (Parsing.delimited q r p) :=
  carriesOut_bind hq fun _ => carriesOut_bind hm fun a => carriesOut_bind hr fun _ =>
    carriesOut_pure a

lemma follows_prepend {r : Except Fault (EStateM.Result Failure κ (List α))}
    {o : Outcome ι (List α)} (h : Follows row r o) (a : α) :
    Follows row (prepend a r) (o.prepend a) := by
  cases h with
  | ok as h => exact .ok (a :: as) h
  | error f h => exact .error f h

lemma carriesOut_many (hm : CarriesOut m p) : CarriesOut (many m) (Parsing.many p) := by
  intro row k c h
  induction hn : c.rest.length using Nat.strongRecOn generalizing k c with
  | _ n ih =>
    rw [many, Parsing.many]
    rcases (hm (at_fork h)).cases with ⟨a, k', c', hk, hc, h'⟩ | ⟨f, k', c', hk, hc, -⟩
    · rw [hk, hc]
      have hadopt := at_adopt h h'
      simp only [Tracks.left_eq h, Tracks.left_eq hadopt, Cursor.rest_adopt]
      split
      · rename_i hlt
        exact follows_prepend (ih _ (by rwa [← hn, Cursor.rest_adopt]) hadopt rfl) a
      · exact .ok [] h
    · rw [hk, hc]
      dsimp only
      split
      · exact .error f h
      · exact .ok [] (at_record h f)

lemma carriesOut_collect {step : Run κ (Option (α × Bool))} {q : Parser ι (Option (α × Bool))}
    (hq : CarriesOut step q) : CarriesOut (collect step) (Parsing.collect q) := by
  intro row k c h
  induction hn : c.rest.length using Nat.strongRecOn generalizing k c with
  | _ n ih =>
    rw [collect, Parsing.collect]
    rcases (hq h).cases with ⟨a, k', c', hk, hc, h'⟩ | ⟨f, k', c', hk, hc, h'⟩
    · rw [hk, hc]
      rcases a with _ | ⟨a, goOn⟩
      · exact .ok [] h'
      · simp only [Tracks.left_eq h, Tracks.left_eq h']
        split
        · rename_i hlt
          exact follows_prepend (ih _ (by rw [← hn]; exact hlt.2) h' rfl) a
        · exact .ok [a] h'
    · rw [hk, hc]
      exact .error f h'

lemma carriesOut_separated {element : Run κ (Option α)} {q : Parser ι (Option α)}
    {separator : Run κ β} {r : Parser ι β} (hq : CarriesOut element q)
    (hr : CarriesOut separator r) :
    CarriesOut (separated element separator) (Parsing.separated q r) := by
  refine carriesOut_collect (carriesOut_bind hq fun a => ?_)
  cases a with
  | none => exact carriesOut_pure none
  | some a => exact carriesOut_bind (carriesOut_optional hr) fun s => carriesOut_pure _

lemma carriesOut_takeUntil {stop : Run κ β} {q : Parser ι β} (hq : CarriesOut stop q) :
    CarriesOut (takeUntil stop) (Parsing.takeUntil q) := by
  intro row k c h
  induction hn : c.rest.length using Nat.strongRecOn generalizing k c with
  | _ n ih =>
    rw [takeUntil, Parsing.takeUntil]
    rcases (hq (at_fork h)).cases with ⟨a, k', c', hk, hc, -⟩ | ⟨f, k', c', hk, hc, -⟩
    · rw [hk, hc]
      exact .ok [] h
    · rw [hk, hc]
      dsimp only
      split
      · exact .error f h
      · obtain ⟨rest, previous, start, stop', offset, pending⟩ := c
        have hnext := Tracks.next?_eq h
        -- what is next is known on both sides, so only one branch of each is left
        cases rest with
        | nil =>
          split
          · cases hnext.symm.trans ‹_›
          · exact carriesOut_look Tracks.span_eq
              (fun s => carriesOut_fail (Failure.endOfInput s).toFatal) h
          · cases hnext.symm.trans ‹_›
        | cons item rest =>
          split
          · cases hnext.symm.trans ‹_›
          · cases hnext.symm.trans ‹_›
          · cases hnext.symm.trans ‹_›
            refine follows_prepend (ih _ ?_ (Tracks.step h rfl) rfl) item
            rw [← hn]
            exact Nat.lt_succ_self _

/-! ## Rows and recursion -/

/-- A run over a whole row meets no fault and gives what the parser gives. -/
lemma whole_eq (hm : CarriesOut m p) (h : At row k c) :
    whole k m = .ok (match p c with
      | .ok a c' => if c'.atEnd then .ok a else .error (c'.blame c'.unexpected)
      | .error f _ => .error f) := by
  unfold whole
  rcases (hm h).cases with ⟨a, k', c', hk, hc, h'⟩ | ⟨f, k', c', hk, hc, -⟩
  · rw [hk, hc]
    dsimp only
    rw [atEnd_eq h', blame_eq h']
    cases c'.atEnd <;> rfl
  · rw [hk, hc]

/-- What is carried out in a row of its own is carried out inside of another row. -/
lemma carriesOut_within {κ' ρ' : Type} [Place ι κ'] [Tracks ι κ' ρ'] (hm : CarriesOut m p)
    (h : At row k c) : CarriesOut (within k m : Run κ' α) (Parsing.within c p) := by
  intro row' k' c' h'
  unfold within settle Parsing.within
  rw [whole_eq hm h]
  cases p c with
  | ok a c₁ =>
    dsimp only
    cases c₁.atEnd with
    | true => exact .ok a h'
    | false => exact .error (c₁.blame c₁.unexpected) h'
  | error f c₁ => exact .error f h'

lemma carriesOut_fix {size : κ → Nat} {size' : Cursor ι → Nat}
    (hsize : ∀ {row : ρ} {k : κ} {c : Cursor ι}, At row k c → size k = size' c)
    {rules : (δ → Run κ α) → δ → Run κ α} {rules' : (δ → Parser ι α) → δ → Parser ι α}
    (h : ∀ m p, (∀ x, CarriesOut (m x) (p x)) → ∀ x, CarriesOut (rules m x) (rules' p x)) (x : δ) :
    CarriesOut (fix size rules x) (Parsing.fix size' rules' x) := by
  intro row k c hat
  induction hn : size' c using Nat.strongRecOn generalizing row k c x with
  | _ n ih =>
    rw [fix, Parsing.fix]
    refine h _ _ (fun y row' k' c' hat' => ?_) x hat
    rw [hsize hat, hsize hat']
    split
    · rename_i hlt
      exact ih _ (by rwa [← hn]) y hat' rfl
    · exact carriesOut_failUnexpected hat'

end Combinators

end Formulary.Checked
