/-
# What a parser fails with

A property of all failures that a parser ends with or leaves recorded, if only such failures were
recorded where it started.  What is said of an item depends on where the cursor stands, so the
property comes with one of the places that a cursor gets to, and with the texts that are said there.
Properties that hold of what the combinators say at such a place, and of a sum of failures from one
byte if they hold of its parts, go through every combinator.
-/
import Formulary.Proofs.Parsing.Results

namespace Formulary.Parsing

open Text

variable {ι α β γ κ : Type}

/-- The cursor stands at a place with a property, and all recorded failures have one. -/
structure Cursor.Records (K : Cursor ι → Prop) (P : Failure → Prop) (c : Cursor ι) : Prop where
  place : K c.fork
  failures : ∀ f ∈ c.pending, P f

/-- The failure of an outcome has the property, or the cursor has got to a place where all recorded
failures have it. -/
def Outcome.Blames (K : Cursor ι → Prop) (P : Failure → Prop) : Outcome ι α → Prop
  | .ok _ c => c.Records K P
  | .error f _ => P f

/-- From a place where all recorded failures have the property, the parser fails with one that has
it or gets to another such place. -/
def Blames (K : Cursor ι → Prop) (m : Parser ι α) (P : Failure → Prop) : Prop :=
  ∀ ⦃c⦄, c.Records K P → Outcome.Blames K P (m c)

/-- The property of the places stays when an item is passed.  That of the failures holds of all that
is said at such a place, be it a text of `S` there or that the input ended, and of every sum of
failures from one byte that have it. -/
structure Failure.Kept [Item ι] (K : Cursor ι → Prop) (S : Cursor ι → String → Prop)
    (P : Failure → Prop) : Prop where
  pass : ∀ c item rest, K c → c.rest = item :: rest → K (c.pass item rest)
  unexpected : ∀ c : Cursor ι, S c c.unexpected
  because : ∀ c text, K c → S c text → P (.because c.span text)
  endOfInput : ∀ c, K c → c.rest = [] → P (.endOfInput c.span)
  fatal : ∀ f, P f → P f.toFatal
  alternatives : ∀ fatal first rest, (∀ f ∈ first :: rest, P f) →
    (∀ f ∈ rest, f.startByte = first.startByte) →
    P ⟨first.span, .alternatives (first :: rest), fatal⟩

/-- Wherever an item is expected, it is said what was found instead. -/
def Expects [Item ι] (S : Cursor ι → String → Prop) (what : String) : Prop :=
  ∀ c : Cursor ι, S c s!"expected {what}, found {c.describeNext}"

variable {K : Cursor ι → Prop} {S : Cursor ι → String → Prop} {P : Failure → Prop}
  {m : Parser ι α} {c c' : Cursor ι}

/-! ## Recorded failures -/

lemma Cursor.Records.fork (h : c.Records K P) : c.fork.Records K P :=
  ⟨h.place, fun f hf => by cases hf⟩

lemma Cursor.Records.record (h : c.Records K P) {f : Failure} (hf : P f) :
    (c.record f).Records K P :=
  ⟨h.place, List.forall_mem_append.mpr ⟨h.failures, List.forall_mem_singleton.mpr hf⟩⟩

lemma Cursor.Records.adopt (h : c.Records K P) (h' : c'.Records K P) :
    (c.adopt c').Records K P := by
  unfold Cursor.adopt
  split
  · exact ⟨h'.place, List.forall_mem_append.mpr ⟨h.failures, h'.failures⟩⟩
  · exact h'

section Said

variable [Item ι] (hP : Failure.Kept K S P) (h : c.Records K P)

include hP h

lemma Cursor.Records.pass {item : Located ι} {rest : List (Located ι)}
    (hrest : c.rest = item :: rest) : (c.pass item rest).Records K P :=
  ⟨hP.pass c.fork item rest h.place hrest, fun f hf => by cases hf⟩

lemma Cursor.Records.because {text : String} (hS : S c.fork text) : P (.because c.span text) :=
  hP.because c.fork text h.place hS

lemma Cursor.Records.unexpected : P (.because c.span c.unexpected) :=
  h.because hP (hP.unexpected c.fork)

lemma Cursor.Records.expected {what : String} (hS : Expects S what) :
    P (.because c.span s!"expected {what}, found {c.describeNext}") :=
  h.because hP (hS c.fork)

lemma Cursor.Records.endOfInput (hrest : c.rest = []) : P (.endOfInput c.span) :=
  hP.endOfInput c.fork h.place hrest

omit h in
lemma Failure.Kept.summary {first : Failure} {rest : List Failure} (hall : ∀ f ∈ first :: rest, P f)
    (hbytes : ∀ f ∈ rest, f.startByte = first.startByte) : P (first.summary rest) := by
  cases rest with
  | nil => exact hall first List.mem_cons_self
  | cons f fs => exact hP.alternatives _ _ _ hall hbytes

/-- The failure that is reported sums up recorded ones that start at the same byte. -/
lemma Cursor.Records.blame : P (c.blame c.unexpected) := by
  unfold Cursor.blame
  cases hf : Failure.furthest? c.pending with
  | none => exact h.unexpected hP
  | some f =>
    unfold Failure.furthest? at hf
    dsimp only at hf
    split at hf
    · cases hf
    · rename_i first rest hfirst
      cases hf
      have hmem : ∀ f ∈ first :: rest, f ∈ c.pending ∧
          f.startByte = c.pending.foldl (fun n f => max n f.startByte) 0 := by
        intro f hf
        rw [← hfirst] at hf
        exact (List.mem_filter.mp (List.mem_eraseDups.mp hf)).imp_right beq_iff_eq.mp
      refine hP.summary (fun f hf => h.failures f (hmem f hf).1) fun f hf => ?_
      exact (hmem f (List.mem_cons_of_mem _ hf)).2.trans (hmem first List.mem_cons_self).2.symm

end Said

/-! ## Steps -/

lemma blames_pure (a : α) : Blames K (pure a : Parser ι α) P := fun _ hc => hc

lemma blames_throw {f : Failure} (hf : P f) : Blames K (throw f : Parser ι α) P := fun _ _ => hf

lemma blames_failHere [Item ι] (hP : Failure.Kept K S P) {text : String} (hS : ∀ c, S c text) :
    Blames K (failHere text : Parser ι α) P := fun c hc => hc.because hP (hS c.fork)

lemma blames_expected [Item ι] (hP : Failure.Kept K S P) {what : String} (hS : Expects S what) :
    Blames K (expected what : Parser ι α) P := fun _ hc => hc.expected hP hS

/-- The item that is looked at is the one whose place is given in what is said of it. -/
lemma blames_peek_bind [Item ι] (hP : Failure.Kept K S P) {f : Located ι → Parser ι α}
    (hf : ∀ item c, c.Records K P → c.span = item.span → Outcome.Blames K P (f item c)) :
    Blames K (peek >>= f) P := by
  intro c hc
  cases hrest : c.rest with
  | nil =>
    have hpeek : peek c = .error (.endOfInput c.span) c := by rw [peek, hrest]
    show Outcome.Blames K P (EStateM.bind peek f c)
    rw [EStateM.bind, hpeek]
    exact hc.endOfInput hP hrest
  | cons item rest =>
    have hpeek : peek c = .ok item c := by rw [peek, hrest]
    show Outcome.Blames K P (EStateM.bind peek f c)
    rw [EStateM.bind, hpeek]
    exact hf item c hc (by rw [Cursor.span, hrest])

lemma blames_next [Item ι] (hP : Failure.Kept K S P) : Blames K (next : Parser ι (Located ι)) P := by
  intro c hc
  unfold next
  split
  · exact hc.endOfInput hP ‹_›
  · rename_i hrest
    exact hc.pass hP hrest

lemma blames_satisfying [Item ι] (hP : Failure.Kept K S P) {what : String} (hS : Expects S what)
    (holds : ι → Bool) : Blames K (satisfying what holds) P := by
  intro c hc
  unfold satisfying
  split
  · rename_i hrest
    split
    · exact hc.pass hP hrest
    · exact blames_expected hP hS hc
  · exact blames_expected hP hS hc

/-- The second step may rely on what the first one gives. -/
lemma blames_bind_of_gives {f : α → Parser ι β} {Q : α → Prop} (h : Blames K m P)
    (hgives : Gives m Q) (hf : ∀ a, Q a → Blames K (f a) P) : Blames K (m >>= f) P := by
  intro c hc
  have hm := h hc
  show Outcome.Blames K P (EStateM.bind m f c)
  unfold EStateM.bind
  cases hrun : m c with
  | ok a c' =>
    rw [hrun] at hm
    exact hf a (hgives hrun) hm
  | error e c' =>
    rw [hrun] at hm
    exact hm

lemma blames_bind {f : α → Parser ι β} (h : Blames K m P) (hf : ∀ a, Blames K (f a) P) :
    Blames K (m >>= f) P :=
  blames_bind_of_gives h (gives_true m) fun a _ => hf a

/-- Looking at the cursor shows a place with the property. -/
lemma blames_get {f : Cursor ι → Parser ι β} (hf : ∀ c, c.Records K P → Blames K (f c) P) :
    Blames K (get >>= f) P :=
  fun c hc => hf c hc hc

lemma blames_map (f : α → β) (h : Blames K m P) : Blames K (f <$> m) P := by
  rw [map_eq_pure_bind]
  exact blames_bind h fun a => blames_pure (f a)

/-! ## Choices and repetition -/

lemma blames_optional (h : Blames K m P) : Blames K (optional m) P := by
  intro c hc
  have hm := h hc.fork
  unfold optional
  cases hrun : m c.fork with
  | ok a c' =>
    rw [hrun] at hm
    exact hc.adopt hm
  | error f c' =>
    rw [hrun] at hm
    dsimp only
    split
    · exact hm
    · exact hc.record hm

lemma blames_choice [Item ι] (hP : Failure.Kept K S P) {ms : List (Parser ι α)}
    (h : ∀ m ∈ ms, Blames K m P) : Blames K (choice ms) P := by
  induction ms with
  | nil => exact fun c hc => hc.blame hP
  | cons m ms ih =>
    rw [List.forall_mem_cons] at h
    rw [choice]
    refine blames_bind (blames_optional h.1) ?_
    rintro (_ | a)
    · exact ih h.2
    · exact blames_pure a

lemma blames_notAhead [Item ι] (hP : Failure.Kept K S P) {forbidden : Parser ι β}
    (hforbidden : Blames K forbidden P) (h : Blames K m P) : Blames K (notAhead forbidden m) P := by
  intro c hc
  have hahead := hforbidden hc.fork
  unfold notAhead
  cases hrun : forbidden c.fork with
  | ok b c' => exact hc.unexpected hP
  | error f c' =>
    rw [hrun] at hahead
    dsimp only
    split
    · exact hahead
    · exact h hc

lemma blames_prepend {r : Outcome ι (List α)} (h : r.Blames K P) (a : α) :
    (r.prepend a).Blames K P := by
  cases r <;> exact h

lemma blames_many (h : Blames K m P) : Blames K (many m) P := by
  have hm {c : Cursor ι} {o : Outcome ι α} (hc : c.Records K P) (hrun : m c.fork = o) :
      o.Blames K P := hrun ▸ h hc.fork
  refine many_rounds (motive := fun c o => c.Records K P → Outcome.Blames K P o) ?_ ?_ ?_ ?_
  · exact fun c f c₁ hrun _ hc => hm hc hrun
  · exact fun c f c₁ hrun _ hc => hc.record (hm hc hrun)
  · exact fun c a c₁ _ _ hc => hc
  · exact fun c a c₁ hrun _ ih hc => blames_prepend (ih (hc.adopt (hm hc hrun))) a

lemma blames_collect {step : Parser ι (Option (α × Bool))} (h : Blames K step P) :
    Blames K (collect step) P := by
  have hstep {c : Cursor ι} {o : Outcome ι (Option (α × Bool))} (hc : c.Records K P)
      (hrun : step c = o) : o.Blames K P := hrun ▸ h hc
  refine collect_rounds (motive := fun c o => c.Records K P → Outcome.Blames K P o) ?_ ?_ ?_ ?_
  · exact fun c f c₁ hrun hc => hstep hc hrun
  · exact fun c c₁ hrun hc => hstep hc hrun
  · exact fun c a goOn c₁ hrun _ hc => hstep hc hrun
  · exact fun c a c₁ hrun _ ih hc => blames_prepend (ih (hstep hc hrun)) a

lemma blames_separated {element : Parser ι (Option α)} {separator : Parser ι β}
    (h : Blames K element P) (hseparator : Blames K separator P) :
    Blames K (separated element separator) P := by
  refine blames_collect (blames_bind h ?_)
  rintro (_ | a)
  · exact blames_pure _
  · exact blames_bind (blames_optional hseparator) fun o => blames_pure _

/-- Running out of items while looking for an end is fatal. -/
lemma blames_takeUntil [Item ι] (hP : Failure.Kept K S P) {stop : Parser ι β}
    (h : Blames K stop P) : Blames K (takeUntil stop) P := by
  refine takeUntil_rounds (motive := fun c o => c.Records K P → Outcome.Blames K P o) ?_ ?_ ?_ ?_
  · exact fun c b c₁ _ hc => hc
  · intro c f c₁ hrun _ hc
    have hstop := h hc.fork
    rwa [hrun] at hstop
  · exact fun c f c₁ _ _ hrest hc => hP.fatal _ (hc.endOfInput hP hrest)
  · exact fun c f c₁ item rest _ _ hrest ih hc => blames_prepend (ih (hc.pass hP hrest)) item

/-! ## Stretches of items -/

section Stretches

variable [Item ι] (hP : Failure.Kept K S P)

include hP

lemma blames_takeItems (n : Nat) : Blames K (takeItems n : Parser ι (List ι)) P := by
  induction n with
  | zero => exact blames_pure _
  | succ n ih =>
    exact blames_bind (blames_next hP) fun _ => blames_bind ih fun _ => blames_pure _

lemma blames_matching (p : Pattern ι) (hS : Expects S s!"/{p.source}/") :
    Blames K (matching p) P := by
  intro c hc
  unfold matching
  split
  · exact blames_takeItems hP _ hc
  · exact blames_expected hP hS hc

/-- Fixed text that is not there is missed where it should begin. -/
lemma blames_literal [BEq ι] {shown : String} (hS : ∀ c, S c s!"expected `{shown}`")
    (wanted : List ι) : Blames K (literal shown wanted) P := by
  have hgo : ∀ {f : Failure}, P f → ∀ ws : List ι, Blames K (literal.go wanted f ws) P := by
    intro f hf ws
    induction ws with
    | nil => exact fun c hc => hc
    | cons w ws ih =>
      intro c hc
      rw [literal.go]
      split
      · exact hf
      · rename_i hrest
        split
        · exact ih (hc.pass hP hrest)
        · exact hf
  exact fun c hc => hgo (hc.because hP (hS c.fork)) wanted hc

end Stretches

lemma blames_delimited {opening : Parser ι β} {closing : Parser ι γ} (hopening : Blames K opening P)
    (hclosing : Blames K closing P) (h : Blames K m P) : Blames K (delimited opening closing m) P :=
  blames_bind hopening fun _ => blames_bind h fun _ => blames_bind hclosing fun _ => blames_pure _

/-! ## Groups and recursion -/

lemma blames_within [Item ι] (hP : Failure.Kept K S P) {inner : Cursor ι} (hinner : inner.Records K P)
    (h : Blames K m P) : Blames K (within inner m) P := by
  intro c hc
  have hm := h hinner
  unfold within
  cases hrun : m inner with
  | ok a c' =>
    rw [hrun] at hm
    dsimp only
    split
    · exact hc
    · exact Cursor.Records.blame hP hm
  | error f c' =>
    rw [hrun] at hm
    exact hm

/-- A rule fails as demanded if the rules do under the assumption that every rule does. -/
theorem blames_fix [Item ι] (hP : Failure.Kept K S P) {size : Cursor ι → Nat}
    {rules : (κ → Parser ι α) → κ → Parser ι α}
    (h : ∀ g, (∀ k, Blames K (g k) P) → ∀ k, Blames K (rules g k) P) (k : κ) :
    Blames K (fix size rules k) P := fun c =>
  fix_induction (motive := fun _ c o => c.Records K P → Outcome.Blames K P o)
    (fun _ _ hc => hc.unexpected hP) (fun g hg k c => @h g (fun k c => hg k c) k c) k c

end Formulary.Parsing
