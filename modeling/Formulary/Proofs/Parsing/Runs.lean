/-
# Runs of rules

How a rule runs, told loop by loop: a repetition goes on while its rule moves the offset, and the
search for a stop passes one item after the other until there is none.  A run is finite, so that a
rule that repeats something forever has none.  Every rule has a run from every cursor, exactly
one, and it ends as the parser of the rule does.
-/
import Formulary.Proofs.Parsing.Onward
import Formulary.Proofs.Parsing.Repetition

namespace Formulary.Parsing

open Text

variable {ι α β γ : Type}

/-- What can come of running something at a cursor. -/
abbrev Behavior (ι α : Type) := Cursor ι → Outcome ι α → Prop

/-- What comes of running a parser. -/
def does (m : Parser ι α) : Behavior ι α := fun c o => m c = o

/-! ## Steps and loops -/

/-- The same with another value. -/
inductive Yields (f : α → β) (R : Behavior ι α) : Behavior ι β
  | ok {c c' : Cursor ι} {a : α} (h : R c (.ok a c')) : Yields f R c (.ok (f a) c')
  | failed {c c' : Cursor ι} {e : Failure} (h : R c (.error e c')) : Yields f R c (.error e c')

/-- One after the other; what was passed before a failure stays passed. -/
inductive InTurn : List (Behavior ι α) → Behavior ι (List α)
  | nil {c : Cursor ι} : InTurn [] c (.ok [] c)
  | cons {R : Behavior ι α} {Rs : List (Behavior ι α)} {c c' : Cursor ι} {a : α}
      {o : Outcome ι (List α)} (h : R c (.ok a c')) (hrest : InTurn Rs c' o) :
      InTurn (R :: Rs) c (o.prepend a)
  | failed {R : Behavior ι α} {Rs : List (Behavior ι α)} {c c' : Cursor ι} {f : Failure}
      (h : R c (.error f c')) : InTurn (R :: Rs) c (.error f c')

/-- The value of the third, which is run after the first and before the second. -/
inductive Enclosed (R : Behavior ι β) (S : Behavior ι γ) (T : Behavior ι α) : Behavior ι α
  | ok {c c₁ c₂ c₃ : Cursor ι} {b : β} {a : α} {g : γ} (hR : R c (.ok b c₁))
      (hT : T c₁ (.ok a c₂)) (hS : S c₂ (.ok g c₃)) : Enclosed R S T c (.ok a c₃)
  | opening {c c₁ : Cursor ι} {f : Failure} (hR : R c (.error f c₁)) :
      Enclosed R S T c (.error f c₁)
  | inner {c c₁ c₂ : Cursor ι} {b : β} {f : Failure} (hR : R c (.ok b c₁))
      (hT : T c₁ (.error f c₂)) : Enclosed R S T c (.error f c₂)
  | closing {c c₁ c₂ c₃ : Cursor ι} {b : β} {a : α} {f : Failure} (hR : R c (.ok b c₁))
      (hT : T c₁ (.ok a c₂)) (hS : S c₂ (.error f c₃)) : Enclosed R S T c (.error f c₃)

/-- On a fork, which is adopted after a success; a failure is recorded unless it is fatal. -/
inductive Tries (R : Behavior ι α) : Behavior ι (Option α)
  | ok {c c' : Cursor ι} {a : α} (h : R c.fork (.ok a c')) : Tries R c (.ok (some a) (c.adopt c'))
  | backs {c c' : Cursor ι} {f : Failure} (h : R c.fork (.error f c')) (hf : f.fatal = false) :
      Tries R c (.ok none (c.record f))
  | fatal {c c' : Cursor ι} {f : Failure} (h : R c.fork (.error f c')) (hf : f.fatal = true) :
      Tries R c (.error f c)

/-- Each is tried until one succeeds. -/
inductive Chooses [Item ι] : List (Behavior ι α) → Behavior ι α
  | none {c : Cursor ι} : Chooses [] c (.error (c.blame c.unexpected) c)
  | taken {R : Behavior ι α} {Rs : List (Behavior ι α)} {c c' : Cursor ι} {a : α}
      (h : Tries R c (.ok (some a) c')) : Chooses (R :: Rs) c (.ok a c')
  | fatal {R : Behavior ι α} {Rs : List (Behavior ι α)} {c c' : Cursor ι} {f : Failure}
      (h : Tries R c (.error f c')) : Chooses (R :: Rs) c (.error f c')
  | next {R : Behavior ι α} {Rs : List (Behavior ι α)} {c c' : Cursor ι} {o : Outcome ι α}
      (h : Tries R c (.ok .none c')) (hrest : Chooses Rs c' o) : Chooses (R :: Rs) c o

/-- Unless the first would succeed on a fork, the second is run. -/
inductive NotBefore [Item ι] (R : Behavior ι β) (S : Behavior ι α) : Behavior ι α
  | found {c c' : Cursor ι} {b : β} (h : R c.fork (.ok b c')) :
      NotBefore R S c (.error (Failure.because c.span c.unexpected) c)
  | fatal {c c' : Cursor ι} {f : Failure} (h : R c.fork (.error f c')) (hf : f.fatal = true) :
      NotBefore R S c (.error f c)
  | goesOn {c c' : Cursor ι} {f : Failure} {o : Outcome ι α} (h : R c.fork (.error f c'))
      (hf : f.fatal = false) (hS : S c o) : NotBefore R S c o

/-- The loop of a repetition: it goes on after a success that moved the offset. -/
inductive Repeats (R : Behavior ι α) : Behavior ι (List α)
  | stays {c c' : Cursor ι} {a : α} (h : R c.fork (.ok a c')) (hstays : c'.offset = c.offset) :
      Repeats R c (.ok [] c)
  | again {c c' : Cursor ι} {a : α} {o : Outcome ι (List α)} (h : R c.fork (.ok a c'))
      (hmoves : c'.offset ≠ c.offset) (hrest : Repeats R (c.adopt c') o) :
      Repeats R c (o.prepend a)
  | backs {c c' : Cursor ι} {f : Failure} (h : R c.fork (.error f c')) (hf : f.fatal = false) :
      Repeats R c (.ok [] (c.record f))
  | fatal {c c' : Cursor ι} {f : Failure} (h : R c.fork (.error f c')) (hf : f.fatal = true) :
      Repeats R c (.error f c)

/-- The loop of the search for a stop: an item is passed wherever the stop is not found. -/
inductive Seeks [Item ι] (R : Behavior ι β) : Behavior ι (List (Located ι))
  | found {c c' : Cursor ι} {b : β} (h : R c.fork (.ok b c')) : Seeks R c (.ok [] c)
  | fatal {c c' : Cursor ι} {f : Failure} (h : R c.fork (.error f c')) (hf : f.fatal = true) :
      Seeks R c (.error f c)
  | ends {c c' : Cursor ι} {f : Failure} (h : R c.fork (.error f c')) (hf : f.fatal = false)
      (hrest : c.rest = []) : Seeks R c (.error (Failure.endOfInput c.span).toFatal c)
  | passes {c c' : Cursor ι} {f : Failure} {item : Located ι} {rest : List (Located ι)}
      {o : Outcome ι (List (Located ι))} (h : R c.fork (.error f c')) (hf : f.fatal = false)
      (hrest : c.rest = item :: rest) (hmore : Seeks R (c.pass item rest) o) :
      Seeks R c (o.prepend item)

namespace Rule

variable [Item ι] [BEq ι]

mutual

/-- How a rule runs.  The rules for single items and stretches of them have no loop but the one
over what they are given. -/
def Runs : Rule ι → Behavior ι (Value ι)
  | sequence rules => Yields .list (InTurn (allRuns rules))
  | choice rules => Chooses (allRuns rules)
  | many rule => Yields .list (Repeats rule.Runs)
  | optional rule => Yields .option (Tries rule.Runs)
  | delimited opening closing inner => Enclosed opening.Runs closing.Runs inner.Runs
  | notAhead forbidden rule => NotBefore forbidden.Runs rule.Runs
  | takeUntil stop => Yields (fun items => .list (items.map (.item ·.value))) (Seeks stop.Runs)
  | next => does (next : Rule ι).parser
  | peek => does (peek : Rule ι).parser
  | nothing => does (nothing : Rule ι).parser
  | fail text => does (fail text : Rule ι).parser
  | fatal text => does (fatal text : Rule ι).parser
  | record text => does (record text : Rule ι).parser
  | literal shown wanted => does (literal shown wanted : Rule ι).parser
  | matching pattern => does (matching pattern : Rule ι).parser
  | satisfying what holds => does (satisfying what holds : Rule ι).parser

/-- How each of the rules runs. -/
def allRuns : List (Rule ι) → List (Behavior ι (Value ι))
  | [] => []
  | rule :: rules => rule.Runs :: allRuns rules

end

end Rule

/-! ## What parsers do -/

/-- A behaviour is that of a parser if what the parser gives can come of it, and nothing else
can. -/
lemma eq_does {R : Behavior ι α} {m : Parser ι α} (hdoes : ∀ c, R c (m c))
    (honly : ∀ c o, R c o → m c = o) : R = does m := by
  funext c o
  refine propext ⟨honly c o, ?_⟩
  rintro rfl
  exact hdoes c

section Parsers

variable {m : Parser ι α}

lemma yields_does (f : α → β) (m : Parser ι α) : Yields f (does m) = does (f <$> m) := by
  have hmap (c : Cursor ι) : (f <$> m) c = EStateM.map f m c := rfl
  refine eq_does (fun c => ?_) (fun c o h => ?_)
  · rw [hmap, EStateM.map]
    cases hrun : m c with
    | ok a c' => exact .ok hrun
    | error e c' => exact .failed hrun
  · rw [hmap, EStateM.map]
    cases h with
    | ok h => rw [does] at h; rw [h]
    | failed h => rw [does] at h; rw [h]

lemma tries_does (m : Parser ι α) : Tries (does m) = does (optional m) := by
  refine eq_does (fun c => ?_) (fun c o h => ?_)
  · unfold Parsing.optional
    cases hrun : m c.fork with
    | ok a c' => exact .ok hrun
    | error f c' =>
      dsimp only
      split
      · rename_i hf
        exact .fatal hrun hf
      · rename_i hf
        exact .backs hrun (Bool.eq_false_iff.mpr hf)
  · unfold Parsing.optional
    cases h with
    | ok h => rw [does] at h; rw [h]
    | backs h hf => rw [does] at h; simp [h, hf]
    | fatal h hf => rw [does] at h; simp [h, hf]

lemma sequence_cons_apply (m : Parser ι α) (ms : List (Parser ι α)) (c : Cursor ι) :
    sequence (m :: ms) c = match m c with
      | .ok a c' => Outcome.prepend a (sequence ms c')
      | .error f c' => .error f c' := by
  show EStateM.bind m _ c = _
  unfold EStateM.bind
  cases m c with
  | error f c' => rfl
  | ok a c' =>
    show EStateM.bind (sequence ms) _ c' = _
    unfold EStateM.bind
    cases hrest : sequence ms c' <;> simp only [hrest] <;> rfl

lemma inTurn_does (ms : List (Parser ι α)) : InTurn (ms.map does) = does (sequence ms) := by
  refine eq_does (fun c => ?_) (fun c o h => ?_)
  · induction ms generalizing c with
    | nil => exact .nil
    | cons m ms ih =>
      rw [sequence_cons_apply]
      cases hrun : m c with
      | ok a c' => exact .cons hrun (ih c')
      | error f c' => exact .failed hrun
  · induction ms generalizing c o with
    | nil =>
      cases h
      rfl
    | cons m ms ih =>
      rw [sequence_cons_apply]
      cases h with
      | cons h hrest =>
        rw [does] at h
        rw [h]
        dsimp only
        rw [ih _ _ hrest]
      | failed h => rw [does] at h; rw [h]

lemma delimited_apply (opening : Parser ι β) (closing : Parser ι γ) (m : Parser ι α)
    (c : Cursor ι) :
    delimited opening closing m c = match opening c with
      | .ok _ c₁ => match m c₁ with
        | .ok a c₂ => match closing c₂ with
          | .ok _ c₃ => .ok a c₃
          | .error f c₃ => .error f c₃
        | .error f c₂ => .error f c₂
      | .error f c₁ => .error f c₁ := by
  show EStateM.bind opening _ c = _
  unfold EStateM.bind
  cases opening c with
  | error f c₁ => rfl
  | ok b c₁ =>
    show EStateM.bind m _ c₁ = _
    unfold EStateM.bind
    cases hm : m c₁ with
    | error f c₂ => simp only [hm]
    | ok a c₂ =>
      simp only [hm]
      show EStateM.bind closing _ c₂ = _
      unfold EStateM.bind
      cases closing c₂ <;> rfl

lemma enclosed_does (opening : Parser ι β) (closing : Parser ι γ) (m : Parser ι α) :
    Enclosed (does opening) (does closing) (does m) = does (delimited opening closing m) := by
  refine eq_does (fun c => ?_) (fun c o h => ?_)
  · rw [delimited_apply]
    cases hopening : opening c with
    | error f c₁ => exact .opening hopening
    | ok b c₁ =>
      cases hm : m c₁ with
      | error f c₂ => simpa only [hm] using Enclosed.inner hopening hm
      | ok a c₂ =>
        cases hclosing : closing c₂ with
        | error f c₃ => simpa only [hm, hclosing] using Enclosed.closing hopening hm hclosing
        | ok g c₃ => simpa only [hm, hclosing] using Enclosed.ok hopening hm hclosing
  · rw [delimited_apply]
    cases h with
    | ok hopening hm hclosing =>
      rw [does] at hopening hm hclosing
      simp only [hopening, hm, hclosing]
    | opening hopening =>
      rw [does] at hopening
      simp only [hopening]
    | inner hopening hm =>
      rw [does] at hopening hm
      simp only [hopening, hm]
    | closing hopening hm hclosing =>
      rw [does] at hopening hm hclosing
      simp only [hopening, hm, hclosing]

variable [Item ι]

lemma choice_cons_apply (m : Parser ι α) (ms : List (Parser ι α)) (c : Cursor ι) :
    choice (m :: ms) c = match optional m c with
      | .ok (some a) c' => .ok a c'
      | .ok none c' => choice ms c'
      | .error f c' => .error f c' := by
  rw [choice]
  show EStateM.bind (optional m) _ c = _
  unfold EStateM.bind
  cases optional m c with
  | error f c' => rfl
  | ok o c' => cases o <;> rfl

lemma chooses_does (ms : List (Parser ι α)) : Chooses (ms.map does) = does (choice ms) := by
  refine eq_does (fun c => ?_) (fun c o h => ?_)
  · induction ms generalizing c with
    | nil => exact .none
    | cons m ms ih =>
      have htries : Tries (does m) c (optional m c) := by rw [tries_does, does]
      rw [choice_cons_apply]
      cases hrun : optional m c with
      | error f c' => exact .fatal (hrun ▸ htries)
      | ok o c' =>
        cases o with
        | some a => exact .taken (hrun ▸ htries)
        | none => exact .next (hrun ▸ htries) (ih c')
  · induction ms generalizing c o with
    | nil =>
      cases h
      rfl
    | cons m ms ih =>
      rw [choice_cons_apply]
      cases h with
      | taken h => rw [tries_does, does] at h; rw [h]
      | fatal h => rw [tries_does, does] at h; rw [h]
      | next h hrest =>
        rw [tries_does, does] at h
        rw [h]
        exact ih _ _ hrest

lemma notBefore_does (forbidden : Parser ι β) (m : Parser ι α) :
    NotBefore (does forbidden) (does m) = does (notAhead forbidden m) := by
  refine eq_does (fun c => ?_) (fun c o h => ?_)
  · unfold notAhead
    cases hrun : forbidden c.fork with
    | ok b c' => exact .found hrun
    | error f c' =>
      dsimp only
      split
      · rename_i hf
        exact .fatal hrun hf
      · rename_i hf
        exact .goesOn hrun (Bool.eq_false_iff.mpr hf) rfl
  · unfold notAhead
    cases h with
    | found h => rw [does] at h; rw [h]; rfl
    | fatal h hf => rw [does] at h; simp [h, hf]
    | goesOn h hf hm =>
      rw [does] at h hm
      simp [h, hf, hm]

/-- The loop of a repetition ends: where the offset moves, fewer items are left. -/
lemma repeats_does (hwidth : ∀ i : ι, 0 < Item.width i) (hm : MovesOnward m) :
    Repeats (does m) = does (many m) := by
  -- the loop looks at the offset, the repetition at how many items are left
  have hmoves {c c' : Cursor ι} {a : α} (hrun : m c.fork = .ok a c') :
      c'.offset = c.offset ↔ ¬ c'.rest.length < c.rest.length := by
    have hfork := hm c.fork
    rw [hrun] at hfork
    exact Cursor.Onward.offset_eq_iff (c := c.fork) hwidth hfork
  refine eq_does (fun c => ?_) (fun c o h => ?_)
  · refine many_rounds (motive := fun c o => Repeats (does m) c o) ?_ ?_ ?_ ?_ c
    · exact fun c f c' hrun hf => .fatal hrun hf
    · exact fun c f c' hrun hf => .backs hrun hf
    · exact fun c a c' hrun hle => .stays hrun ((hmoves hrun).mpr hle)
    · exact fun c a c' hrun hlt ih => .again hrun (fun heq => (hmoves hrun).mp heq hlt) ih
  · induction h with
    | stays h hstays =>
      rw [does] at h
      exact many_of_idle h ((hmoves h).mp hstays)
    | again h hne _ ih =>
      rw [does] at h
      rw [many_of_ok h (by_contra fun hle => hne ((hmoves h).mpr hle)), ih]
    | backs h hf =>
      rw [does] at h
      exact many_of_error h hf
    | fatal h hf =>
      rw [does] at h
      exact many_of_fatal h hf

/-- The search for a stop ends: with every item it passes fewer are left. -/
lemma seeks_does (stop : Parser ι β) : Seeks (does stop) = does (takeUntil stop) := by
  refine eq_does (fun c => ?_) (fun c o h => ?_)
  · refine takeUntil_rounds (motive := fun c o => Seeks (does stop) c o) ?_ ?_ ?_ ?_ c
    · exact fun c b c' hrun => .found hrun
    · exact fun c f c' hrun hf => .fatal hrun hf
    · exact fun c f c' hrun hf hrest => .ends hrun hf hrest
    · exact fun c f c' item rest hrun hf hrest ih => .passes hrun hf hrest ih
  · induction h with
    | found h =>
      rw [does] at h
      exact takeUntil_of_ok h
    | fatal h hf =>
      rw [does] at h
      exact takeUntil_of_fatal h hf
    | ends h hf hrest =>
      rw [does] at h
      exact takeUntil_of_nil h hf hrest
    | passes h hf hrest _ ih =>
      rw [does] at h
      rw [takeUntil_of_cons h hf hrest, ih]

end Parsers

/-! ## What rules do -/

section Rules

variable [Item ι] [BEq ι]

/-- A rule runs as its parser does, loop by loop. -/
theorem Rule.runs_eq (hwidth : ∀ i : ι, 0 < Item.width i) :
    ∀ rule : Rule ι, rule.Runs = does rule.parser
  | .sequence rules => by
    rw [Rule.Runs, allRuns_eq rules, inTurn_does, yields_does, Rule.parser]
  | .choice rules => by rw [Rule.Runs, allRuns_eq rules, chooses_does, Rule.parser]
  | .many rule => by
    rw [Rule.Runs, rule.runs_eq hwidth, repeats_does hwidth rule.movesOnward, yields_does,
      Rule.parser]
  | .optional rule => by
    rw [Rule.Runs, rule.runs_eq hwidth, tries_does, yields_does, Rule.parser]
  | .delimited opening closing inner => by
    rw [Rule.Runs, opening.runs_eq hwidth, closing.runs_eq hwidth, inner.runs_eq hwidth,
      enclosed_does, Rule.parser]
  | .notAhead forbidden rule => by
    rw [Rule.Runs, forbidden.runs_eq hwidth, rule.runs_eq hwidth, notBefore_does, Rule.parser]
  | .takeUntil stop => by
    rw [Rule.Runs, stop.runs_eq hwidth, seeks_does, yields_does, Rule.parser]
  | .next | .peek | .nothing | .fail _ | .fatal _ | .record _ | .literal _ _ | .matching _
  | .satisfying _ _ => by rw [Rule.Runs]
where
  /-- The same of several rules. -/
  allRuns_eq : ∀ rules : List (Rule ι), Rule.allRuns rules = (Rule.parsers rules).map does
  | [] => by rw [Rule.allRuns, Rule.parsers, List.map_nil]
  | rule :: rules => by
    rw [Rule.allRuns, Rule.parsers, List.map_cons, rule.runs_eq hwidth, allRuns_eq rules]

end Rules

/-- Every rule, however it is made up, has exactly one run from every cursor that runs come to.
The run does not move the offset back or behind the end of the row, and if it leaves it where it
is, what was recorded before is still there, before what was recorded since.  Over the characters
of a text, runs come only to ends of characters, and the positions kept there are those that
counting from the beginning gives. -/
theorem Rule.run_spec :
    (∀ {ι : Type} [Item ι] [BEq ι], (∀ i : ι, 0 < Item.width i) →
      ∀ (items : List (Located ι)) (span : Span) (c : Cursor ι),
        Reached (.before items span) c → ∀ rule : Rule ι,
          (∃! o, rule.Runs c o) ∧ ∀ o, rule.Runs c o →
            o = rule.parser c ∧ c.offset ≤ o.cursor.offset ∧
            o.cursor.offset ≤ totalWidth items ∧
            (o.cursor.offset = c.offset → c.pending <+: o.cursor.pending)) ∧
    ∀ (text : List Char) (c : Cursor Char), Reached (Cursor.ofText text) c →
      ∃ pre post, Between c text pre post := by
  refine ⟨fun {ι} _ _ hwidth items span c hc rule => ?_, fun text c hc => hc.between⟩
  have hruns : ∀ o, rule.Runs c o ↔ rule.parser c = o := fun o => by
    rw [rule.runs_eq hwidth, does]
  refine ⟨⟨rule.parser c, (hruns _).mpr rfl, fun o ho => ((hruns o).mp ho).symm⟩, fun o ho => ?_⟩
  obtain rfl := (hruns o).mp ho
  obtain ⟨passed, hpassed⟩ := rule.movesOnward c
  refine ⟨rfl, ?_, (hc.run rule).offset_le, fun hoffset => ?_⟩
  · rw [hpassed.offset_eq]
    exact Nat.le_add_right _ _
  · exact hpassed.pending_prefix ((hpassed.offset_eq_iff hwidth).mp hoffset)

lemma width_pos_char (d : Char) : 0 < Item.width d := d.utf8Size_pos

/-- A digit, or nothing, as many times as possible: on a letter this succeeds without passing
anything, and that ends the repetition. -/
theorem Rule.run_of_idle_repetition :
    let rule : Rule Char := .many (.optional (.satisfying "a digit" Char.isDigit))
    let c := Cursor.ofText ['a']
    Reached (.before (locate {} ['a']) ⟨{}, ⟨1, 1, 2⟩⟩) c ∧ rule.Runs c (.ok (.list []) c) ∧
      (∃! o, rule.Runs c o) ∧ ∃ pre post, Between c ['a'] pre post := by
  intro rule c
  have hc : Reached (.before (locate {} ['a']) ⟨{}, ⟨1, 1, 2⟩⟩) c := .first
  have hdigit : (Rule.satisfying "a digit" Char.isDigit).Runs c.fork.fork
      (expected "a digit" c) := rfl
  have hinner : (Rule.optional (.satisfying "a digit" Char.isDigit)).Runs c.fork
      (.ok (.option none) (c.fork.record (Failure.because c.span
        s!"expected a digit, found {c.describeNext}"))) :=
    .ok (.backs hdigit rfl)
  refine ⟨hc, .ok (.stays hinner rfl), (run_spec.1 width_pos_char _ _ c hc rule).1,
    run_spec.2 ['a'] c .first⟩

end Formulary.Parsing
