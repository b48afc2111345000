/-
# Fatal failures

Rules run with a log that says when the run of a rule starts, on whatever fork, and how it ends.
Keeping the log changes nothing about what a rule gives.  Once some run ends in a fatal failure,
no run starts any more, and all runs under way end in the same failure, the whole run last.
-/
import Formulary.Proofs.Parsing.Runs

namespace Formulary.Parsing

open Text

variable {ι α β γ : Type}

/-! ## Logs -/

/-- What happens while rules run. -/
inductive Event (ι : Type) where
  /-- The run of a rule starts. -/
  | started (rule : Rule ι) (c : Cursor ι)
  /-- The run of a rule ends. -/
  | ended (rule : Rule ι) (o : Outcome ι (Value ι))

/-- What a run gives, and what happened in it, in this order. -/
structure Logged (ι α : Type) where
  /-- What the run gives. -/
  outcome : Outcome ι α
  /-- What happened, the first event first. -/
  log : List (Event ι)

/-- A parser that keeps a log. -/
abbrev Watched (ι α : Type) := Cursor ι → Logged ι α

/-- Nothing happens that is logged. -/
def Logged.quiet (o : Outcome ι α) : Logged ι α := ⟨o, []⟩

/-- Goes on after a run, depending on what it gives. -/
def Logged.andThen (r : Logged ι α) (k : Outcome ι α → Logged ι β) : Logged ι β :=
  ⟨(k r.outcome).outcome, r.log ++ (k r.outcome).log⟩

open Logged

namespace Watched

/-- The parser without its log. -/
def parser (w : Watched ι α) : Parser ι α := fun c => (w c).outcome

/-- Any parser, without a look into its run. -/
def ofParser (m : Parser ι α) : Watched ι α := fun c => quiet (m c)

/-- The same with another value. -/
def map (g : α → β) (w : Watched ι α) : Watched ι β := fun c =>
  (w c).andThen fun
    | .ok a c' => quiet (.ok (g a) c')
    | .error f c' => quiet (.error f c')

/-- Logs the run as that of a rule. -/
def named (rule : Rule ι) (w : Watched ι (Value ι)) : Watched ι (Value ι) := fun c =>
  ⟨(w c).outcome, .started rule c :: (w c).log ++ [.ended rule (w c).outcome]⟩

/-- One after the other. -/
def sequence : List (Watched ι α) → Watched ι (List α)
  | [], c => quiet (.ok [] c)
  | w :: ws, c => (w c).andThen fun
    | .ok a c' => (sequence ws c').andThen fun o => quiet (o.prepend a)
    | .error f c' => quiet (.error f c')

/-- Runs `inner` between `opening` and `closing`. -/
def delimited (opening : Watched ι β) (closing : Watched ι γ) (inner : Watched ι α) :
    Watched ι α := fun c =>
  (opening c).andThen fun
    | .error f c₁ => quiet (.error f c₁)
    | .ok _ c₁ => (inner c₁).andThen fun
      | .error f c₂ => quiet (.error f c₂)
      | .ok a c₂ => (closing c₂).andThen fun
        | .error f c₃ => quiet (.error f c₃)
        | .ok _ c₃ => quiet (.ok a c₃)

/-- Tries a parser on a fork. -/
def optional (w : Watched ι α) : Watched ι (Option α) := fun c =>
  (w c.fork).andThen fun
    | .ok a c' => quiet (.ok (some a) (c.adopt c'))
    | .error f _ => quiet (if f.fatal then .error f c else .ok none (c.record f))

/-- As many times as possible. -/
def many (w : Watched ι α) : Watched ι (List α) := fun c =>
  (w c.fork).andThen fun
    | .ok a c' =>
      if c'.rest.length < c.rest.length then
        (many w (c.adopt c')).andThen fun o => quiet (o.prepend a)
      else quiet (.ok [] c)
    | .error f _ => quiet (if f.fatal then .error f c else .ok [] (c.record f))
termination_by c => c.rest.length
decreasing_by simpa

section Items

variable [Item ι]

/-- The first that succeeds. -/
def choice : List (Watched ι α) → Watched ι α
  | [], c => quiet (.error (c.blame c.unexpected) c)
  | w :: ws, c => (optional w c).andThen fun
    | .ok (some a) c' => quiet (.ok a c')
    | .ok none c' => choice ws c'
    | .error f c' => quiet (.error f c')

/-- The second, unless the first would succeed. -/
def notAhead (forbidden : Watched ι β) (w : Watched ι α) : Watched ι α := fun c =>
  (forbidden c.fork).andThen fun
    | .ok _ _ => quiet (failHere c.unexpected c)
    | .error f _ => if f.fatal then quiet (.error f c) else w c

/-- Passes items up to where `stop` matches. -/
def takeUntil (stop : Watched ι β) : Watched ι (List (Located ι)) := fun c =>
  (stop c.fork).andThen fun
    | .ok _ _ => quiet (.ok [] c)
    | .error f _ =>
      if f.fatal then quiet (.error f c)
      else
        match _here : c.rest with
        | [] => quiet (.error (Failure.endOfInput c.span).toFatal c)
        | item :: rest =>
          (takeUntil stop (c.pass item rest)).andThen fun o => quiet (o.prepend item)
termination_by c => c.rest.length
decreasing_by simp [Cursor.pass, _here]

end Items

end Watched

namespace Rule

variable [Item ι] [BEq ι]

mutual

/-- The parser of a rule, with a log of its run and of the runs of all rules in it. -/
def watched : Rule ι → Watched ι (Value ι)
  | sequence rules => .named (sequence rules) ((Watched.sequence (allWatched rules)).map .list)
  | choice rules => .named (choice rules) (.choice (allWatched rules))
  | many rule => .named (many rule) ((Watched.many rule.watched).map .list)
  | optional rule => .named (optional rule) ((Watched.optional rule.watched).map .option)
  | delimited opening closing inner => .named (delimited opening closing inner)
      (.delimited opening.watched closing.watched inner.watched)
  | notAhead forbidden rule => .named (notAhead forbidden rule)
      (.notAhead forbidden.watched rule.watched)
  | takeUntil stop => .named (takeUntil stop) ((Watched.takeUntil stop.watched).map
      fun items => .list (items.map (.item ·.value)))
  | next => .named next (.ofParser (next : Rule ι).parser)
  | peek => .named peek (.ofParser (peek : Rule ι).parser)
  | nothing => .named nothing (.ofParser (nothing : Rule ι).parser)
  | fail text => .named (fail text) (.ofParser (fail text : Rule ι).parser)
  | fatal text => .named (fatal text) (.ofParser (fatal text : Rule ι).parser)
  | record text => .named (record text) (.ofParser (record text : Rule ι).parser)
  | literal shown wanted =>
      .named (literal shown wanted) (.ofParser (literal shown wanted : Rule ι).parser)
  | matching pattern => .named (matching pattern) (.ofParser (matching pattern : Rule ι).parser)
  | satisfying what holds =>
      .named (satisfying what holds) (.ofParser (satisfying what holds : Rule ι).parser)

/-- The parsers of the rules, one each, with logs. -/
def allWatched : List (Rule ι) → List (Watched ι (Value ι))
  | [] => []
  | rule :: rules => rule.watched :: allWatched rules

end

end Rule

/-! ## A log changes nothing -/

section Outcomes

@[simp] lemma Logged.outcome_quiet (o : Outcome ι α) : (quiet o).outcome = o := rfl

@[simp] lemma Logged.outcome_andThen (r : Logged ι α) (k : Outcome ι α → Logged ι β) :
    (r.andThen k).outcome = (k r.outcome).outcome := rfl

namespace Watched

@[simp] lemma parser_named (rule : Rule ι) (w : Watched ι (Value ι)) :
    (named rule w).parser = w.parser := rfl

@[simp] lemma parser_ofParser (m : Parser ι α) : (ofParser m).parser = m := rfl

@[simp] lemma parser_map (g : α → β) (w : Watched ι α) : (w.map g).parser = g <$> w.parser := by
  funext c
  have hmap : (g <$> w.parser) c = EStateM.map g w.parser c := rfl
  rw [hmap, EStateM.map]
  simp only [parser, map, outcome_andThen]
  cases (w c).outcome <;> rfl

@[simp] lemma parser_sequence (ws : List (Watched ι α)) :
    (sequence ws).parser = Parsing.sequence (ws.map parser) := by
  induction ws with
  | nil => rfl
  | cons w ws ih =>
    funext c
    rw [List.map_cons, sequence_cons_apply, ← ih]
    simp only [parser, sequence, outcome_andThen]
    cases (w c).outcome <;> rfl

@[simp] lemma parser_delimited (opening : Watched ι β) (closing : Watched ι γ)
    (inner : Watched ι α) : (delimited opening closing inner).parser =
      Parsing.delimited opening.parser closing.parser inner.parser := by
  funext c
  rw [delimited_apply]
  simp only [parser, delimited, outcome_andThen]
  cases (opening c).outcome with
  | error f c₁ => rfl
  | ok b c₁ =>
    simp only [outcome_andThen]
    cases (inner c₁).outcome with
    | error f c₂ => rfl
    | ok a c₂ =>
      simp only [outcome_andThen]
      cases (closing c₂).outcome <;> rfl

@[simp] lemma parser_optional (w : Watched ι α) :
    (optional w).parser = Parsing.optional w.parser := by
  funext c
  simp only [parser, optional, Parsing.optional, outcome_andThen]
  cases (w c.fork).outcome <;> rfl

@[simp] lemma parser_many (w : Watched ι α) : (many w).parser = Parsing.many w.parser := by
  funext c
  induction hk : c.rest.length using Nat.strongRecOn generalizing c with
  | _ k ih =>
    rw [Parsing.many, parser, many, outcome_andThen]
    simp only [parser] at ih ⊢
    cases (w c.fork).outcome with
    | error f c' => rfl
    | ok a c' =>
      dsimp only
      split
      · rename_i hlt
        have hlt : (c.adopt c').rest.length < k := by rwa [← hk, Cursor.rest_adopt]
        rw [outcome_andThen, ih _ hlt _ rfl]
        rfl
      · rfl

variable [Item ι]

@[simp] lemma parser_choice (ws : List (Watched ι α)) :
    (choice ws).parser = Parsing.choice (ws.map parser) := by
  induction ws with
  | nil => rfl
  | cons w ws ih =>
    funext c
    rw [List.map_cons, choice_cons_apply, ← ih, ← parser_optional]
    simp only [parser, choice, outcome_andThen]
    cases (optional w c).outcome with
    | error f c' => rfl
    | ok o c' => cases o <;> rfl

@[simp] lemma parser_notAhead (forbidden : Watched ι β) (w : Watched ι α) :
    (notAhead forbidden w).parser = Parsing.notAhead forbidden.parser w.parser := by
  funext c
  simp only [parser, notAhead, Parsing.notAhead, outcome_andThen]
  cases (forbidden c.fork).outcome with
  | ok b c' => rfl
  | error f c' => dsimp only; split <;> rfl

@[simp] lemma parser_takeUntil (stop : Watched ι β) :
    (takeUntil stop).parser = Parsing.takeUntil stop.parser := by
  funext ⟨rest, previous, start, stop', offset, pending⟩
  induction rest generalizing previous offset pending with
  | nil =>
    rw [Parsing.takeUntil, parser, takeUntil, outcome_andThen, parser]
    cases (stop _).outcome with
    | ok b c' => rfl
    | error f c' => dsimp only; split <;> rfl
  | cons item rest ih =>
    rw [Parsing.takeUntil, parser, takeUntil, outcome_andThen, parser]
    cases (stop _).outcome with
    | ok b c' => rfl
    | error f c' =>
      dsimp only
      split
      · rfl
      · exact congrArg (Outcome.prepend item) (ih _ _ _)

end Watched

/-- A rule gives what it gives without a log. -/
lemma Rule.parser_watched [Item ι] [BEq ι] : ∀ rule : Rule ι, rule.watched.parser = rule.parser
  | .sequence rules => by simp [Rule.watched, Rule.parser, allParser_watched rules]
  | .choice rules => by simp [Rule.watched, Rule.parser, allParser_watched rules]
  | .many rule => by simp [Rule.watched, Rule.parser, rule.parser_watched]
  | .optional rule => by simp [Rule.watched, Rule.parser, rule.parser_watched]
  | .delimited opening closing inner => by
    simp [Rule.watched, Rule.parser, opening.parser_watched, closing.parser_watched,
      inner.parser_watched]
  | .notAhead forbidden rule => by
    simp [Rule.watched, Rule.parser, forbidden.parser_watched, rule.parser_watched]
  | .takeUntil stop => by simp [Rule.watched, Rule.parser, stop.parser_watched]
  | .next | .peek | .nothing | .fail _ | .fatal _ | .record _ | .literal _ _ | .matching _
  | .satisfying _ _ => by rw [Rule.watched, Watched.parser_named, Watched.parser_ofParser]
where
  /-- The same of several rules. -/
  allParser_watched : ∀ rules : List (Rule ι),
      (Rule.allWatched rules).map Watched.parser = Rule.parsers rules
  | [] => by rw [Rule.allWatched, Rule.parsers, List.map_nil]
  | rule :: rules => by
    rw [Rule.allWatched, Rule.parsers, List.map_cons, rule.parser_watched, allParser_watched rules]

end Outcomes

/-! ## After a fatal failure -/

/-- The fatal failure that the run of a rule ends in, if it ends in one. -/
def Event.fatal? : Event ι → Option Failure
  | .ended _ (.error f _) => if f.fatal then some f else none
  | _ => none

/-- What is given is not a fatal failure. -/
def Outcome.Open (o : Outcome ι α) : Prop := ∀ f c, o = .error f c → f.fatal = false

/-- No run in the log ends in a fatal failure. -/
def Logged.Calm (r : Logged ι α) : Prop := ∀ e ∈ r.log, e.fatal? = none

/-- Once a run ends in a fatal failure, all that happens is that runs end in it, and what is given
in the end is that failure. -/
def Steadfast (r : Logged ι α) : Prop :=
  ∃ before after, r.log = before ++ after ∧ (∀ e ∈ before, e.fatal? = none) ∧
    ∀ e ∈ after, ∃ f c, r.outcome = .error f c ∧ e.fatal? = some f

lemma Event.fatal?_eq_some_iff {e : Event ι} {f : Failure} :
    e.fatal? = some f ↔ f.fatal = true ∧ ∃ rule c, e = .ended rule (.error f c) := by
  constructor
  · intro h
    rcases e with ⟨rule, c⟩ | ⟨rule, _ | ⟨g, c⟩⟩
    · cases h
    · cases h
    · rw [Event.fatal?, Option.ite_none_right_eq_some] at h
      obtain ⟨hfatal, hg⟩ := h
      cases hg
      exact ⟨hfatal, rule, c, rfl⟩
  · rintro ⟨hfatal, rule, c, rfl⟩
    rw [Event.fatal?, if_pos hfatal]

lemma Outcome.not_open_iff {o : Outcome ι α} :
    ¬ o.Open ↔ ∃ f c, o = .error f c ∧ f.fatal = true := by
  simp only [Outcome.Open, not_forall, Bool.not_eq_false, exists_prop]

lemma Logged.Calm.steadfast {r : Logged ι α} (h : r.Calm) : Steadfast r :=
  ⟨r.log, [], by simp, h, by simp⟩

lemma steadfast_quiet (o : Outcome ι α) : Steadfast (quiet o) :=
  Logged.Calm.steadfast (by simp [Logged.Calm, quiet])

lemma Steadfast.calm {r : Logged ι α} (h : Steadfast r) (ho : r.outcome.Open) : r.Calm := by
  obtain ⟨before, after, hlog, hbefore, hafter⟩ := h
  intro e he
  rw [hlog, List.mem_append] at he
  rcases he with he | he
  · exact hbefore e he
  · obtain ⟨f, c, hf, hfatal⟩ := hafter e he
    exact absurd (Event.fatal?_eq_some_iff.mp hfatal).1 (Bool.eq_false_iff.mp (ho f c hf))

/-- A run is steadfast if what follows a fatal failure passes it on, and what follows anything
else is steadfast itself. -/
lemma Steadfast.andThen {r : Logged ι α} {k : Outcome ι α → Logged ι β} (h : Steadfast r)
    (hfatal : ∀ f c, r.outcome = .error f c → f.fatal = true →
      ∃ c', k (.error f c) = quiet (.error f c'))
    (hopen : r.outcome.Open → Steadfast (k r.outcome)) : Steadfast (r.andThen k) := by
  by_cases ho : r.outcome.Open
  · obtain ⟨before, after, hlog, hbefore, hafter⟩ := hopen ho
    refine ⟨r.log ++ before, after, ?_, ?_, hafter⟩
    · rw [Logged.andThen, hlog, List.append_assoc]
    · exact List.forall_mem_append.mpr ⟨h.calm ho, hbefore⟩
  · obtain ⟨f, c, hf, hfatal'⟩ := Outcome.not_open_iff.mp ho
    obtain ⟨c', hk⟩ := hfatal f c hf hfatal'
    obtain ⟨before, after, hlog, hbefore, hafter⟩ := h
    refine ⟨before, after, ?_, hbefore, fun e he => ?_⟩
    · rw [Logged.andThen, hf, hk, hlog, quiet, List.append_nil]
    · obtain ⟨g, d, hg, hgfatal⟩ := hafter e he
      cases hf.symm.trans hg
      exact ⟨f, c', by rw [outcome_andThen, hf, hk, outcome_quiet], hgfatal⟩

/-- What happens after a run ends in a fatal failure. -/
lemma Steadfast.after_fatal {r : Logged ι α} (h : Steadfast r) {before after : List (Event ι)}
    {e : Event ι} {f : Failure} (hlog : r.log = before ++ e :: after) (he : e.fatal? = some f) :
    (∃ c, r.outcome = .error f c) ∧ ∀ e' ∈ after, e'.fatal? = some f := by
  obtain ⟨calm, rest, hsplit, hcalm, hrest⟩ := h
  -- the event is not among the first ones, so all that follow it are among the last ones
  have hmem : e ∈ rest ∧ ∀ e' ∈ after, e' ∈ rest := by
    rcases List.append_eq_append_iff.mp (hsplit.symm.trans hlog) with
      ⟨as, -, rfl⟩ | ⟨bs, rfl, heq⟩
    · exact ⟨by simp, fun e' he' => by simp [he']⟩
    · cases bs with
      | nil =>
        obtain rfl : e :: after = rest := heq
        exact ⟨List.mem_cons_self, fun e' he' => List.mem_cons_of_mem e he'⟩
      | cons b bs =>
        obtain ⟨rfl, -⟩ := List.cons.inj heq
        rw [hcalm e (by simp)] at he
        cases he
  obtain ⟨g, c, hout, hg⟩ := hrest e hmem.1
  obtain rfl := Option.some.inj (he.symm.trans hg)
  refine ⟨⟨c, hout⟩, fun e' he' => ?_⟩
  obtain ⟨g', c', hout', hg'⟩ := hrest e' (hmem.2 e' he')
  cases hout.symm.trans hout'
  exact hg'

namespace Watched

/-- Every run is steadfast. -/
def Unswerving (w : Watched ι α) : Prop := ∀ c, Steadfast (w c)

lemma unswerving_ofParser (m : Parser ι α) : (ofParser m).Unswerving := fun _ => steadfast_quiet _

variable {w : Watched ι α} {ws : List (Watched ι α)}

lemma Unswerving.named {w : Watched ι (Value ι)} (h : w.Unswerving) (rule : Rule ι) :
    (named rule w).Unswerving := by
  intro c
  by_cases ho : (w c).outcome.Open
  · have hcalm := (h c).calm ho
    refine Logged.Calm.steadfast fun e he => Option.eq_none_iff_forall_ne_some.mpr fun f hf => ?_
    obtain ⟨hfatal, rule', c', rfl⟩ := Event.fatal?_eq_some_iff.mp hf
    rw [Watched.named, List.mem_append, List.mem_cons, List.mem_singleton] at he
    rcases he with (he | he) | he
    · cases he
    · rw [hcalm _ he] at hf
      cases hf
    · obtain ⟨-, hend⟩ := Event.ended.inj he
      exact Bool.eq_false_iff.mp (ho f c' hend.symm) hfatal
  · obtain ⟨f, c', hf, hfatal⟩ := Outcome.not_open_iff.mp ho
    obtain ⟨before, after, hlog, hbefore, hafter⟩ := h c
    refine ⟨.started rule c :: before, after ++ [.ended rule (w c).outcome], ?_, ?_, ?_⟩
    · rw [Watched.named, hlog, List.cons_append, List.cons_append, List.append_assoc]
    · exact List.forall_mem_cons.mpr ⟨rfl, hbefore⟩
    · refine List.forall_mem_append.mpr ⟨hafter, List.forall_mem_singleton.mpr ⟨f, c', hf, ?_⟩⟩
      exact Event.fatal?_eq_some_iff.mpr ⟨hfatal, rule, c', by rw [hf]⟩

lemma Unswerving.map (h : w.Unswerving) (g : α → β) : (w.map g).Unswerving := by
  intro c
  refine (h c).andThen (fun f c' _ _ => ⟨c', rfl⟩) fun _ => ?_
  split <;> exact steadfast_quiet _

/-- Changing the value at the end of a run. -/
lemma steadfast_prepend {r : Logged ι (List α)} (h : Steadfast r) (a : α) :
    Steadfast (r.andThen fun o => quiet (o.prepend a)) :=
  h.andThen (fun _ c' _ _ => ⟨c', rfl⟩) fun _ => steadfast_quiet _

lemma unswerving_sequence (h : ∀ w ∈ ws, w.Unswerving) : (sequence ws).Unswerving := by
  induction ws with
  | nil => exact fun c => steadfast_quiet _
  | cons w ws ih =>
    rw [List.forall_mem_cons] at h
    intro c
    refine (h.1 c).andThen (fun _ c' _ _ => ⟨c', rfl⟩) fun _ => ?_
    split
    · exact steadfast_prepend (ih h.2 _) _
    · exact steadfast_quiet _

lemma unswerving_delimited {opening : Watched ι β} {closing : Watched ι γ}
    (hopening : opening.Unswerving) (hclosing : closing.Unswerving) (hinner : w.Unswerving) :
    (delimited opening closing w).Unswerving := by
  intro c
  refine (hopening c).andThen (fun _ c' _ _ => ⟨c', rfl⟩) fun _ => ?_
  split
  · exact steadfast_quiet _
  refine (hinner _).andThen (fun _ c' _ _ => ⟨c', rfl⟩) fun _ => ?_
  split
  · exact steadfast_quiet _
  refine (hclosing _).andThen (fun _ c' _ _ => ⟨c', rfl⟩) fun _ => ?_
  split <;> exact steadfast_quiet _

lemma unswerving_optional (h : w.Unswerving) : (optional w).Unswerving := by
  intro c
  refine (h c.fork).andThen (fun f c' _ hf => ⟨c, by simp [hf]⟩) fun _ => ?_
  split <;> exact steadfast_quiet _

lemma unswerving_many (h : w.Unswerving) : (many w).Unswerving := by
  intro c
  induction hk : c.rest.length using Nat.strongRecOn generalizing c with
  | _ k ih =>
    rw [many]
    refine (h c.fork).andThen (fun f c' _ hf => ⟨c, by simp [hf]⟩) fun _ => ?_
    split
    · split
      · rename_i hlt
        exact steadfast_prepend (ih _ (by rwa [← hk, Cursor.rest_adopt]) _ rfl) _
      · exact steadfast_quiet _
    · exact steadfast_quiet _

variable [Item ι]

lemma unswerving_choice (h : ∀ w ∈ ws, w.Unswerving) : (choice ws).Unswerving := by
  induction ws with
  | nil => exact fun c => steadfast_quiet _
  | cons w ws ih =>
    rw [List.forall_mem_cons] at h
    intro c
    refine (unswerving_optional h.1 c).andThen (fun _ c' _ _ => ⟨c', rfl⟩) fun _ => ?_
    split
    · exact steadfast_quiet _
    · exact ih h.2 _
    · exact steadfast_quiet _

lemma unswerving_notAhead {forbidden : Watched ι β} (hforbidden : forbidden.Unswerving)
    (h : w.Unswerving) : (notAhead forbidden w).Unswerving := by
  intro c
  refine (hforbidden c.fork).andThen (fun f c' _ hf => ⟨c, by simp [hf]⟩) fun _ => ?_
  split
  · exact steadfast_quiet _
  · split
    · exact steadfast_quiet _
    · exact h c

lemma unswerving_takeUntil {stop : Watched ι β} (h : stop.Unswerving) :
    (takeUntil stop).Unswerving := by
  intro c
  induction hk : c.rest.length using Nat.strongRecOn generalizing c with
  | _ k ih =>
    rw [takeUntil]
    refine (h c.fork).andThen (fun f c' _ hf => ⟨c, by simp [hf]⟩) fun _ => ?_
    split
    · exact steadfast_quiet _
    · split
      · exact steadfast_quiet _
      · split
        · exact steadfast_quiet _
        · rename_i item rest hrest
          refine steadfast_prepend (ih _ ?_ _ rfl) _
          rw [← hk, hrest]
          exact Nat.lt_succ_self _

end Watched

/-! ## Rules -/

section Rules

variable [Item ι] [BEq ι]

lemma Rule.unswerving : ∀ rule : Rule ι, rule.watched.Unswerving
  | .sequence rules =>
    ((Watched.unswerving_sequence (allUnswerving rules)).map _).named _
  | .choice rules => (Watched.unswerving_choice (allUnswerving rules)).named _
  | .many rule => ((Watched.unswerving_many rule.unswerving).map _).named _
  | .optional rule => ((Watched.unswerving_optional rule.unswerving).map _).named _
  | .delimited opening closing inner => (Watched.unswerving_delimited opening.unswerving
      closing.unswerving inner.unswerving).named _
  | .notAhead forbidden rule =>
    (Watched.unswerving_notAhead forbidden.unswerving rule.unswerving).named _
  | .takeUntil stop => ((Watched.unswerving_takeUntil stop.unswerving).map _).named _
  | .next | .peek | .nothing | .fail _ | .fatal _ | .record _ | .literal _ _ | .matching _
  | .satisfying _ _ => (Watched.unswerving_ofParser _).named _
where
  /-- The same of several rules. -/
  allUnswerving : ∀ rules : List (Rule ι), ∀ w ∈ Rule.allWatched rules, w.Unswerving
  | [] => by simp [Rule.allWatched]
  | rule :: rules => List.forall_mem_cons.mpr ⟨rule.unswerving, allUnswerving rules⟩

lemma Rule.exists_named (rule : Rule ι) : ∃ w, rule.watched = .named rule w := by
  cases rule <;> exact ⟨_, by rw [Rule.watched]⟩

/-- A rule that is run with a log gives what its parser gives; its run starts first and ends last.
As soon as the run of any rule in it, at any depth and on whatever fork, ends in a fatal failure,
so does the whole run: no run starts any more, and all runs under way end in that failure. -/
theorem Rule.fatal_prevails (rule : Rule ι) (c : Cursor ι) :
    (∃ log, rule.watched c =
      ⟨rule.parser c, .started rule c :: log ++ [.ended rule (rule.parser c)]⟩) ∧
    ∀ before sub f d after, (rule.watched c).log = before ++ .ended sub (.error f d) :: after →
      f.fatal = true → (∃ c', rule.parser c = .error f c') ∧
        ∀ e ∈ after, ∃ sub' d', e = .ended sub' (.error f d') := by
  have houtcome : (rule.watched c).outcome = rule.parser c := congrFun rule.parser_watched c
  refine ⟨?_, fun before sub f d after hlog hfatal => ?_⟩
  · obtain ⟨w, hw⟩ := rule.exists_named
    rw [← houtcome, hw]
    exact ⟨(w c).log, rfl⟩
  · obtain ⟨hend, hafter⟩ := (rule.unswerving c).after_fatal hlog
      (Event.fatal?_eq_some_iff.mpr ⟨hfatal, sub, d, rfl⟩)
    exact ⟨houtcome ▸ hend, fun e he => (Event.fatal?_eq_some_iff.mp (hafter e he)).2⟩

/-- A fatal failure after the next item, in the first branch of a choice whose second branch would
succeed. -/
theorem Rule.fatal_prevails_in_choice :
    let stop : Rule Char := .fatal "stop"
    let rule : Rule Char := .optional (.choice [.sequence [.next, stop], .next])
    let c := Cursor.ofText ['a']
    ∃ before f d after, (rule.watched c).log = before ++ .ended stop (.error f d) :: after ∧
      f.fatal = true ∧ f.message = "stop" ∧ ∃ c', rule.parser c = .error f c' := by
  intro stop rule c
  obtain ⟨f, d, hget, hfatal, hmessage⟩ : ∃ f d, (rule.watched c).log[6]? =
      some (.ended stop (.error f d)) ∧ f.fatal = true ∧ f.message = "stop" :=
    ⟨_, _, rfl, rfl, rfl⟩
  obtain ⟨hlt, hget⟩ := List.getElem?_eq_some_iff.mp hget
  have hlog : (rule.watched c).log = (rule.watched c).log.take 6 ++
      .ended stop (.error f d) :: (rule.watched c).log.drop 7 := by
    rw [← hget, List.getElem_cons_drop, List.take_append_drop]
  exact ⟨_, f, d, _, hlog, hfatal, hmessage,
    ((Rule.fatal_prevails rule c).2 _ stop f d _ hlog hfatal).1⟩

end Rules

end Formulary.Parsing
