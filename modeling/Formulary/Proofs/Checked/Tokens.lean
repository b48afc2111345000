/-
# Places in a row of tokens

A place in a row of tokens is the row and the number of tokens in front of the place.  The token
that was passed last is looked up by its index, so there has to be one where any were passed.  A
run that passes a group gives the place at the beginning of its contents, and from there on it
tracks a cursor in a row of its own.
-/
import Formulary.Grammar
import Formulary.Proofs.Checked.Agreement

namespace Formulary.Checked

open Text Parsing
open Tracks (At)

variable {α β : Type}

/-- A place in a row of tokens. -/
structure TokenPlace where
  /-- The tokens of the row. -/
  tokens : List (Located Token)
  /-- The number of tokens in front of the place. -/
  index : Nat := 0
  /-- Where the row begins. -/
  start : Position
  /-- Where the row ends. -/
  stop : Position
  /-- What was recorded at the place. -/
  pending : List Failure := []

namespace TokenPlace

/-- The place in front of a row of tokens that are enclosed by a span. -/
def before (tokens : List (Located Token)) (span : Span) : TokenPlace :=
  { tokens, start := span.start, stop := span.stop }

/-- The next token. -/
def upcoming? (k : TokenPlace) : Option (Located Token) := k.tokens[k.index]?

/-- The position behind the last token that was passed. -/
def previousEnd (k : TokenPlace) : Except Fault Position :=
  if k.index = 0 then .ok k.start
  else
    match k.tokens[k.index - 1]? with
    | some token => .ok token.span.stop
    | none => .error .index

/-- The number of tokens behind the place. -/
def left (k : TokenPlace) : Nat := k.tokens.length - k.index

instance : Place Token TokenPlace where
  next? k := .ok k.upcoming?
  step k _ := { k with index := k.index + 1, pending := [] }
  offset := index
  span k := .ok ((k.upcoming?.map Located.span).getD (Span.point k.stop))
  previousEnd := previousEnd
  pending := pending
  withPending k fs := { k with pending := fs }
  left := left
  left_step := by
    intro k item h
    have hlt : k.index < k.tokens.length :=
      (List.getElem?_eq_some_iff.mp (Except.ok.inj h)).1
    simp only [left]
    omega

/-- The place and the cursor are behind the same tokens of a row. -/
inductive Tracking (tokens : List (Located Token)) : TokenPlace → Cursor Token → Prop
  | intro {passed rest : List (Located Token)} (h : tokens = passed ++ rest) (start stop : Position)
    (fs : List Failure) :
    Tracking tokens ⟨tokens, passed.length, start, stop, fs⟩
      ⟨rest, passed.getLast?, start, stop, passed.length, fs⟩

instance : Tracks Token TokenPlace (List (Located Token)) where
  At := Tracking
  next?_eq := by
    rintro _ _ _ ⟨rfl, start, stop, fs⟩
    rename_i passed rest
    change Except.ok (passed ++ rest)[passed.length]? = _
    rw [List.getElem?_append_right (Nat.le_refl _), Nat.sub_self, List.head?_eq_getElem?]
  step := by
    rintro _ _ _ item rest ⟨rfl, start, stop, fs⟩ hrest
    rename_i passed _
    cases hrest
    have hlast : (passed ++ [item]).getLast? = some item := List.getLast?_concat
    have hsplit : passed ++ item :: rest = passed ++ [item] ++ rest := by simp
    have htracking := Tracking.intro hsplit start stop []
    rw [hlast, List.length_append] at htracking
    exact htracking
  offset_eq := by
    rintro _ _ _ ⟨rfl, start, stop, fs⟩
    rfl
  span_eq := by
    rintro _ _ _ ⟨rfl, start, stop, fs⟩
    rename_i passed rest
    change Except.ok (((passed ++ rest)[passed.length]?.map Located.span).getD _) = _
    rw [List.getElem?_append_right (Nat.le_refl _), Nat.sub_self]
    cases rest <;> rfl
  previousEnd_eq := by
    rintro _ _ _ ⟨rfl, start, stop, fs⟩
    rename_i passed rest
    change previousEnd _ = _
    unfold previousEnd Cursor.previousEnd
    dsimp only
    rcases List.eq_nil_or_concat' passed with rfl | ⟨front, token, rfl⟩
    · rfl
    · have htoken : (front ++ [token] ++ rest)[(front ++ [token]).length - 1]? = some token := by
        rw [List.length_append, List.length_singleton, Nat.add_sub_cancel, List.append_assoc,
          List.getElem?_append_right (Nat.le_refl _), Nat.sub_self]
        rfl
      rw [if_neg (by simp), htoken, List.getLast?_concat]
  pending_eq := by
    rintro _ _ _ ⟨rfl, start, stop, fs⟩
    rfl
  withPending := by
    rintro _ _ _ ⟨rfl, start, stop, fs⟩ fs'
    exact .intro rfl start stop fs'
  left_eq := by
    rintro _ _ _ ⟨rfl, start, stop, fs⟩
    rename_i passed rest
    change (passed ++ rest).length - passed.length = rest.length
    rw [List.length_append, Nat.add_sub_cancel_left]

end TokenPlace

lemma at_before (tokens : List (Located Token)) (span : Span) :
    At tokens (TokenPlace.before tokens span) (Cursor.before tokens span) :=
  @TokenPlace.Tracking.intro tokens [] tokens rfl span.start span.stop []

lemma drop_eq {row : List (Located Token)} {k : TokenPlace} {c : Cursor Token} (h : At row k c) :
    k.tokens.drop k.index = c.rest := by
  obtain ⟨rfl, start, stop, fs⟩ := h
  exact List.drop_left

/-! ## Groups -/

/-- Passes a group of an accepted kind; gives the place at the beginning of its contents. -/
def groupOf (what : String) (accepts : GroupKind → Bool) : Run TokenPlace TokenPlace := do
  match ← look Place.next? with
  | some ⟨.group kind tokens, span⟩ =>
    if accepts kind then
      let _ ← next
      return TokenPlace.before tokens span
    else expected what
  | _ => expected what

/-- What a checked run gives is a place, what a parser gives is a cursor, and the place tracks the
cursor in a row of its own. -/
inductive Entering (row : List (Located Token)) :
    Except Fault (EStateM.Result Failure TokenPlace TokenPlace) →
      Outcome Token (Cursor Token) → Prop
  | ok {inside : List (Located Token)} {k₁ k : TokenPlace} {c₁ c : Cursor Token}
      (inner : At inside k₁ c₁) (h : At row k c) : Entering row (.ok (.ok k₁ k)) (.ok c₁ c)
  | error (f : Failure) {k : TokenPlace} {c : Cursor Token} (h : At row k c) :
      Entering row (.ok (.error f k)) (.error f c)

lemma Entering.cases {row : List (Located Token)}
    {r : Except Fault (EStateM.Result Failure TokenPlace TokenPlace)}
    {o : Outcome Token (Cursor Token)} (h : Entering row r o) :
    (∃ inside k₁ c₁ k c, r = .ok (.ok k₁ k) ∧ o = .ok c₁ c ∧ At inside k₁ c₁ ∧ At row k c) ∨
      ∃ f k c, r = .ok (.error f k) ∧ o = .error f c ∧ At row k c := by
  cases h with
  | ok inner h' => exact .inl ⟨_, _, _, _, _, rfl, rfl, inner, h'⟩
  | error f h' => exact .inr ⟨f, _, _, rfl, rfl, h'⟩

/-- The checked run meets no fault and enters the row that the parser enters. -/
def Enters (m : Run TokenPlace TokenPlace) (p : Parser Token (Cursor Token)) : Prop :=
  ∀ ⦃row : List (Located Token)⦄ ⦃k : TokenPlace⦄ ⦃c : Cursor Token⦄, At row k c →
    Entering row (m k) (p c)

variable {m : Run TokenPlace TokenPlace} {p : Parser Token (Cursor Token)}

lemma enters_groupOf (what : String) (accepts : GroupKind → Bool) :
    Enters (groupOf what accepts) (Grammar.groupOf what accepts) := by
  intro row k c h
  have hexpected : Entering row (expected what k) (Parsing.expected what c) := by
    rw [expected_eq h]
    exact .error _ h
  unfold groupOf Grammar.groupOf
  rw [look_bind (Tracks.next?_eq h)]
  cases hrest : c.rest with
  | nil => exact hexpected
  | cons token rest =>
    obtain ⟨token, span⟩ := token
    cases token with
    | group kind tokens =>
      dsimp only [List.head?_cons]
      split
      · rw [next_bind h hrest]
        exact .ok (at_before tokens span) (Tracks.step h hrest)
      · exact hexpected
    | _ => exact hexpected

lemma Enters.after (h : Enters m p) {n : Run TokenPlace β} {q : Parser Token β}
    (hn : CarriesOut n q) : Enters (n >>= fun _ => m) (q >>= fun _ => p) := by
  intro row k c hat
  rcases (hn hat).cases with ⟨a, k', c', hk, hc, h'⟩ | ⟨f, k', c', hk, hc, h'⟩
  · rw [run_bind_of_ok hk, bind_of_ok hc]
    exact h h'
  · rw [run_bind_of_error hk, bind_of_error hc]
    exact .error f h'

/-- A run that enters a group goes on with its contents. -/
lemma Enters.bind (h : Enters m p) {f : TokenPlace → Run TokenPlace β}
    {q : Cursor Token → Parser Token β}
    (hf : ∀ {row : List (Located Token)} {k : TokenPlace} {c : Cursor Token}, At row k c →
      CarriesOut (f k) (q c)) :
    CarriesOut (m >>= f) (p >>= q) := by
  intro row k c hat
  rcases (h hat).cases with ⟨inside, k₁, c₁, k', c', hk, hc, inner, h'⟩ | ⟨f, k', c', hk, hc, h'⟩
  · rw [run_bind_of_ok hk, bind_of_ok hc]
    exact hf inner h'
  · rw [run_bind_of_error hk, bind_of_error hc]
    exact .error f h'

/-- Runs inside of a group. -/
lemma Enters.within (h : Enters m p) {n : Run TokenPlace β} {q : Parser Token β}
    (hn : CarriesOut n q) :
    CarriesOut (m >>= fun k => within k n) (p >>= fun c => Parsing.within c q) :=
  h.bind fun hat => carriesOut_within hn hat

end Formulary.Checked
