/-
# Places in a text

A place in a text is the text itself and the number of bytes in front of the place.  What is to
come is cut off from the text there, which is not possible inside a character.  So a place tracks a
cursor only as long as whole characters are passed.  Where a run passes as many bytes as a stretch
of text has, this is because the stretch was found at that place; and a text that was passed can be
cut out again, since it begins and ends at places where a cursor was.
-/
import Formulary.Proofs.Checked.Agreement
import Formulary.Proofs.Parsing.Onward
import Formulary.Proofs.Parsing.Reads
import Formulary.Proofs.Token.Spelling

namespace Formulary.Checked

open Text Parsing
open Tracks (At)

variable {α β : Type}

/-! ## Slices -/

/-- A text in front of a byte and behind it. -/
def cut (n : Nat) (text : List Char) : Except Fault (List Char × List Char) :=
  match splitBytes? n text with
  | some parts => .ok parts
  | none => .error .cut

/-- The part of a text between two bytes. -/
def slice (text : List Char) (start stop : Nat) : Except Fault (List Char) :=
  if stop < start then .error .cut
  else do
    let (_, back) ← cut start text
    let (middle, _) ← cut (stop - start) back
    return middle

/-- What is left of a number when another one is taken away. -/
def subtract (m n : Nat) : Except Fault Nat :=
  if m < n then .error .difference else .ok (m - n)

lemma cut_append (cs ds : List Char) : cut (byteLength cs) (cs ++ ds) = .ok (cs, ds) := by
  rw [cut, splitBytes?_byteLength]

lemma slice_append (before cs after : List Char) :
    slice (before ++ cs ++ after) (byteLength before) (byteLength before + byteLength cs) =
      .ok cs := by
  rw [slice, if_neg (by omega), List.append_assoc, cut_append, Nat.add_sub_cancel_left]
  dsimp only [bind, Except.bind]
  rw [cut_append]
  rfl

lemma subtract_add (m n : Nat) : subtract (m + n) n = .ok m := by
  rw [subtract, if_neg (by omega), Nat.add_sub_cancel]

/-- A text is cut at the end of a front part of it. -/
lemma eq_of_cut {n : Nat} {text front back : List Char} (h : cut n text = .ok (front, back)) :
    text = front ++ back ∧ n = byteLength front := by
  induction text generalizing n front with
  | nil =>
    unfold cut splitBytes? at h
    by_cases hn : n = 0
    · rw [if_pos hn] at h
      cases h
      exact ⟨rfl, hn⟩
    · rw [if_neg hn] at h
      cases h
  | cons d text ih =>
    unfold cut splitBytes? at h
    by_cases hn : n = 0
    · rw [if_pos hn] at h
      cases h
      exact ⟨rfl, hn⟩
    · rw [if_neg hn] at h
      by_cases hd : n < d.utf8Size
      · rw [if_pos hd] at h
        cases h
      · rw [if_neg hd] at h
        cases hrest : splitBytes? (n - d.utf8Size) text with
        | none =>
          rw [hrest] at h
          cases h
        | some parts =>
          obtain ⟨front', back'⟩ := parts
          rw [hrest] at h
          cases h
          obtain ⟨htext, hlength⟩ := ih (by rw [cut, hrest])
          rw [byteLength, ← hlength, List.cons_append, ← htext]
          exact ⟨rfl, by omega⟩

lemma byteLength_append (cs ds : List Char) :
    byteLength (cs ++ ds) = byteLength cs + byteLength ds := by
  induction cs with
  | nil => simp [byteLength]
  | cons c cs ih => rw [List.cons_append, byteLength, ih, byteLength, Nat.add_assoc]

lemma byteLength_of_ascii {cs : List Char} (h : ∀ c ∈ cs, c.utf8Size = 1) :
    byteLength cs = cs.length := by
  induction cs with
  | nil => rfl
  | cons c cs ih =>
    obtain ⟨hc, hcs⟩ := List.forall_mem_cons.mp h
    rw [byteLength, ih hcs, hc, List.length_cons, Nat.add_comm]

lemma byteLength_pos {cs : List Char} (h : cs ≠ []) : 0 < byteLength cs := by
  cases cs with
  | nil => exact absurd rfl h
  | cons c cs => exact Nat.lt_of_lt_of_le c.utf8Size_pos (Nat.le_add_right _ _)

lemma after_byte (cs : List Char) : (Position.after {} cs).byte = byteLength cs := by
  rw [Position.after_byte, Nat.zero_add]

/-! ## Places -/

/-- A place in a text. -/
structure TextPlace where
  /-- The whole text. -/
  text : List Char
  /-- The position of the next character. -/
  position : Position := {}
  /-- The position behind the last character that was passed. -/
  previousEnd : Position := {}
  /-- What was recorded at the place. -/
  pending : List Failure := []

namespace TextPlace

/-- The text behind the place. -/
def remaining (k : TextPlace) : Except Fault (List Char) := Prod.snd <$> cut k.position.byte k.text

/-- The character in front of the place. -/
def previousChar (k : TextPlace) : Except Fault (Option Char) :=
  (fun parts => parts.1.getLast?) <$> cut k.position.byte k.text

/-- The place behind a character. -/
def advance (k : TextPlace) (d : Char) : TextPlace :=
  { k with position := k.position.advance d, previousEnd := k.position.advance d, pending := [] }

/-- The span of a character at the place. -/
def spanOf (k : TextPlace) (d : Char) : Span := ⟨k.position, k.position.advance d⟩

/-- The next character. -/
def upcoming? (k : TextPlace) : Except Fault (Option (Located Char)) :=
  (fun cs => cs.head?.map fun d => ⟨d, k.spanOf d⟩) <$> k.remaining

/-- The number of characters behind the place. -/
def left (k : TextPlace) : Nat :=
  match k.remaining with
  | .ok cs => cs.length
  | .error _ => 0

variable {k : TextPlace}

lemma exists_of_upcoming? {item : Located Char} (h : k.upcoming? = .ok (some item)) :
    ∃ front back, k.text = front ++ item.value :: back ∧ k.position.byte = byteLength front := by
  unfold upcoming? remaining at h
  cases hcut : cut k.position.byte k.text with
  | error fault =>
    rw [hcut] at h
    cases h
  | ok parts =>
    obtain ⟨front, back⟩ := parts
    rw [hcut] at h
    cases back with
    | nil => cases h
    | cons d back =>
      cases h
      obtain ⟨htext, hbyte⟩ := eq_of_cut hcut
      exact ⟨front, back, htext, hbyte⟩

lemma left_advance {item : Located Char} (h : k.upcoming? = .ok (some item)) :
    (k.advance item.value).left < k.left := by
  obtain ⟨front, back, htext, hbyte⟩ := exists_of_upcoming? h
  have hnext : byteLength front + item.value.utf8Size = byteLength (front ++ [item.value]) := by
    rw [byteLength_append]
    rfl
  have hsplit : front ++ item.value :: back = front ++ [item.value] ++ back := by simp
  unfold left remaining advance
  dsimp only
  rw [Position.advance_byte, htext, hbyte, cut_append, hnext, hsplit, cut_append]
  exact Nat.lt_succ_self _

instance : Place Char TextPlace where
  next? := upcoming?
  step k item := k.advance item.value
  offset k := k.position.byte
  span k := (fun cs => (cs.head?.map k.spanOf).getD (Span.point k.position)) <$> k.remaining
  previousEnd k := .ok k.previousEnd
  pending := pending
  withPending k fs := { k with pending := fs }
  left := left
  left_step := left_advance

/-- The place and the cursor are behind the same front part of a text. -/
inductive Tracking (text : List Char) : TextPlace → Cursor Char → Prop
  | intro {front back : List Char} (h : text = front ++ back) (fs : List Failure) :
    Tracking text ⟨text, .after {} front, .after {} front, fs⟩
      ⟨locate (.after {} front) back, (locate {} front).getLast?, {}, .after {} text,
        byteLength front, fs⟩

lemma remaining_eq {front back : List Char} (p : Position) (fs : List Failure) :
    remaining ⟨front ++ back, .after {} front, p, fs⟩ = .ok back := by
  unfold remaining
  dsimp only
  rw [after_byte, cut_append]
  rfl

instance : Tracks Char TextPlace (List Char) where
  At := Tracking
  next?_eq := by
    rintro _ _ _ ⟨rfl, fs⟩
    rename_i front back
    change upcoming? _ = _
    rw [upcoming?, remaining_eq]
    cases back <;> rfl
  step := by
    rintro _ _ _ item rest ⟨rfl, fs⟩ hrest
    rename_i front back
    cases back with
    | nil => cases hrest
    | cons d back =>
      cases hrest
      have hsplit : front ++ d :: back = front ++ [d] ++ back := by simp
      have hafter : (Position.after {} front).advance d = Position.after {} (front ++ [d]) := by
        rw [Position.after_append]
        rfl
      have hlast : (locate {} (front ++ [d])).getLast? =
          some ⟨d, ⟨.after {} front, (Position.after {} front).advance d⟩⟩ := by
        rw [locate_append]
        exact List.getLast?_concat
      have hbytes : byteLength front + Item.width d = byteLength (front ++ [d]) := by
        rw [byteLength_append]
        rfl
      change Tracking _ (advance _ d) _
      unfold advance Cursor.pass
      dsimp only
      rw [hbytes, ← hlast, hafter]
      exact .intro hsplit []
  offset_eq := by
    rintro _ _ _ ⟨rfl, fs⟩
    exact after_byte _
  span_eq := by
    rintro _ _ _ ⟨rfl, fs⟩
    rename_i front back
    change _ <$> remaining _ = _
    rw [remaining_eq]
    cases back with
    | nil =>
      rw [List.append_nil]
      rfl
    | cons d back => rfl
  previousEnd_eq := by
    rintro _ _ _ ⟨rfl, fs⟩
    rename_i front back
    change Except.ok (Position.after {} front) = _
    unfold Cursor.previousEnd
    dsimp only
    cases hlast : (locate {} front).getLast? with
    | none =>
      cases front with
      | nil => rfl
      | cons d front => exact absurd (List.getLast?_eq_none_iff.mp hlast) (List.cons_ne_nil _ _)
    | some item => exact congrArg Except.ok (stop_getLast?_locate hlast).symm
  pending_eq := by
    rintro _ _ _ ⟨rfl, fs⟩
    rfl
  withPending := by
    rintro _ _ _ ⟨rfl, fs⟩ fs'
    exact .intro rfl fs'
  left_eq := by
    rintro _ _ _ ⟨rfl, fs⟩
    rename_i front back
    change left _ = _
    rw [left, remaining_eq, ← List.length_map (f := Located.value), locate_values]

end TextPlace

variable {text : List Char} {k k' : TextPlace} {c c' : Cursor Char}

lemma exists_stands (h : At text k c) :
    ∃ front back, text = front ++ back ∧ k.text = text ∧ k.position = .after {} front ∧
      Stands c (.after {} front) back := by
  obtain ⟨rfl, fs⟩ := h
  rename_i front back
  exact ⟨front, back, rfl, rfl, rfl, rfl, Position.after_append _ _ _⟩

lemma remaining_eq (h : At text k c) : k.remaining = .ok c.upcoming := by
  obtain ⟨front, back, rfl, htext, hposition, hst⟩ := exists_stands h
  rw [TextPlace.remaining, htext, hposition, after_byte, cut_append, hst.upcoming_eq]
  rfl

lemma position_eq (h : At text k c) : k.position = c.position := by
  obtain ⟨front, back, -, -, hposition, hst⟩ := exists_stands h
  rw [hposition, hst.position_eq]

lemma previousChar_eq (h : At text k c) :
    k.previousChar = .ok (c.previous.map Located.value) := by
  obtain ⟨rfl, fs⟩ := h
  rename_i front back
  unfold TextPlace.previousChar
  dsimp only
  rw [after_byte, cut_append, ← List.getLast?_map, locate_values]
  rfl

/-! ## Slices of what was passed -/

/-- The position of the place. -/
def here : Run TextPlace Position := look fun k => .ok k.position

lemma here_bind (g : Position → Run TextPlace α) (k : TextPlace) :
    (here >>= g) k = g k.position k := rfl

lemma carriesOut_here {g : Position → Run TextPlace β} {q : Cursor Char → Parser Char β}
    (hg : ∀ c, CarriesOut (g c.position) (q c)) : CarriesOut (here >>= g) (get >>= q) :=
  carriesOut_get Cursor.position (fun h => congrArg Except.ok (position_eq h)) hg

/-- The text from a position up to the place. -/
def sliceFrom (start : Position) : Run TextPlace (List Char) :=
  look fun k => slice k.text start.byte k.position.byte

/-- A text that was passed can be cut out, since it begins and ends where a cursor was. -/
lemma slice_of_reads {p : Parser Char α} {R : Position → α → List Char → Prop} (hp : Reads p R)
    (h : At text k c) {a : α} (hrun : p c = .ok a c') (h' : At text k' c') :
    ∃ cs, slice k'.text k.position.byte k'.position.byte = .ok cs ∧ R k.position a cs := by
  obtain ⟨front, back, rfl, -, hposition, hst⟩ := exists_stands h
  obtain ⟨cs, ds, rfl, hst', hR⟩ := hp hst hrun
  obtain ⟨-, -, -, htext', -, -⟩ := exists_stands h'
  have hend : k'.position.byte = byteLength front + byteLength cs := by
    rw [position_eq h', hst'.position_eq, ← Position.after_append, after_byte, byteLength_append]
  refine ⟨cs, ?_, hposition ▸ hR⟩
  rw [htext', hposition, after_byte, hend, ← List.append_assoc]
  exact slice_append front cs ds

/-- A run is followed by what uses the text that it passed. -/
lemma carriesOut_sliced {m : Run TextPlace α} {p : Parser Char α}
    {R : Position → α → List Char → Prop} (hm : CarriesOut m p) (hp : Reads p R)
    {f : α → List Char → Run TextPlace β} {q : α → Parser Char β}
    (hf : ∀ s a cs, R s a cs → CarriesOut (f a cs) (q a)) :
    CarriesOut (do
      let start ← here
      let a ← m
      let cs ← sliceFrom start
      f a cs) (p >>= q) := by
  intro text k c h
  rw [here_bind]
  refine follows_bind (hm h) fun {_ k' c'} hc h' => ?_
  obtain ⟨cs, hslice, hR⟩ := slice_of_reads hp h hc h'
  refine follows_look ?_ (hf _ _ _ hR h')
  exact hslice

/-- A run gives the text that it passed instead of its value. -/
lemma carriesOut_slice {m : Run TextPlace (List Char)} {p : Parser Char (List Char)}
    (hm : CarriesOut m p) (hp : Reads p fun _ a cs => a = cs) :
    CarriesOut (do
      let start ← here
      let _ ← m
      sliceFrom start) p := by
  have hsliced := carriesOut_sliced hm hp (f := fun _ cs => pure cs) (q := pure)
    fun _ _ _ hcs => hcs ▸ carriesOut_pure _
  simpa only [run_bind_pure, bind_pure] using hsliced

/-! ## Stretches of text -/

/-- Passes characters up to a byte. -/
def passUpTo (limit : Nat) : Run TextPlace Unit := fun k =>
  if k.position.byte < limit then
    match _here : Place.next? k with
    | .error fault => .error fault
    | .ok none => (do fail (Failure.endOfInput (← span))) k
    | .ok (some item) => passUpTo limit (Place.step k item)
  else .ok (.ok () k)
termination_by k => Place.left k
decreasing_by exact Place.left_step _here

/-- Passes a number of bytes and gives the text that they are. -/
def consumeBytes (n : Nat) : Run TextPlace (List Char) := do
  let start ← here
  passUpTo (start.byte + n)
  sliceFrom start

/-- What a pattern takes at the place. -/
def found (q : Pattern Char) (k : TextPlace) : Except Fault (Option (List Char)) :=
  (fun cs => (q.length? cs).map cs.take) <$> k.remaining

/-- Passes what a pattern takes, which must not be nothing. -/
def matching (q : Pattern Char) : Run TextPlace (List Char) := do
  match ← look (found q) with
  | some (d :: ds) => consumeBytes (byteLength (d :: ds))
  | _ => expected s!"/{q.source}/"

/-- Passes exactly the characters `wanted`, or fails with `failure`. -/
def passing (failure : Failure) (wanted : List Char) : List Char → Run TextPlace (List Char)
  | [], k => .ok (.ok wanted k)
  | w :: ws, k =>
    match next k with
    | .error fault => .error fault
    | .ok (.error _ k') => .ok (.error failure k')
    | .ok (.ok item k') =>
      if item.value == w then passing failure wanted ws k' else .ok (.error failure k')

/-- Passes exactly the characters `wanted`, which messages show as `shown`. -/
def literal (shown : String) (wanted : List Char) : Run TextPlace (List Char) := do
  let s ← span
  let start ← here
  let _ ← passing (Failure.because s s!"expected `{shown}`") wanted wanted
  sliceFrom start

lemma found_eq (q : Pattern Char) (h : At text k c) : found q k = .ok (q.match? c) := by
  rw [found, remaining_eq h]
  rfl

/-- As many bytes as a front part of what is to come has are as many characters as it has. -/
lemma passUpTo_eq {cs ds : List Char} (h : At text k c) (hcs : c.upcoming = cs ++ ds) :
    ∃ k' c', passUpTo (k.position.byte + byteLength cs) k = .ok (.ok () k') ∧
      takeItems cs.length c = .ok cs c' ∧ At text k' c' := by
  induction cs generalizing k c with
  | nil =>
    refine ⟨k, c, ?_, rfl, h⟩
    rw [byteLength, Nat.add_zero, passUpTo, if_neg (Nat.lt_irrefl _)]
  | cons d cs ih =>
    obtain ⟨rest, previous, start, stop, offset, pending⟩ := c
    cases rest with
    | nil => cases hcs
    | cons item rest =>
      obtain ⟨rfl, hrest⟩ := List.cons.inj hcs
      have hstep := Tracks.step h rfl
      obtain ⟨k', c', hpass, htake, h'⟩ := ih hstep hrest
      refine ⟨k', c', ?_, ?_, h'⟩
      · -- the limit stays where it is while the place moves on
        have hlimit : (Place.step k item).position.byte + byteLength cs =
            k.position.byte + byteLength (item.value :: cs) := by
          change (k.position.advance item.value).byte + byteLength cs = _
          rw [Position.advance_byte, byteLength, Nat.add_assoc]
        have hlt : k.position.byte < k.position.byte + byteLength (item.value :: cs) :=
          Nat.lt_add_of_pos_right (byteLength_pos (List.cons_ne_nil _ _))
        have hnext := Tracks.next?_eq h
        rw [passUpTo, if_pos hlt]
        split
        · cases hnext.symm.trans ‹_›
        · cases hnext.symm.trans ‹_›
        · cases hnext.symm.trans ‹_›
          rw [← hlimit, hpass]
      · change EStateM.bind (takeItems cs.length) (fun items => pure (item.value :: items))
          (Cursor.pass _ item rest) = _
        rw [EStateM.bind, htake]
        rfl

lemma follows_consumeBytes {cs ds : List Char} (h : At text k c) (hcs : c.upcoming = cs ++ ds) :
    Follows text (consumeBytes (byteLength cs) k) (takeItems cs.length c) := by
  obtain ⟨k', c', hpass, htake, h'⟩ := passUpTo_eq h hcs
  obtain ⟨_, hslice, rfl, -⟩ := slice_of_reads (reads_takeItems cs.length) h htake h'
  rw [consumeBytes, here_bind, run_bind_of_ok hpass, htake, sliceFrom, look, hslice]
  exact .ok cs h'

/-- A pattern takes no more than there is. -/
def Bounded (q : Pattern Char) : Prop := ∀ cs, ∀ n ∈ q.length? cs, n ≤ cs.length

/-- What a pattern takes is passed, and what it takes has as many bytes as are passed. -/
lemma carriesOut_matching {q : Pattern Char} (hq : Bounded q) :
    CarriesOut (matching q) (Parsing.matching q) := by
  intro text k c h
  have hexpected := carriesOut_expected (α := List Char) s!"/{q.source}/" h
  rw [matching, look_bind (found_eq q h), Pattern.match?, Parsing.matching]
  cases hlen : q.length? c.upcoming with
  | none => exact hexpected
  | some n =>
    cases n with
    | zero => exact hexpected
    | succ n =>
      have htake : (c.upcoming.take (n + 1)).length = n + 1 :=
        List.length_take_of_le (hq _ _ hlen)
      have hconsume := follows_consumeBytes h (List.take_append_drop (n + 1) c.upcoming).symm
      rw [htake] at hconsume
      obtain ⟨d, ds, hds⟩ := List.exists_cons_of_length_eq_add_one htake
      rw [Option.map_some, hds]
      rwa [hds] at hconsume

lemma carriesOut_passing (failure : Failure) (wanted ws : List Char) :
    CarriesOut (passing failure wanted ws) (Parsing.literal.go wanted failure ws) := by
  induction ws with
  | nil => exact carriesOut_pure wanted
  | cons w ws ih =>
    intro text k c h
    rw [passing, Parsing.literal.go]
    cases hrest : c.rest with
    | nil =>
      rw [next_of_nil h hrest]
      exact .error failure h
    | cons item rest =>
      rw [next_of_cons h hrest]
      have hstep := Tracks.step h hrest
      dsimp only
      split
      · exact ih hstep
      · exact .error failure hstep

lemma carriesOut_literal (shown : String) (wanted : List Char) :
    CarriesOut (literal shown wanted) (Parsing.literal shown wanted) := by
  have hgo := fun failure => carriesOut_slice (carriesOut_passing failure wanted wanted)
    ((reads_literal_go failure wanted wanted).mono fun _ _ _ h => h.1.trans h.2.symm)
  exact fun _ _ _ h => carriesOut_look Tracks.span_eq
    (fun s => hgo (Failure.because s s!"expected `{shown}`")) h

end Formulary.Checked
