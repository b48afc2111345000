/-
# Spans in order

A span is a part of a text if both of its ends are places of the text, the first one not behind the
second.  Spans that lie one after the other between two bytes lie in what is enclosed by these, and
do not overlap.  A row of spans can be taken apart, and rows can be put together.
-/
import Mathlib.Data.List.Pairwise
import Formulary.Proofs.Token.Spelling

namespace Formulary.Text

/-- The place after a front part of a text. -/
def Place (text : List Char) (p : Position) : Prop :=
  ∃ front, front <+: text ∧ p = Position.after {} front

/-- The span covers a part of a text. -/
def Span.PartOf (text : List Char) (s : Span) : Prop :=
  ∃ before cs after, text = before ++ cs ++ after ∧
    s = ⟨Position.after {} before, Position.after {} (before ++ cs)⟩

/-- The span covers no bytes but those that `t` covers. -/
def Span.Within (s t : Span) : Prop :=
  t.start.byte ≤ s.start.byte ∧ s.start.byte ≤ s.stop.byte ∧ s.stop.byte ≤ t.stop.byte

/-- The spans are within one another span, and each ends before the next one begins. -/
def Span.Holds (s : Span) (ts : List Span) : Prop :=
  (∀ t ∈ ts, t.Within s) ∧ ts.Pairwise fun t u => t.stop.byte ≤ u.start.byte

/-- The spans lie one after the other between two bytes. -/
def Ascending (lo hi : Nat) : List Span → Prop
  | [] => True
  | s :: ss => lo ≤ s.start.byte ∧ s.start.byte ≤ s.stop.byte ∧ s.stop.byte ≤ hi ∧
      Ascending s.stop.byte hi ss

variable {text : List Char} {p : Position} {s t : Span} {ss ts : List Span}
  {lo lo' mid hi hi' : Nat}

/-! ## Places -/

lemma byte_le_after (p : Position) (cs : List Char) : p.byte ≤ (p.after cs).byte := by
  rw [Position.after_byte]
  exact Nat.le_add_right _ _

lemma Place.byte_le (h : Place text p) : p.byte ≤ (Position.after {} text).byte := by
  obtain ⟨front, ⟨cs, rfl⟩, rfl⟩ := h
  rw [Position.after_append]
  exact byte_le_after _ _

lemma Span.PartOf.start (h : s.PartOf text) : Place text s.start := by
  obtain ⟨before, cs, after, rfl, rfl⟩ := h
  exact ⟨before, ⟨cs ++ after, by simp⟩, rfl⟩

lemma Span.PartOf.stop (h : s.PartOf text) : Place text s.stop := by
  obtain ⟨before, cs, after, rfl, rfl⟩ := h
  exact ⟨before ++ cs, ⟨after, rfl⟩, rfl⟩

lemma Span.PartOf.start_le (h : s.PartOf text) : s.start.byte ≤ s.stop.byte := by
  obtain ⟨before, cs, after, rfl, rfl⟩ := h
  rw [Position.after_append]
  exact byte_le_after _ _

/-- Of two places in order, the first one has less in front of it. -/
lemma prefix_of_byte_le {front front' : List Char} (h : front <+: text) (h' : front' <+: text)
    (hle : (Position.after {} front).byte ≤ (Position.after {} front').byte) : front <+: front' := by
  rcases List.prefix_or_prefix_of_prefix h h' with hpre | ⟨cs, rfl⟩
  · exact hpre
  · have hnil : cs = [] := by
      by_contra hne
      rw [Position.after_append] at hle
      exact absurd (byte_lt_after hne) (Nat.not_lt_of_le hle)
    exact ⟨[], by simp [hnil]⟩

/-- A byte of a text has one front part of the text in front of it. -/
lemma eq_of_byte_eq {front front' : List Char} (h : front <+: text) (h' : front' <+: text)
    (heq : (Position.after {} front).byte = (Position.after {} front').byte) : front = front' :=
  (prefix_of_byte_le h h' (Nat.le_of_eq heq)).eq_of_length_le
    (prefix_of_byte_le h' h (Nat.le_of_eq heq.symm)).length_le

/-- A part of a text is told by its places. -/
lemma parts_eq_of_places {before cs after before' cs' after' : List Char}
    (h : before ++ cs ++ after = before' ++ cs' ++ after')
    (hstart : Position.after {} before = Position.after {} before')
    (hstop : Position.after {} (before ++ cs) = Position.after {} (before' ++ cs')) :
    before = before' ∧ cs = cs' ∧ after = after' := by
  have hbefore : before <+: before ++ cs ++ after := ⟨cs ++ after, by simp⟩
  have hbefore' : before' <+: before ++ cs ++ after := ⟨cs' ++ after', by rw [h]; simp⟩
  obtain rfl := eq_of_byte_eq hbefore hbefore' (congrArg Position.byte hstart)
  have hparts : before ++ cs = before ++ cs' :=
    eq_of_byte_eq ⟨after, rfl⟩ ⟨after', h.symm⟩ (congrArg Position.byte hstop)
  rw [hparts] at h
  exact ⟨rfl, List.append_cancel_left hparts, List.append_cancel_left h⟩

lemma Span.partOf_of_place (hstart : Place text s.start) (hstop : Place text s.stop)
    (h : s.start.byte ≤ s.stop.byte) : s.PartOf text := by
  obtain ⟨before, hbefore, hs⟩ := hstart
  obtain ⟨front, hfront, ht⟩ := hstop
  obtain ⟨cs, rfl⟩ := prefix_of_byte_le hbefore hfront (by rwa [← hs, ← ht])
  obtain ⟨after, rfl⟩ := hfront
  exact ⟨before, cs, after, rfl, by rw [← hs, ← ht]⟩

/-- Two spans in order are covered from the beginning of the first up to the end of the second. -/
lemma Span.PartOf.hull (hs : s.PartOf text) (ht : t.PartOf text)
    (hstart : s.start.byte ≤ t.start.byte) (hstop : s.stop.byte ≤ t.stop.byte) :
    (s.hull t).PartOf text ∧ (s.hull t).start.byte = s.start.byte ∧
      (s.hull t).stop.byte = t.stop.byte := by
  have hbytes : (s.hull t).start.byte = s.start.byte ∧ (s.hull t).stop.byte = t.stop.byte := by
    unfold Span.hull
    rw [if_pos hstart]
    refine ⟨rfl, ?_⟩
    dsimp only
    split <;> omega
  refine ⟨Span.partOf_of_place ?_ ?_ ?_, hbytes⟩
  · unfold Span.hull
    rw [if_pos hstart]
    exact hs.start
  · unfold Span.hull
    dsimp only
    split
    · exact hs.stop
    · exact ht.stop
  · rw [hbytes.1, hbytes.2]
    exact Nat.le_trans hs.start_le hstop

/-! ## Rows of spans -/

lemma ascending_singleton (hlo : lo ≤ s.start.byte) (hs : s.start.byte ≤ s.stop.byte)
    (hhi : s.stop.byte ≤ hi) : Ascending lo hi [s] := ⟨hlo, hs, hhi, trivial⟩

lemma Ascending.le_of_cons (h : Ascending lo hi (s :: ss)) : lo ≤ hi := by
  obtain ⟨hlo, hs, hhi, -⟩ := h
  exact Nat.le_trans hlo (Nat.le_trans hs hhi)

lemma Ascending.mono (h : Ascending lo hi ss) (hlo : lo' ≤ lo) (hhi : hi ≤ hi') :
    Ascending lo' hi' ss := by
  induction ss generalizing lo lo' with
  | nil => trivial
  | cons s ss ih => exact ⟨Nat.le_trans hlo h.1, h.2.1, Nat.le_trans h.2.2.1 hhi,
      ih h.2.2.2 (Nat.le_refl _)⟩

lemma Ascending.append (h : Ascending lo mid ss) (h' : Ascending mid hi ts) (hle : mid ≤ hi)
    (hlo : lo ≤ mid) : Ascending lo hi (ss ++ ts) := by
  induction ss generalizing lo with
  | nil => exact h'.mono hlo (Nat.le_refl _)
  | cons s ss ih => exact ⟨h.1, h.2.1, Nat.le_trans h.2.2.1 hle, ih h.2.2.2 h.2.2.1⟩

/-- A row of spans ends where its first part ends and the second one begins. -/
lemma Ascending.split (h : Ascending lo hi (ss ++ ts)) (hle : lo ≤ hi) :
    ∃ mid, lo ≤ mid ∧ mid ≤ hi ∧ Ascending lo mid ss ∧ Ascending mid hi ts := by
  induction ss generalizing lo with
  | nil => exact ⟨lo, Nat.le_refl _, hle, trivial, h⟩
  | cons s ss ih =>
    obtain ⟨hlo, hs, hhi, hrest⟩ := h
    obtain ⟨mid, hmid, hmid', hss, hts⟩ := ih hrest hhi
    exact ⟨mid, Nat.le_trans (Nat.le_trans hlo hs) hmid, hmid', ⟨hlo, hs, hmid, hss⟩, hts⟩

lemma Ascending.bounds (h : Ascending lo hi ss) (hs : s ∈ ss) :
    lo ≤ s.start.byte ∧ s.start.byte ≤ s.stop.byte ∧ s.stop.byte ≤ hi := by
  induction ss generalizing lo with
  | nil => cases hs
  | cons t ss ih =>
    obtain ⟨hlo, hle, hhi, hrest⟩ := h
    rcases List.mem_cons.mp hs with rfl | hs
    · exact ⟨hlo, hle, hhi⟩
    · have hbounds := ih hrest hs
      exact ⟨by omega, hbounds.2⟩

lemma Ascending.pairwise (h : Ascending lo hi ss) :
    ss.Pairwise fun s t => s.stop.byte ≤ t.start.byte := by
  induction ss generalizing lo with
  | nil => exact .nil
  | cons s ss ih => exact .cons (fun t ht => (h.2.2.2.bounds ht).1) (ih h.2.2.2)

/-- Spans that lie one after the other between the ends of a span are held by it. -/
lemma Ascending.holds (h : Ascending s.start.byte s.stop.byte ts) : s.Holds ts :=
  ⟨fun _ => h.bounds, h.pairwise⟩

end Formulary.Text
