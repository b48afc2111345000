/-
# Accepting characters

What the parsers of single characters, of fixed text and of patterns do at a cursor in front of a
known text.  The views are given by that text and by the character in front of it.
-/
import Formulary.Proofs.Data.Lists
import Formulary.Proofs.Parsing.Acceptance
import Formulary.Proofs.Parsing.Reads

namespace Formulary.Parsing

open Text

/-- The characters of `text` are to come, and `previous` was passed before them. -/
def Around (previous : Option Char) (text : List Char) : View Char :=
  fun rest item => rest.map Located.value = text ∧ item.map Located.value = previous

/-- The character that is passed last when `cs` are passed after `previous`. -/
def lastOf (previous : Option Char) : List Char → Option Char
  | [] => previous
  | c :: cs => lastOf (some c) cs

variable {α β : Type} {p : Option Char} {c : Char} {cs ds : List Char}

@[simp] lemma lastOf_nil (p : Option Char) : lastOf p [] = p := rfl

@[simp] lemma lastOf_cons (p : Option Char) (c : Char) (cs : List Char) :
    lastOf p (c :: cs) = lastOf (some c) cs := rfl

@[simp] lemma lastOf_append (p : Option Char) (cs ds : List Char) :
    lastOf p (cs ++ ds) = lastOf (lastOf p cs) ds := by
  induction cs generalizing p with
  | nil => rfl
  | cons c cs ih => exact ih (some c)

lemma lastOf_eq (p : Option Char) (cs : List Char) : lastOf p cs = cs.getLast?.or p := by
  induction cs generalizing p with
  | nil => rfl
  | cons c cs ih =>
    rw [lastOf_cons, ih, List.getLast?_cons]
    cases cs.getLast? <;> rfl

/-! ## Cursors -/

lemma Cursor.Meets.upcoming {c : Cursor Char} (h : c.Meets (Around p cs)) : c.upcoming = cs := h.1.1

lemma Cursor.Meets.length_rest {c : Cursor Char} (h : c.Meets (Around p cs)) :
    c.rest.length = cs.length := by
  rw [← h.upcoming, Cursor.upcoming, List.length_map]

lemma Cursor.Meets.atEnd_iff {c : Cursor Char} (h : c.Meets (Around p cs)) :
    c.atEnd = true ↔ cs = [] := by
  rw [Cursor.atEnd, List.isEmpty_iff_length_eq_zero, h.length_rest, List.length_eq_zero_iff]

lemma Cursor.Meets.next? {c : Cursor Char} (h : c.Meets (Around p cs)) : c.next? = cs.head? := by
  rw [Cursor.next?, ← h.upcoming, Cursor.upcoming, List.head?_map]

/-- Passing a row of characters makes it shorter. -/
lemma length_lt_of_around {cs ds : List Char} {p q : Option Char} (hcs : cs ≠ [])
    {r r' : List (Located Char)} {i i' : Option (Located Char)} (h : Around p (cs ++ ds) r i)
    (h' : Around q ds r' i') : r'.length < r.length := by
  have hlong := congrArg List.length h.1
  have hshort := congrArg List.length h'.1
  have hpos := List.length_pos_iff.mpr hcs
  simp only [List.length_map, List.length_append] at hlong hshort
  omega

/-! ## Single characters -/

lemma accepts_next : Accepts (Around p (c :: cs)) next fun item r i =>
    item.value = c ∧ Around (some c) cs r i := by
  intro cur hcur
  obtain ⟨⟨hrest, -⟩, -⟩ := hcur
  obtain ⟨item, rest, hcons, rfl, htail⟩ := List.map_eq_cons_iff.mp hrest
  refine ⟨item, cur.pass item rest, ?_, Cursor.Meets.pass ⟨rfl, htail, rfl⟩⟩
  rw [next, hcons]

lemma accepts_peek : Accepts (Around p (c :: cs)) peek fun item r i =>
    item.value = c ∧ Around p (c :: cs) r i := by
  intro cur hcur
  obtain ⟨item, rest, hcons, hitem, -⟩ := List.map_eq_cons_iff.mp hcur.1.1
  refine ⟨item, cur, ?_, hcur.mono fun r i h => ⟨hitem, h⟩⟩
  rw [peek, hcons]

lemma rejects_peek_nil : Rejects (Around p []) (peek : Parser Char (Located Char)) := by
  intro cur hcur
  have hnil : cur.rest = [] := List.map_eq_nil_iff.mp hcur.1.1
  exact ⟨_, cur, by rw [peek, hnil], rfl⟩

lemma accepts_satisfying {what : String} {holds : Char → Bool} (hc : holds c = true) :
    Accepts (Around p (c :: cs)) (satisfying what holds) fun item r i =>
      item.value = c ∧ Around (some c) cs r i := by
  intro cur hcur
  obtain ⟨⟨hrest, -⟩, -⟩ := hcur
  obtain ⟨item, rest, hcons, rfl, htail⟩ := List.map_eq_cons_iff.mp hrest
  refine ⟨item, cur.pass item rest, ?_, Cursor.Meets.pass ⟨rfl, htail, rfl⟩⟩
  rw [satisfying, hcons]
  simp [hc]

lemma rejects_satisfying {what : String} {holds : Char → Bool}
    (h : ∀ c ∈ cs.head?, holds c = false) : Rejects (Around p cs) (satisfying what holds) := by
  intro cur hcur
  rw [satisfying]
  cases hrest : cur.rest with
  | nil => exact ⟨_, cur, rfl, rfl⟩
  | cons item rest =>
    have hcs : cs.head? = some item.value := by
      rw [← hcur.1.1, hrest]
      rfl
    simp only [h item.value hcs, Bool.false_eq_true, if_false]
    exact ⟨_, cur, rfl, rfl⟩

lemma accepts_takeItems (p : Option Char) (cs ds : List Char) :
    Accepts (Around p (cs ++ ds)) (takeItems cs.length) fun as r i =>
      as = cs ∧ Around (lastOf p cs) ds r i := by
  induction cs generalizing p with
  | nil => exact accepts_pure fun r i h => ⟨rfl, h⟩
  | cons c cs ih =>
    refine accepts_bind accepts_next fun item => accepts_and fun hitem => ?_
    refine accepts_bind (ih (some c)) fun items => accepts_and fun hitems => ?_
    exact accepts_pure fun r i h => ⟨by rw [hitem, hitems], h⟩

/-! ## Patterns and fixed text -/

lemma accepts_matching {q : Pattern Char} (hlen : q.length? (cs ++ ds) = some cs.length)
    (hcs : cs ≠ []) : Accepts (Around p (cs ++ ds)) (matching q) fun as r i =>
      as = cs ∧ Around (lastOf p cs) ds r i := by
  intro cur hcur
  obtain ⟨k, hk⟩ : ∃ k, cs.length = k + 1 := Nat.exists_eq_succ_of_ne_zero (by simpa using hcs)
  have htake := accepts_takeItems p cs ds hcur
  rw [hk] at htake hlen
  rw [matching, hcur.upcoming, hlen]
  exact htake

lemma rejects_matching {q : Pattern Char} (hlen : q.length? cs = none) :
    Rejects (Around p cs) (matching q) := by
  intro cur hcur
  rw [matching, hcur.upcoming, hlen]
  exact rejects_expected (V := Around p cs) _ hcur

lemma accepts_literal (shown : String) (p : Option Char) (cs ds : List Char) :
    Accepts (Around p (cs ++ ds)) (literal shown cs) fun _ => Around (lastOf p cs) ds := by
  have hgo (wanted : List Char) (failure : Failure) :
      ∀ (cs : List Char) (p : Option Char), Accepts (Around p (cs ++ ds))
        (literal.go wanted failure cs) fun _ => Around (lastOf p cs) ds := by
    intro cs
    induction cs with
    | nil => exact fun p cur hcur => ⟨wanted, cur, rfl, hcur⟩
    | cons c cs ih =>
      intro p cur hcur
      obtain ⟨⟨hrest, -⟩, -⟩ := hcur
      obtain ⟨item, rest, hcons, rfl, htail⟩ := List.map_eq_cons_iff.mp hrest
      rw [literal.go, hcons]
      simp only [beq_self_eq_true, if_true]
      exact ih (some item.value) (Cursor.Meets.pass ⟨htail, rfl⟩)
  exact fun cur hcur => hgo cs _ cs p hcur

/-- Fixed text is rejected where it is not what is to come. -/
lemma rejects_literal {shown : String} {ds : List Char} (h : ¬ds <+: cs) :
    Rejects (Around p cs) (literal shown ds) := by
  have hgo (wanted : List Char) {failure : Failure} (hfailure : failure.fatal = false) :
      ∀ (ds cs : List Char) (p : Option Char), ¬ds <+: cs →
        Rejects (Around p cs) (literal.go wanted failure ds) := by
    intro ds
    induction ds with
    | nil => exact fun cs p hds => absurd List.nil_prefix hds
    | cons d ds ih =>
      intro cs p hds cur hcur
      rw [literal.go]
      cases hrest : cur.rest with
      | nil => exact ⟨failure, cur, rfl, hfailure⟩
      | cons item rest =>
        have hcs : cs = item.value :: rest.map Located.value := by
          rw [← hcur.1.1, hrest]
          rfl
        dsimp only
        split
        · rename_i heq
          rw [beq_iff_eq] at heq
          refine ih (rest.map Located.value) (some item.value) ?_ (Cursor.Meets.pass ⟨rfl, rfl⟩)
          intro hpre
          rw [hcs, heq] at hds
          exact hds ((List.prefix_cons_inj d).mpr hpre)
        · exact ⟨failure, cur.pass item rest, rfl, hfailure⟩
  exact fun cur hcur => hgo _ rfl ds cs p h hcur

/-! ## Runs -/

lemma runLength_append {ι : Type} {q : ι → Bool} {is js : List ι} (his : ∀ i ∈ is, q i = true)
    (hjs : ∀ j ∈ js.head?, q j = false) : Pattern.runLength q (is ++ js) = is.length := by
  rw [Pattern.runLength, List.takeWhile_append_of_pos his]
  cases js with
  | nil => simp
  | cons j js => simp [hjs j rfl]

/-! ## Places -/

/-- What a parser accepts in front of a known text, with the place that it leads to. -/
lemma exists_of_accepts {m : Parser Char α} {R : Position → α → List Char → Prop}
    {P : α → Prop} {c : Cursor Char} {x : Position} {q : Option Char}
    (h : Accepts (Around p (cs ++ ds)) m fun a r i => P a ∧ Around q ds r i)
    (hreads : Reads m R) (hst : Stands c x (cs ++ ds)) (hp : c.previous.map Located.value = p)
    (hc : c.Calm) :
    ∃ a c', m c = .ok a c' ∧ P a ∧ Stands c' (x.after cs) ds ∧
      c'.previous.map Located.value = q ∧ c'.Calm := by
  obtain ⟨a, c', hrun, ⟨ha, hrest, hq⟩, hcalm⟩ := h ⟨⟨hst.upcoming_eq, hp⟩, hc⟩
  obtain ⟨es, fs, hsplit, hst', -⟩ := hreads hst hrun
  have hfs : fs = ds := hst'.upcoming_eq.symm.trans hrest
  subst hfs
  rw [List.append_cancel_right hsplit]
  exact ⟨a, c', hrun, ha, hst', hq, hcalm⟩

end Formulary.Parsing
