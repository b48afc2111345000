/-
# The failure of a choice

A choice fails recoverably where all of its branches do.  It stays in its place and keeps their
failures behind those that were recorded there before.  What it reports is read off all of these:
those that start furthest into the text, each once and in their order, stand side by side, and a
single one stands for itself.
-/
import Formulary.Proofs.Data.Distinct
import Formulary.Proofs.Parsing.Following

namespace Formulary.Parsing

open Text

variable {ι α : Type}

namespace Failure

/-- The members are the distinct failures among `fs` that start furthest into the text, in the order
in which they first occur. -/
structure Furthest (members fs : List Failure) : Prop where
  nodup : members.Nodup
  mem_iff : ∀ g, g ∈ members ↔ g ∈ fs ∧ ∀ f ∈ fs, f.startByte ≤ g.startByte
  recorded : members.Pairwise fun g h => fs.idxOf g < fs.idxOf h

/-- The failure stands for its members: it is the only one, or it has them as its branches and is
placed at the first of them. -/
inductive SumsUp : Failure → List Failure → Prop
  | single (f : Failure) : SumsUp f [f]
  | several (first second : Failure) (rest : List Failure) (fatal : Bool) :
    SumsUp ⟨first.span, .alternatives (first :: second :: rest), fatal⟩ (first :: second :: rest)

variable {f first : Failure} {fs members rest : List Failure}

lemma sumsUp_summary (first : Failure) (rest : List Failure) :
    (first.summary rest).SumsUp (first :: rest) := by
  cases rest with
  | nil => exact .single first
  | cons second rest => exact .several first second rest _

lemma fatal_summary (first : Failure) (rest : List Failure) :
    (first.summary rest).fatal = true ↔ ∃ g ∈ first :: rest, g.fatal = true := by
  cases rest with
  | nil => rw [summary, List.exists_mem_cons_iff]; simp
  | cons second rest => exact List.any_eq_true

/-- A failure starts where the first of its members does. -/
lemma SumsUp.startByte_eq (h : f.SumsUp members) : ∃ g ∈ members, g.startByte = f.startByte := by
  cases h with
  | single => exact ⟨f, List.mem_singleton_self f, rfl⟩
  | several first second rest fatal => exact ⟨first, List.mem_cons_self, rfl⟩

lemma Furthest.subset (h : Furthest members fs) : members ⊆ fs :=
  fun g hg => ((h.mem_iff g).mp hg).1

/-! ## The furthest failures -/

/-- The limit is the greatest of the bytes at which the failures start. -/
lemma foldl_max_spec (fs : List Failure) (n : Nat) :
    let limit := fs.foldl (fun n f => max n f.startByte) n
    n ≤ limit ∧ (∀ f ∈ fs, f.startByte ≤ limit) ∧ (limit = n ∨ ∃ f ∈ fs, f.startByte = limit) := by
  induction fs generalizing n with
  | nil => exact ⟨Nat.le_refl n, by simp, .inl rfl⟩
  | cons g fs ih =>
    obtain ⟨hle, hall, hcases⟩ := ih (max n g.startByte)
    rw [List.foldl_cons]
    refine ⟨by omega, List.forall_mem_cons.mpr ⟨by omega, hall⟩, ?_⟩
    rcases hcases with heq | ⟨f, hf, heq⟩
    · rcases Nat.le_total n g.startByte with h | h
      · exact .inr ⟨g, List.mem_cons_self, by omega⟩
      · exact .inl (by omega)
    · exact .inr ⟨f, List.mem_cons_of_mem g hf, heq⟩

lemma exists_furthest (hne : fs ≠ []) :
    ∃ f members, furthest? fs = some f ∧ Furthest members fs ∧ f.SumsUp members ∧
      (f.fatal = true ↔ ∃ g ∈ members, g.fatal = true) := by
  obtain ⟨-, hall, hlimit⟩ := foldl_max_spec fs 0
  unfold furthest?
  dsimp only
  generalize fs.foldl (fun n f => max n f.startByte) 0 = limit at hall hlimit ⊢
  have hreached : ∃ f ∈ fs, f.startByte = limit := by
    rcases hlimit with rfl | h
    · obtain ⟨f, hf⟩ := List.exists_mem_of_ne_nil fs hne
      exact ⟨f, hf, Nat.le_zero.mp (hall f hf)⟩
    · exact h
  obtain ⟨f, hf, hbyte⟩ := hreached
  have hmem (g : Failure) : g ∈ (fs.filter fun f => f.startByte == limit).eraseDups ↔
      g ∈ fs ∧ ∀ f ∈ fs, f.startByte ≤ g.startByte := by
    rw [List.mem_eraseDups, List.mem_filter, beq_iff_eq]
    refine and_congr_right fun hg => ⟨fun heq => heq ▸ hall, fun hmax => ?_⟩
    exact Nat.le_antisymm (hall g hg) (hbyte ▸ hmax f hf)
  have hfurthest : Furthest (fs.filter fun f => f.startByte == limit).eraseDups fs :=
    ⟨nodup_eraseDups _, hmem, pairwise_eraseDups_filter _ fs⟩
  have hsome := (hmem f).mpr ⟨hf, hbyte ▸ hall⟩
  obtain ⟨first, rest, hmembers⟩ := List.exists_cons_of_ne_nil (List.ne_nil_of_mem hsome)
  rw [hmembers] at hfurthest ⊢
  exact ⟨_, _, rfl, hfurthest, sumsUp_summary first rest, fatal_summary first rest⟩

/-- Where failures are recorded, the one that is reported stands for the furthest of them. -/
lemma exists_blamed {c : Cursor ι} (hne : c.pending ≠ []) (fallback : String) :
    ∃ members, Furthest members c.pending ∧ (c.blame fallback).SumsUp members ∧
      ((c.blame fallback).fatal = true ↔ ∃ g ∈ members, g.fatal = true) := by
  obtain ⟨f, members, hfound, hfurthest, hsums, hfatal⟩ := exists_furthest hne
  have hblame : c.blame fallback = f := by rw [Cursor.blame, hfound, Option.getD_some]
  rw [hblame]
  exact ⟨members, hfurthest, hsums, hfatal⟩

end Failure

open Failure

/-! ## The choice -/

variable [Item ι] {ms : List (Parser ι α)} {c : Cursor ι}

/-- The cursor with further failures noted, one after the other. -/
def Cursor.recordAll (c : Cursor ι) (fs : List Failure) : Cursor ι :=
  { c with pending := c.pending ++ fs }

/-- Branches that fail recoverably are recorded one after the other. -/
lemma exists_recorded (h : ∀ m ∈ ms, Recoverable (m c.fork)) :
    ∃ fs, List.Forall₂ (fun m f => ∃ c₁, m c.fork = .error f c₁) ms fs ∧
      choice ms c = .error ((c.recordAll fs).blame c.unexpected) (c.recordAll fs) := by
  induction ms generalizing c with
  | nil =>
    refine ⟨[], .nil, ?_⟩
    rw [Cursor.recordAll, List.append_nil]
    rfl
  | cons m ms ih =>
    obtain ⟨⟨f, c₁, hm, hf⟩, hms⟩ := List.forall_mem_cons.mp h
    obtain ⟨fs, hfs, hrun⟩ := ih (c := c.record f) hms
    have hrecorded : (c.record f).recordAll fs = c.recordAll (f :: fs) := by
      rw [Cursor.recordAll, Cursor.record, Cursor.recordAll, List.append_assoc,
        List.singleton_append]
    rw [hrecorded] at hrun
    refine ⟨f :: fs, .cons ⟨c₁, hm⟩ hfs, ?_⟩
    rw [choice, bind_of_ok (optional_of_error hm hf)]
    exact hrun

/-- Where all branches of a choice fail recoverably, it stays in its place and fails with the
furthest of the failures that were recorded there before and those of the branches: with the only
one, or with all of them side by side, each once and in the order in which they were recorded.  It
is fatal only through one of them. -/
theorem choice_fails_furthest (hne : ms ≠ []) (h : ∀ m ∈ ms, Recoverable (m c.fork)) :
    ∃ fs f members c', List.Forall₂ (fun m g => ∃ c₁, m c.fork = .error g c₁) ms fs ∧
      choice ms c = .error f c' ∧ c'.offset = c.offset ∧ c'.fork = c.fork ∧
      (∀ g ∈ c.pending ++ fs, g.startByte ≤ f.startByte) ∧
      (∃ g ∈ c.pending ++ fs, g.startByte = f.startByte) ∧
      Furthest members (c.pending ++ fs) ∧ f.SumsUp members ∧
      (f.fatal = true ↔ ∃ g ∈ members, g.fatal = true) := by
  obtain ⟨fs, hfs, hrun⟩ := exists_recorded h
  have hfailed : (c.recordAll fs).pending ≠ [] := by
    rintro heq
    rw [(List.append_eq_nil_iff.mp heq).2, List.forall₂_nil_right_iff] at hfs
    exact hne hfs
  obtain ⟨members, hfurthest, hsums, hfatal⟩ := exists_blamed hfailed c.unexpected
  refine ⟨fs, _, members, c.recordAll fs, hfs, hrun, rfl, rfl, ?_, ?_, hfurthest, hsums, hfatal⟩
  · obtain ⟨g, hg, hbyte⟩ := hsums.startByte_eq
    rw [← hbyte]
    exact ((hfurthest.mem_iff g).mp hg).2
  · obtain ⟨g, hg, hbyte⟩ := hsums.startByte_eq
    exact ⟨g, ((hfurthest.mem_iff g).mp hg).1, hbyte⟩

/-- A choice at a place where a fatal failure one character further on was noted before.  Two
branches fail there as well, and in the same way; the first one does not get that far. -/
theorem choice_fails_furthest_beside_fatal :
    let c := (Cursor.ofText ['a', 'b', 'z']).record
      (Failure.because ⟨⟨1, 1, 2⟩, ⟨2, 1, 3⟩⟩ "given up").toFatal
    let second : Parser Char (List Char) := do
      let _ ← next
      literal "y" ['y']
    (∀ m ∈ [literal "x" ['x'], second, second], Recoverable (m c.fork)) ∧
      ∃ f members c', choice [literal "x" ['x'], second, second] c = .error f c' ∧ c'.offset = 0 ∧
        f.startByte = 1 ∧ f.message = "given up or expected `y`" ∧ f.SumsUp members ∧
        ∃ g ∈ members, g.fatal = true := by
  intro c second
  have hsecond : Recoverable (second c.fork) := ⟨_, _, rfl, rfl⟩
  have hall : ∀ m ∈ [literal "x" ['x'], second, second], Recoverable (m c.fork) := by
    simp only [List.forall_mem_cons]
    exact ⟨⟨_, _, rfl, rfl⟩, hsecond, hsecond, by simp⟩
  obtain ⟨_, f, members, c', -, hrun, hoffset, -, -, -, -, hsums, hfatal⟩ :=
    choice_fails_furthest (by simp) hall
  have hvalue : (match choice [literal "x" ['x'], second, second] c with
      | .error f _ => some (f.startByte, f.message, f.fatal)
      | .ok _ _ => none) = some (1, "given up or expected `y`", true) := by
    decide +kernel
  rw [hrun, Option.some.injEq, Prod.mk.injEq, Prod.mk.injEq] at hvalue
  exact ⟨hall, f, members, c', hrun, hoffset, hvalue.1, hvalue.2.1, hsums, hfatal.mp hvalue.2.2⟩

end Formulary.Parsing
