/-
# Why no token can be read

Every way to read a token says one thing where it fails, and none of them says what is said where a
block does not begin.  Only the end of a quoted name is missed fatally.  Where a row of tokens ends,
nothing is recorded but why no token begins there, and perhaps why no block does.  So the failure of
a text that is not read to its end lists everything once.
-/
import Formulary.Proofs.Parsing.Failing
import Formulary.Proofs.Token.Course
import Formulary.Proofs.Token.Failures
import Formulary.Proofs.Token.Following

namespace Formulary

open Text Word Parsing Failure

/-! ## Sums of failures -/

namespace Parsing.Failure

variable {f : Failure} {members : List Failure}

lemma SumsUp.leaves_eq (h : f.SumsUp members) : f.leaves = members.flatMap leaves := by
  cases h with
  | single => rw [List.flatMap_singleton]
  | several => exact leaves_alternatives

lemma SumsUp.apart (h : f.SumsUp members) (hall : ∀ g ∈ members, g.Apart)
    (hpairs : ∀ g ∈ members, ∀ g' ∈ members, g.Differ g') : f.Apart := by
  cases h with
  | single => exact hall f (List.mem_singleton_self f)
  | several => exact .alternatives hall (List.pairwise_of_forall_mem_list hpairs)

/-- Single failures that read differently have nothing in common. -/
lemma Single.differ {g : Failure} (h : f.Single) (hg : g.Single) : f.Differ g := by
  intro hne
  rw [leaves_of_single h, leaves_of_single hg]
  exact List.disjoint_singleton.mpr fun hmem => hne (List.mem_singleton.mp hmem).symm

end Parsing.Failure

namespace Token

variable {c c' : Cursor Char} {f : Failure} {E : Option Nat}
  {contents : Option Nat → Parser Char (List (Located Token))}

/-! ## What is said -/

/-- What is said where no block begins. -/
def blockComplaints : List String :=
  ["expected `\\n`", "expected an indented block", "unexpected end of input"]

/-- The characters that the tokens begin or end with that are looked for character by character. -/
def borders : List Char := [',', '"', '(', ')', '[', ']', '\x7b', '\x7d']

/-- What is said where no token begins starts with one of these texts. -/
def tokenHeads : List String :=
  (expectations.map fun what => s!"expected {what}, found ") ++
    ["expected a keyword", "expected a number",
      "a number literal cannot be followed by an identifier character"] ++
    borders.map fun a => "expected `" ++ fullEscaping.char a

lemma not_mem_blockComplaints {a : String} (ha : a ∈ tokenHeads) (tail : String) :
    a ++ tail ∉ blockComplaints := by
  have hall : ∀ a ∈ tokenHeads, ∀ b ∈ blockComplaints, ¬a.toList <+: b.toList := by decide +kernel
  intro hmem
  refine hall a ha _ hmem ?_
  rw [String.toList_append]
  exact List.prefix_append _ _

/-- The failure is a single one, and not about the beginning of a block if it may be backtracked
over. -/
structure Lone (f : Failure) : Prop where
  single : f.Single
  message : f.fatal = false → f.message ∉ blockComplaints

lemma lone_because {a : String} (ha : a ∈ tokenHeads) (tail : String) (span : Span) :
    Lone (.because span (a ++ tail)) :=
  ⟨single_because span _, fun _ => not_mem_blockComplaints ha tail⟩

lemma unmet_lone {what : String} (h : what ∈ expectations) : Unmet Lone what :=
  fun span found => lone_because (List.mem_append_left _ (List.mem_append_left _
    (List.mem_map_of_mem h))) found span

lemma lone_missing {a : Char} (ha : a ∈ borders) (s : List Char) (span : Span) :
    Lone (.because span s!"expected `{escapedText (a :: s)}`") := by
  have htext : s!"expected `{escapedText (a :: s)}`" =
      "expected `" ++ fullEscaping.char a ++ (Escaping.text ⟨true, true, false⟩ s ++ "`") := by
    show "expected `" ++ (fullEscaping.char a ++ _) ++ "`" = _
    simp only [String.append_assoc]
  rw [htext]
  exact lone_because (List.mem_append_right _ (List.mem_map_of_mem ha)) _ span

/-! ## Single tokens -/

lemma bounded_oneOrMore (source : String) (inClass : Char → Bool) :
    (Pattern.oneOrMore source inClass).Bounded := by
  intro cs n h
  simp only [Pattern.oneOrMore, Option.ite_none_left_eq_some, Option.some.injEq] at h
  rw [← h.2]
  exact runLength_le cs

lemma fails_pattern {p : Pattern Char} (hp : p.Bounded) (h : s!"/{p.source}/" ∈ expectations) :
    Fails (matching p) Lone := fails_matching hp (unmet_lone h)

lemma fails_exactly {a : Char} (ha : a ∈ borders) (s : List Char) :
    Fails (exactly (a :: s)) Lone := fails_literal (lone_missing ha s) _

/-- What is said outright. -/
lemma fails_complaint {α : Type} {text : String} (h : text ∈ tokenHeads) :
    Fails (failHere text : Parser Char α) Lone := by
  refine fails_failHere fun span => ?_
  rw [← String.append_empty (s := text)]
  exact lone_because h "" span

lemma fails_readKeyword : Fails readKeyword Lone := by
  refine fails_get fun c =>
    fails_bind (fails_pattern gapless_namePattern.le (by decide)) fun word => ?_
  split
  · exact fails_pure _
  · exact fails_pure _
  · exact fails_throw (lone_because (a := "expected a keyword") (by decide) "" _)

lemma fails_readComma : Fails readComma Lone :=
  fails_bind (fails_exactly (by decide) []) fun _ => fails_pure _

lemma fails_readNumber : Fails readNumber Lone := by
  refine fails_get fun c => ?_
  split
  · exact fails_complaint (by decide)
  · refine fails_bind (fails_pattern gapless_numberPattern.le (by decide)) fun _ =>
      fails_get fun _ => ?_
    split
    · exact fails_complaint (by decide)
    · exact fails_pure _

/-- The end of a text in quotes is found by backtracking. -/
lemma recoverable_readTextChar (hrun : readTextChar c.fork = .error f c') : f.fatal = false := by
  refine recoverable_choice (forall_mem_pair ?_ ?_) (calm_fork c) hrun
  · exact fails_bind (fails_literal (fun _ => rfl) _) fun _ =>
      fails_bind (fails_next fun _ => rfl) fun _ => fails_pure _
  · exact fails_map _ (fails_satisfying (fun _ _ => rfl) _)

lemma fails_readText : Fails readText Lone :=
  fails_bind (fails_delimited (fails_exactly (by decide) []) (fails_exactly (by decide) [])
    (fails_many fun _ _ _ => recoverable_readTextChar)) fun _ => fails_pure _

lemma fails_readRawName : Fails readRawName Lone :=
  fails_bind (fails_pattern gapless_rawOpeningPattern.le (by decide)) fun _ =>
    fails_bind (fails_takeUntil (fails_literal (fun _ => rfl) _) fun _ => ⟨nofun, nofun⟩) fun _ =>
      fails_bind (fails_exactly (by decide) _) fun _ => fails_pure _

lemma fails_readBareName : Fails readBareName Lone :=
  fails_bind (fails_pattern gapless_namePattern.le (by decide)) fun _ => fails_pure _

lemma fails_readOperator : Fails readOperator Lone :=
  fails_bind (fails_pattern (bounded_oneOrMore _ _) (by decide)) fun _ => fails_pure _

lemma fails_readBlank : Fails readBlank Lone :=
  fails_bind (fails_pattern (bounded_oneOrMore _ _) (by decide)) fun _ => fails_pure _

/-! ## Groups and blocks -/

/-- Shorter rows fail with the end of a quoted name that is missing in them. -/
def FailsInside (contents : Option Nat → Parser Char (List (Located Token))) (n : Nat) : Prop :=
  ∀ ⦃E c f c'⦄, c.rest.length < n → contents E c = .error f c' → f.Single ∧ f.fatal = true

/-- A group is missed like any other token, unless no character is left. -/
lemma lone_of_readGroup (h : FailsInside contents c.rest.length)
    (hrun : readGroup contents c = .error f c') : f.Single ∧ (c.rest ≠ [] → Lone f) := by
  have hlone (hf : Lone f) : f.Single ∧ (c.rest ≠ [] → Lone f) := ⟨hf.single, fun _ => hf⟩
  rw [readGroup] at hrun
  rcases bind_error_inv hrun with hpeek | ⟨item, c₁, hpeek, hgroup⟩
  · -- no character is left, which is said of a block as well
    unfold peek at hpeek
    split at hpeek <;> cases hpeek
    exact ⟨single_endOfInput c.span, fun hne => absurd ‹_› hne⟩
  · obtain rfl : c₁ = c := by
      unfold peek at hpeek
      split at hpeek <;> cases hpeek
      rfl
    dsimp only at hgroup
    cases hfind : [GroupKind.parens, .brackets, .braces].find?
        (·.delimiters.any (·.1 == item.value)) with
    | none =>
      rw [hfind] at hgroup
      exact hlone (fails_expected (unmet_lone (by decide)) hgroup)
    | some kind =>
      rw [hfind] at hgroup
      have hfound := List.find?_some hfind
      obtain ⟨⟨a, b⟩, hkind, ha⟩ := (Option.any_eq_true _ _).mp hfound
      have hborders : a ∈ borders ∧ b ∈ borders := by
        cases kind <;> cases hkind <;> decide
      obtain rfl : a = item.value := beq_iff_eq.mp ha
      dsimp only at hgroup
      rw [hkind] at hgroup
      rcases bind_error_inv hgroup with hdelimited | ⟨_, _, -, hpure⟩
      · rcases delimited_error_inv hdelimited with hopening | ⟨_, c₂, hopening, hinside⟩ |
          ⟨c₂, hclosing⟩
        · exact hlone (fails_exactly hborders.1 [] hopening)
        · obtain ⟨hsingle, hfatal⟩ := h (passes_exactly (by simp) hopening).2 hinside
          exact hlone ⟨hsingle, fun hnot => by rw [hfatal] at hnot; cases hnot⟩
        · exact hlone (fails_exactly hborders.2 [] hclosing)
      · cases hpure

/-- The failure is a single one about the beginning of a block. -/
def NoBlock (f : Failure) : Prop := f.Single ∧ f.message ∈ blockComplaints

lemma noBlock_because {text : String} (h : text ∈ blockComplaints) (span : Span) :
    NoBlock (.because span text) := ⟨single_because span text, h⟩

lemma noBlock_endOfInput (span : Span) : NoBlock (.endOfInput span) :=
  ⟨single_endOfInput span, List.mem_cons_of_mem _ (List.mem_cons_of_mem _ List.mem_cons_self)⟩

lemma fails_readReference : Fails readReference NoBlock := by
  refine fails_get fun c => ?_
  split
  · split
    · exact fails_bind (fails_takeItems noBlock_endOfInput _) fun _ => fails_pure _
    · exact fails_failHere (noBlock_because (by decide))
  · split
    · exact fails_throw (noBlock_endOfInput _)
    · exact fails_pure _

/-- The white space in front of a block. -/
def readHeader : Parser Char Nat := do
  let _ ← optional (matching spacePattern)
  let _ ← exactly ['\n']
  readReference

lemma readBlock_eq (contents : Option Nat → Parser Char (List (Located Token))) (enclosing : Nat) :
    readBlock contents enclosing = do
      let start := (← get).position
      let reference ← readHeader
      if reference ≤ enclosing then
        failHere "expected an indented block"
      else
        let tokens ← contents (some reference)
        return ⟨group .indented tokens, start, (← get).position⟩ := by
  simp only [readBlock, readHeader, bind_assoc]

lemma fails_readHeader : Fails readHeader NoBlock := by
  have hspace : Fails (optional (matching spacePattern)) NoBlock := by
    intro c f c' hrun
    obtain ⟨hfatal, c₁, hmatching⟩ := optional_error_inv hrun
    have hnot : f.fatal = false := fails_matching (Q := fun f => f.fatal = false)
      (bounded_oneOrMore _ _) (fun _ _ => rfl) hmatching
    rw [hfatal] at hnot
    cases hnot
  exact fails_bind hspace fun _ => fails_bind (fails_literal (noBlock_because (by decide)) _)
    fun _ => fails_readReference

lemma passes_readHeader : Passes readHeader :=
  passes_bind_of_advances (advances_of_agrees fun _ =>
    agrees_optional (passes_matching _).advances.agrees) fun _ =>
    passes_bind (passes_exactly (by simp)) fun _ => advances_readReference

/-- Where no block begins it is said why, and a block that begins fails as its row does. -/
lemma noBlock_of_readBlock {enclosing : Nat} (h : FailsInside contents c.rest.length)
    (hrun : readBlock contents enclosing c = .error f c') :
    f.Single ∧ (f.fatal = false → NoBlock f) := by
  have hsaid (hf : NoBlock f) : f.Single ∧ (f.fatal = false → NoBlock f) := ⟨hf.1, fun _ => hf⟩
  rw [readBlock_eq] at hrun
  change (readHeader >>= fun _ => _) c = .error f c' at hrun
  rcases bind_error_inv hrun with hheader | ⟨k, c₁, hheader, hblock⟩
  · exact hsaid (fails_readHeader hheader)
  · split at hblock
    · exact hsaid (fails_failHere (noBlock_because (by decide)) hblock)
    · rcases bind_error_inv hblock with hinside | ⟨_, _, -, hpure⟩
      · obtain ⟨hsingle, hfatal⟩ := h (passes_readHeader hheader).2 hinside
        exact ⟨hsingle, fun hnot => by rw [hfatal] at hnot; cases hnot⟩
      · cases hpure

/-! ## Tokens -/

/-- Why no token can be read at a place: nothing is said of the beginning of a block, if there is a
character, and it is said by single failures side by side. -/
structure Reason (c : Cursor Char) (f : Failure) : Prop where
  apart : f.Apart
  single : f.fatal = true → f.Single
  leaves : f.fatal = false → c.rest ≠ [] → ∀ m ∈ f.leaves, m ∉ blockComplaints

/-- What the ways to read a token fail with. -/
lemma lone_of_mem (h : FailsInside contents c.rest.length) {m : Parser Char Token}
    (hm : m ∈ [readKeyword, readComma, readNumber, readText, readRawName, readBareName,
      readOperator, readGroup contents, readBlank]) (hrun : m c = .error f c') :
    f.Single ∧ (c.rest ≠ [] → Lone f) := by
  have hlone (hf : Lone f) : f.Single ∧ (c.rest ≠ [] → Lone f) := ⟨hf.single, fun _ => hf⟩
  simp only [List.mem_cons, List.not_mem_nil, or_false] at hm
  rcases hm with rfl | rfl | rfl | rfl | rfl | rfl | rfl | rfl | rfl
  · exact hlone (fails_readKeyword hrun)
  · exact hlone (fails_readComma hrun)
  · exact hlone (fails_readNumber hrun)
  · exact hlone (fails_readText hrun)
  · exact hlone (fails_readRawName hrun)
  · exact hlone (fails_readBareName hrun)
  · exact hlone (fails_readOperator hrun)
  · exact lone_of_readGroup h hrun
  · exact hlone (fails_readBlank hrun)

lemma reason_of_readToken (h : FailsInside contents c.rest.length) (hclear : c.pending = [])
    (hrun : readToken contents c = .error f c') : Reason c f := by
  change (choice _ >>= fun _ => _) c = .error f c' at hrun
  rcases bind_error_inv hrun with hchoice | ⟨_, _, -, hpure⟩
  · rcases choice_error_inv hchoice with ⟨hfatal, m, hm, c₁, hfail⟩ | hall
    · have hsingle := (lone_of_mem (c := c.fork) h hm hfail).1
      exact ⟨.single hsingle, fun _ => hsingle, fun hnot => by rw [hfatal] at hnot; cases hnot⟩
    · -- all ways were tried, and what they said is recorded
      obtain ⟨fs, hfs, hrun⟩ := exists_recorded hall
      rw [hrun] at hchoice
      cases hchoice
      have hpending : (c.recordAll fs).pending = fs := by
        rw [Cursor.recordAll, hclear]
        rfl
      have hne : (c.recordAll fs).pending ≠ [] := by
        rw [hpending]
        rintro rfl
        cases hfs
      obtain ⟨members, hfurthest, hsums, hfatal⟩ := exists_blamed hne c.unexpected
      have hsaid : ∀ g ∈ members, g.fatal = false ∧ g.Single ∧ (c.rest ≠ [] → Lone g) := by
        intro g hg
        obtain ⟨m, hm, c₁, hfail⟩ := exists_of_forall₂ hfs g (hpending ▸ hfurthest.subset hg)
        obtain ⟨g', c₂, hfail', hg'⟩ := hall m hm
        rw [hfail] at hfail'
        cases hfail'
        exact ⟨hg', lone_of_mem (c := c.fork) h hm hfail⟩
      refine ⟨hsums.apart (fun g hg => .single (hsaid g hg).2.1) fun g hg g' hg' =>
        (hsaid g hg).2.1.differ (hsaid g' hg').2.1, fun hf => ?_, fun _ hrest m hm => ?_⟩
      · obtain ⟨g, hg, hgfatal⟩ := hfatal.mp hf
        rw [(hsaid g hg).1] at hgfatal
        cases hgfatal
      · rw [hsums.leaves_eq] at hm
        obtain ⟨g, hg, hm⟩ := List.mem_flatMap.mp hm
        obtain ⟨hgfatal, hsingle, hlone⟩ := hsaid g hg
        rw [leaves_of_single hsingle, List.mem_singleton] at hm
        subst hm
        exact (hlone hrest).message hgfatal
  · cases hpure

/-! ## Rows -/

lemma readTokens_error_iff : readTokens E c = .error f c' ↔ readSteps E c = .error f c' := by
  rw [readTokens_eq]
  refine ⟨map_error_inv, fun h => ?_⟩
  rw [readRow, map_eq_pure_bind]
  exact bind_of_error h

lemma length_le_of_onward (h : c.Onward c') : c'.rest.length ≤ c.rest.length := by
  obtain ⟨passed, hpassed⟩ := h
  rw [hpassed.rest_eq, List.length_append]
  exact Nat.le_add_left _ _

lemma FailsInside.mono {n k : Nat} (h : FailsInside contents n) (hle : k ≤ n) :
    FailsInside contents k := fun _ _ _ _ hlt hrun => h (Nat.lt_of_lt_of_le hlt hle) hrun

/-- A step fails with the end of a quoted name that is missing. -/
lemma single_of_readStep (h : FailsInside readTokens c.rest.length)
    (hrun : readStep readTokens E c = .error f c') : f.Single ∧ f.fatal = true := by
  rcases readStep_error_inv hrun with ⟨c₁, htoken⟩ | ⟨t, c₁, c₂, htoken, hblock⟩
  · obtain ⟨hfatal, c₁, hfail⟩ := optional_error_inv htoken
    exact ⟨(reason_of_readToken (c := c.fork) h rfl hfail).single hfatal, hfatal⟩
  · have honward : c.Onward c₁ := onward_of_ok
      (movesOnward_optional (movesOnward_readToken movesOnward_readTokens)) htoken
    obtain ⟨hfatal, c₂, hfail⟩ := optional_error_inv hblock
    have hinside := h.mono (length_le_of_onward honward)
    exact ⟨(noBlock_of_readBlock (c := c₁.fork) hinside hfail).1, hfatal⟩

lemma failsInside_readTokens (n : Nat) : FailsInside readTokens n := by
  induction n with
  | zero => exact fun _ _ _ _ hlt => absurd hlt (Nat.not_lt_zero _)
  | succ n ih =>
    intro E c f c' hlt hrun
    rw [readTokens_error_iff] at hrun
    obtain ⟨d, hstep, hle⟩ := collect_error_inv hrun
    exact single_of_readStep (ih.mono (Nat.le_trans hle (Nat.le_of_lt_succ hlt))) hstep

/-! ## What is left recorded -/

lemma clears_exactly {s : List Char} (hne : s ≠ []) : Clears (exactly s) := clears_literal _ hne

/-- Every way to read a token ends with characters that it passes. -/
lemma clears_of_mem {m : Parser Char Token} (hm : m ∈ [readKeyword, readComma, readNumber, readText,
    readRawName, readBareName, readOperator, readGroup contents, readBlank]) : Clears m := by
  simp only [List.mem_cons, List.not_mem_nil, or_false] at hm
  rcases hm with rfl | rfl | rfl | rfl | rfl | rfl | rfl | rfl | rfl
  · refine clears_get fun c => clears_bind (clears_matching _) fun word => ?_
    split
    · exact keepsClear_pure _
    · exact keepsClear_pure _
    · exact keepsClear_throw _
  · exact clears_bind (clears_exactly (by simp)) fun _ => keepsClear_pure _
  · refine clears_get fun c => ?_
    split
    · exact nofun
    · refine clears_bind (clears_matching _) fun _ => keepsClear_get fun _ => ?_
      split
      · exact keepsClear_failHere _
      · exact keepsClear_pure _
  · exact clears_bind (clears_delimited (clears_exactly (by simp))) fun _ => keepsClear_pure _
  · exact clears_bind_right fun _ => clears_bind_right fun _ =>
      clears_bind (clears_exactly (by simp)) fun _ => keepsClear_pure _
  · exact clears_bind (clears_matching _) fun _ => keepsClear_pure _
  · exact clears_bind (clears_matching _) fun _ => keepsClear_pure _
  · intro c t c' hrun
    obtain ⟨kind, a, b, ts, as, bs, c₁, c₂, -, -, -, hclosing, -⟩ := readGroup_inv hrun
    exact clears_exactly (by simp) hclosing
  · exact clears_bind (clears_matching _) fun _ => keepsClear_pure _

/-- Where fewer characters are left the offset is another one. -/
lemma offset_ne_of_onward (h : c.Onward c') (hless : c'.rest.length < c.rest.length) :
    c'.offset ≠ c.offset :=
  fun heq => (h.offset_eq_iff Char.utf8Size_pos).mp heq hless

lemma exists_stands_of_onward {p : Position} {text : List Char} (hst : Stands c p text)
    (h : c.Onward c') : ∃ cs ds, text = cs ++ ds ∧ Stands c' (p.after cs) ds := by
  obtain ⟨passed, hpassed⟩ := h
  have hrest := hpassed.rest_eq
  rw [hst.rest_eq] at hrest
  obtain ⟨cs, ds, rfl, -, hds⟩ := locate_eq_append hrest
  exact ⟨cs, ds, rfl, hds, by rw [hpassed.stop_eq, hst.stop_eq, Position.after_append]⟩

/-- Behind a token nothing is recorded. -/
lemma clear_of_readToken {p : Position} {text : List Char} {t : Located Token}
    (hst : Stands c p text) (hrun : readToken readTokens c = .ok t c') :
    c'.pending = [] ∧ c'.offset ≠ c.offset := by
  have honward := onward_of_ok (movesOnward_readToken movesOnward_readTokens) hrun
  have hmoved := offset_ne_of_onward honward (length_lt_of_readToken hst hrun)
  refine ⟨?_, hmoved⟩
  obtain ⟨m, hm, d, c₁, hfork, hbranch, rfl⟩ := exists_of_choice (readToken_inv hrun).1
  have hoffset : d.fork.offset = c.fork.offset := by rw [hfork]
  rw [offset_adopt] at hmoved
  rw [adopt_of_moved (hmoved.trans_eq hoffset.symm)]
  exact clears_of_mem hm hbranch

lemma keepsClear_readReference : KeepsClear readReference := by
  refine keepsClear_get fun c => ?_
  split
  · split
    · exact keepsClear_bind (keepsClear_takeItems _) fun _ => keepsClear_pure _
    · exact keepsClear_failHere _
  · split
    · exact keepsClear_throw _
    · exact keepsClear_pure _

lemma clears_readHeader : Clears readHeader :=
  clears_bind_right fun _ => clears_bind (clears_exactly (by simp)) fun _ =>
    keepsClear_readReference

lemma movesOnward_readHeader : MovesOnward readHeader :=
  movesOnward_bind (movesOnward_optional (movesOnward_matching _)) fun _ =>
    movesOnward_bind (movesOnward_exactly _) fun _ => movesOnward_readReference

/-- What is recorded says why no block begins, or why no token does at the place. -/
def Settled (c : Cursor Char) : Prop :=
  ∀ g ∈ c.pending, g.fatal = false ∧
    (NoBlock g ∨ ∃ c₁, readToken readTokens c.fork = .error g c₁)

lemma settled_of_clear (h : c.pending = []) : Settled c := by
  intro g hg
  rw [h] at hg
  cases hg

lemma Settled.record (h : Settled c) {g : Failure} (hg : g.fatal = false)
    (hreason : NoBlock g ∨ ∃ c₁, readToken readTokens c.fork = .error g c₁) :
    Settled (c.record g) :=
  List.forall_mem_append.mpr ⟨h, List.forall_mem_singleton.mpr ⟨hg, hreason⟩⟩

/-- Rows that are shorter than what is to come leave reasons behind. -/
def SettlesInside (n : Nat) : Prop :=
  ∀ ⦃E c ts c'⦄ {p : Position} {text : List Char}, c.rest.length < n → Stands c p text →
    Settled c → readTokens E c = .ok ts c' → Settled c'

lemma SettlesInside.mono {n k : Nat} (h : SettlesInside n) (hle : k ≤ n) : SettlesInside k :=
  fun _ _ _ _ _ _ hlt => h (Nat.lt_of_lt_of_le hlt hle)

section Rows

variable {p : Position} {text : List Char}

/-- A block is left as its row is. -/
lemma settled_of_readBlock {enclosing : Nat} {b : Located Token} (h : SettlesInside c.rest.length)
    (hst : Stands c p text) (hrun : readBlock readTokens enclosing c = .ok b c') :
    Settled c' ∧ c'.offset ≠ c.offset := by
  have honward := onward_of_ok (movesOnward_readBlock movesOnward_readTokens enclosing) hrun
  rw [readBlock_eq] at hrun
  replace hrun := get_inv hrun
  obtain ⟨k, c₁, hheader, hrun⟩ := bind_inv hrun
  have hless := (passes_readHeader hheader).2
  obtain ⟨cs, ds, rfl, hst₁⟩ :=
    exists_stands_of_onward hst (onward_of_ok movesOnward_readHeader hheader)
  split at hrun
  · cases hrun
  · obtain ⟨ts, c₂, hts, hrun⟩ := bind_inv hrun
    replace hrun := get_inv hrun
    obtain ⟨-, rfl⟩ := pure_inv hrun
    have hinside := length_le_of_onward (onward_of_ok (movesOnward_readTokens _) hts)
    exact ⟨h hless hst₁ (settled_of_clear (clears_readHeader hheader)) hts,
      offset_ne_of_onward honward (Nat.lt_of_le_of_lt hinside hless)⟩

/-- A token that is read leaves nothing recorded. -/
lemma clear_of_optional {t : Located Token} (hst : Stands c p text)
    (htoken : Parsing.optional (readToken readTokens) c = .ok (some t) c') :
    c'.pending = [] ∧ c'.rest.length ≤ c.rest.length ∧ ∃ q cs, Stands c' q cs := by
  obtain ⟨_, c₁, hread, hsome, rfl⟩ | ⟨hsome, -⟩ := optional_run_inv htoken
  · cases hsome
    obtain ⟨hclear, hmoved⟩ := clear_of_readToken hst.fork hread
    rw [adopt_of_moved hmoved]
    have honward := onward_of_ok (movesOnward_readToken movesOnward_readTokens) hread
    obtain ⟨cs, ds, rfl, hst₁⟩ := exists_stands_of_onward hst.fork honward
    exact ⟨hclear, length_le_of_onward (c := c.fork) honward, _, _, hst₁⟩
  · cases hsome

lemma settled_of_readStep {o : Option (List (Located Token) × Bool)}
    (h : SettlesInside c.rest.length) (hst : Stands c p text) (hc : Settled c)
    (hrun : readStep readTokens E c = .ok o c') : Settled c' := by
  cases rowStep_of_readStep hrun with
  | ends => exact hc
  | stalls hgoes htoken =>
    -- no token can be read here, and it is recorded why
    obtain ⟨g, c₁, hfail, hg, rfl⟩ := optional_record_inv htoken
    exact hc.record hg (.inr ⟨c₁, hfail⟩)
  | plain hgoes htoken hplain => exact settled_of_clear (clear_of_optional hst htoken).1
  | blockless hgoes htoken hopens hblock =>
    -- the token left nothing, so only the block that is missing behind it is recorded
    obtain ⟨hclear, -⟩ := clear_of_optional hst htoken
    obtain ⟨g, c₂, hfail, hg, rfl⟩ := optional_record_inv hblock
    exact (settled_of_clear hclear).record hg
      (.inl ((noBlock_of_readBlock (failsInside_readTokens _) hfail).2 hg))
  | @block c₁ c' t b hgoes htoken hopens hblock =>
    obtain ⟨-, hlength, q, cs, hst₁⟩ := clear_of_optional hst htoken
    obtain ⟨_, c₂, hread, hsome, rfl⟩ | ⟨hsome, -⟩ := optional_run_inv hblock
    · cases hsome
      obtain ⟨hsettled, hmoved⟩ := settled_of_readBlock (c := c₁.fork) (h.mono hlength)
        hst₁.fork hread
      rwa [adopt_of_moved hmoved]
    · cases hsome

lemma settlesInside (n : Nat) : SettlesInside n := by
  induction n with
  | zero => exact fun _ _ _ _ _ _ hlt => absurd hlt (Nat.not_lt_zero _)
  | succ n ih =>
    intro E c ts c' p text hlt hst hc hrun
    have hinside := ih.mono (Nat.le_of_lt_succ hlt)
    obtain ⟨rows, hrows, rfl⟩ := readTokens_inv hrun
    rcases collect_inv hrows with ⟨hstep, -⟩ | ⟨row, goOn, hstep, -⟩ |
      ⟨row, goOn, c₁, rows, hstep, hless, hmore, -⟩
    · exact settled_of_readStep hinside hst hc hstep
    · exact settled_of_readStep hinside hst hc hstep
    · obtain ⟨cs, ds, rfl, hst₁⟩ := exists_stands_of_onward hst
        (onward_of_ok (movesOnward_readStep movesOnward_readTokens E) hstep)
      exact hinside hless hst₁ (settled_of_readStep hinside hst hc hstep) (readTokens_of_ok hmore)

end Rows

/-- The reasons that no token can be read at a place and those that no block begins there have
nothing in common. -/
lemma Settled.apart (hc : Settled c) (hrest : c.rest ≠ []) {members : List Failure}
    (hsums : f.SumsUp members) (hmem : members ⊆ c.pending) : f.Apart := by
  have hreason {g : Failure} {c₁ : Cursor Char}
      (hfail : readToken readTokens c.fork = .error g c₁) : Reason c g :=
    have hfork := reason_of_readToken (c := c.fork) (failsInside_readTokens _) rfl hfail
    ⟨hfork.apart, hfork.single, hfork.leaves⟩
  have hdiffer {g g' : Failure} {c₁ : Cursor Char} (hg : NoBlock g) (hfatal : g'.fatal = false)
      (hfail : readToken readTokens c.fork = .error g' c₁) : g.leaves.Disjoint g'.leaves := by
    rw [leaves_of_single hg.1, List.singleton_disjoint]
    exact fun hmem => (hreason hfail).leaves hfatal hrest _ hmem hg.2
  refine hsums.apart (fun g hg => ?_) fun g hg g' hg' => ?_
  · rcases (hc g (hmem hg)).2 with hblock | ⟨c₁, hfail⟩
    · exact .single hblock.1
    · exact (hreason hfail).apart
  · obtain ⟨hfatal, hblock | ⟨c₁, hfail⟩⟩ := hc g (hmem hg) <;>
      obtain ⟨hfatal', hblock' | ⟨c₂, hfail'⟩⟩ := hc g' (hmem hg')
    · exact hblock.1.differ hblock'.1
    · exact fun _ => hdiffer hblock hfatal' hfail'
    · exact fun _ => List.disjoint_symm (hdiffer hblock' hfatal hfail)
    · rw [hfail] at hfail'
      cases hfail'
      exact fun hne => absurd rfl hne

/-- Whatever a text cannot be read as tokens for is said once. -/
theorem apart_of_ofText {text : List Char} (h : ofText text = .error f) : f.Apart := by
  unfold ofText at h
  split at h
  · rename_i ts c hread
    split at h
    · cases h
    · rename_i hend
      cases h
      have hrest : c.rest ≠ [] := fun hnil => hend (List.isEmpty_iff.mpr hnil)
      have hsettled : Settled c := settlesInside _ (Nat.lt_succ_self _) (stands_ofText text)
        (settled_of_clear rfl) hread
      by_cases hne : c.pending = []
      · rw [Cursor.blame, hne]
        exact .single (single_because c.span c.unexpected)
      · obtain ⟨members, hfurthest, hsums, -⟩ := exists_blamed hne c.unexpected
        exact hsettled.apart hrest hsums hfurthest.subset
  · rename_i hread
    cases h
    exact .single (failsInside_readTokens _ (Nat.lt_succ_self _) hread).1

end Token
end Formulary
