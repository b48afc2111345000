/-
# Messages side by side

The message of a choice lists those of its branches, each once.  A branch that is a choice itself
lists messages of its own, and these are not compared with those of the other branches: what is
listed in the end are messages of single failures in their order, all of them at least once, and
some of them perhaps more than once.

Lists are told apart by their texts if no message begins like another one.  Then no branch is left
out for the sake of one that says something else, and every message is listed only once exactly if
no two branches of a choice have a message in common, unless they read the same.
-/
import Mathlib.Data.List.Pairwise
import Formulary.Proofs.Data.Distinct
import Formulary.Proofs.Parsing.Failures

namespace Formulary.Parsing

open Text

variable {R : String → Prop} {ms ns ls ks : List String} {m n : String}

/-! ## Lists of messages -/

/-- Messages side by side. -/
def joined (ms : List String) : String := " or ".intercalate ms

/-- No text begins like another one. -/
def PrefixFree (R : String → Prop) : Prop :=
  ∀ m n, R m → R n → m.toList <+: n.toList → m = n

lemma PrefixFree.mono {R' : String → Prop} (h : PrefixFree R') (hle : ∀ m, R m → R' m) :
    PrefixFree R := fun m n hm hn => h m n (hle m hm) (hle n hn)

lemma joined_append (hms : ms ≠ []) (hns : ns ≠ []) :
    joined (ms ++ ns) = joined ms ++ " or " ++ joined ns :=
  String.intercalate_append_of_ne_nil hms hns

lemma joined_singleton (m : String) : joined [m] = m := String.intercalate_singleton

lemma toList_joined_cons (m : String) (ms : List String) :
    (joined (m :: ms)).toList = m.toList ++ ms.flatMap fun n => " or ".toList ++ n.toList := by
  induction ms generalizing m with
  | nil => rw [joined_singleton, List.flatMap_nil, List.append_nil]
  | cons n ms ih =>
    rw [joined, String.intercalate_cons_cons, String.toList_append, String.toList_append, ← joined,
      ih, List.flatMap_cons, List.append_assoc, List.append_assoc]

/-- The first message ends in the same place, since none of the two begins like the other one. -/
lemma PrefixFree.eq_of_append (hR : PrefixFree R) (hm : R m) (hn : R n) {cs ds : List Char}
    (h : m.toList ++ cs = n.toList ++ ds) : m = n ∧ cs = ds := by
  obtain rfl : m = n := by
    rcases List.prefix_or_prefix_of_prefix (List.prefix_append m.toList cs)
      (h ▸ List.prefix_append n.toList ds) with hle | hle
    · exact hR m n hm hn hle
    · exact (hR n m hn hm hle).symm
  exact ⟨rfl, List.append_cancel_left h⟩

/-- Lists of messages are told apart by their texts. -/
theorem PrefixFree.joined_injective (hR : PrefixFree R) (hms : ∀ m ∈ ms, R m) (hns : ∀ n ∈ ns, R n)
    (hms' : ms ≠ []) (hns' : ns ≠ []) (h : joined ms = joined ns) : ms = ns := by
  induction ms generalizing ns with
  | nil => exact absurd rfl hms'
  | cons m ms ih =>
    obtain ⟨n, ns, rfl⟩ := List.exists_cons_of_ne_nil hns'
    rw [List.forall_mem_cons] at hms hns
    have htext := congrArg String.toList h
    rw [toList_joined_cons, toList_joined_cons] at htext
    obtain ⟨rfl, hrest⟩ := hR.eq_of_append hms.1 hns.1 htext
    cases ms with
    | nil =>
      cases ns with
      | nil => rfl
      | cons n ns => simp at hrest
    | cons m' ms =>
      cases ns with
      | nil => simp at hrest
      | cons n' ns =>
        rw [List.flatMap_cons, List.flatMap_cons, List.append_assoc, List.append_assoc] at hrest
        have hmore := List.append_cancel_left hrest
        rw [← toList_joined_cons, ← toList_joined_cons] at hmore
        rw [ih hms.2 hns.2 (List.cons_ne_nil m' ms) (List.cons_ne_nil n' ns)
          (String.toList_inj.mp hmore)]

/-! ## Texts with heads -/

/-- None of the texts begins like the other one. -/
def Unlike (m n : String) : Prop := ¬m.toList <+: n.toList ∧ ¬n.toList <+: m.toList

instance : DecidableRel Unlike := fun _ _ => inferInstanceAs (Decidable (_ ∧ _))

lemma prefixFree_of_subsingleton (h : ∀ m n, R m → R n → m = n) : PrefixFree R :=
  fun m n hm hn _ => h m n hm hn

/-- Heads that do not begin like each other, and what follows each of them. -/
lemma prefixFree_of_heads {heads : List (String × (String → Prop))}
    (hheads : (heads.map Prod.fst).Pairwise Unlike) (htails : ∀ h ∈ heads, PrefixFree h.2) :
    PrefixFree fun m => ∃ h ∈ heads, ∃ tail, h.2 tail ∧ m = h.1 ++ tail := by
  rintro _ _ ⟨h, hmem, m, hm, rfl⟩ ⟨k, kmem, n, hn, rfl⟩ hle
  rw [String.toList_append, String.toList_append] at hle
  obtain rfl : h = k := by
    by_contra hne
    have hsymm : Std.Symm fun h k : String × (String → Prop) => Unlike h.1 k.1 :=
      ⟨fun _ _ h => h.symm⟩
    have hunlike := (List.pairwise_map.mp hheads).forall hmem kmem hne
    rcases List.prefix_or_prefix_of_prefix ((List.prefix_append _ _).trans hle)
      (List.prefix_append _ _) with hhead | hhead
    · exact hunlike.1 hhead
    · exact hunlike.2 hhead
  rw [htails h hmem m n hm hn ((List.prefix_append_right_inj _).mp hle)]

/-- Some texts are heads only, and nothing follows them. -/
theorem prefixFree_of_heads_or_mem {heads : List (String × (String → Prop))} {plain : List String}
    (hheads : (heads.map Prod.fst ++ plain).Pairwise Unlike)
    (htails : ∀ h ∈ heads, PrefixFree h.2) :
    PrefixFree fun m => (∃ h ∈ heads, ∃ tail, h.2 tail ∧ m = h.1 ++ tail) ∨ m ∈ plain := by
  let all := heads ++ plain.map fun m => (m, fun tail => tail = "")
  have hfst : all.map Prod.fst = heads.map Prod.fst ++ plain := by
    rw [List.map_append, List.map_map]
    exact congrArg _ (List.map_id plain)
  have hempty : PrefixFree (· = "") := prefixFree_of_subsingleton fun m n hm hn => hm.trans hn.symm
  have hfree : PrefixFree fun m => ∃ h ∈ all, ∃ tail, h.2 tail ∧ m = h.1 ++ tail :=
    prefixFree_of_heads (hfst ▸ hheads)
      (List.forall_mem_append.mpr ⟨htails, List.forall_mem_map.mpr fun _ _ => hempty⟩)
  refine hfree.mono ?_
  rintro m (⟨h, hh, htail⟩ | hm)
  · exact ⟨h, List.mem_append_left _ hh, htail⟩
  · exact ⟨_, List.mem_append_right _ (List.mem_map_of_mem hm), "", rfl, String.append_empty.symm⟩

/-- Texts that end where a character occurs in them for the first time. -/
lemma prefixFree_of_ending (c : Char) :
    PrefixFree fun m => ∃ cs, c ∉ cs ∧ m.toList = cs ++ [c] := by
  rintro m n ⟨cs, hcs, hm⟩ ⟨ds, hds, hn⟩ ⟨es, hes⟩
  rw [hm, hn, List.append_assoc] at hes
  obtain ⟨rfl, -⟩ := (List.append_cons_inj_of_notMem hds List.not_mem_nil).mp hes.symm
  exact String.toList_inj.mp (hm.trans hn.symm)

namespace Failure

/-! ## Single failures -/

mutual

/-- The messages of the single failures that a failure consists of, in their order. -/
def leaves : Failure → List String
  | ⟨_, cause, _⟩ => causeLeaves cause

/-- The messages of the single failures that a cause consists of. -/
def causeLeaves : Cause Failure → List String
  | .message text => [causeMessage (.message text)]
  | .endOfInput => [causeMessage .endOfInput]
  | .alternatives branches => leavesOf branches
  | .lonelyOperator operator => [causeMessage (.lonelyOperator operator)]
  | .incompleteReduction remaining => [causeMessage (.incompleteReduction remaining)]

/-- The messages of the single failures that some failures consist of. -/
def leavesOf : List Failure → List String
  | [] => []
  | f :: fs => f.leaves ++ leavesOf fs

end

/-- The failure is not that of a choice. -/
def Single (f : Failure) : Prop := ∀ fs, f.cause ≠ .alternatives fs

/-- Two branches have no message in common, unless they read the same. -/
def Differ (f g : Failure) : Prop := f.message ≠ g.message → f.leaves.Disjoint g.leaves

instance : Std.Symm Differ := ⟨fun _ _ h hne => List.disjoint_symm (h hne.symm)⟩

/-- No two branches of a choice have a message in common, unless they read the same. -/
inductive Apart : Failure → Prop
  | single {f : Failure} (h : f.Single) : Apart f
  | alternatives {span : Span} {fs : List Failure} {fatal : Bool} (hall : ∀ f ∈ fs, Apart f)
      (hpairs : fs.Pairwise Differ) : Apart ⟨span, .alternatives fs, fatal⟩

/-- Every single failure has a message with the property, and every choice has branches. -/
inductive Made (R : String → Prop) : Failure → Prop
  | single {f : Failure} (h : f.Single) (hmessage : R f.message) : Made R f
  | alternatives {span : Span} {fs : List Failure} {fatal : Bool} (hne : fs ≠ [])
      (hall : ∀ f ∈ fs, Made R f) : Made R ⟨span, .alternatives fs, fatal⟩

variable {f : Failure} {fs : List Failure} {span : Span} {fatal : Bool}

lemma single_because (span : Span) (text : String) : (because span text).Single := nofun

lemma single_endOfInput (span : Span) : (endOfInput span).Single := nofun

lemma leaves_of_single (h : f.Single) : f.leaves = [f.message] := by
  obtain ⟨span, cause, fatal⟩ := f
  cases cause with
  | alternatives fs => exact absurd rfl (h fs)
  | _ => rfl

lemma messages_eq_map (fs : List Failure) : messages fs = fs.map message := by
  induction fs with
  | nil => rfl
  | cons f fs ih => exact congrArg (f.message :: ·) ih

lemma leavesOf_eq_flatMap (fs : List Failure) : leavesOf fs = fs.flatMap leaves := by
  induction fs with
  | nil => rfl
  | cons f fs ih => exact congrArg (f.leaves ++ ·) ih

lemma message_alternatives :
    (⟨span, .alternatives fs, fatal⟩ : Failure).message = joined (fs.map message).eraseDups := by
  rw [← messages_eq_map]
  rfl

lemma leaves_alternatives :
    (⟨span, .alternatives fs, fatal⟩ : Failure).leaves = fs.flatMap leaves :=
  leavesOf_eq_flatMap fs

lemma apart_alternatives_iff :
    Apart ⟨span, .alternatives fs, fatal⟩ ↔ (∀ f ∈ fs, f.Apart) ∧ fs.Pairwise Differ := by
  constructor
  · rintro (h | ⟨hall, hpairs⟩)
    · exact absurd rfl (h fs)
    · exact ⟨hall, hpairs⟩
  · exact fun h => .alternatives h.1 h.2

lemma Made.leaves (h : f.Made R) : ∀ m ∈ f.leaves, R m := by
  induction h with
  | single h hmessage =>
    rw [leaves_of_single h]
    exact List.forall_mem_singleton.mpr hmessage
  | alternatives _ _ ih =>
    rw [leaves_alternatives]
    intro m hm
    obtain ⟨g, hg, hm⟩ := List.mem_flatMap.mp hm
    exact ih g hg m hm

lemma Made.toFatal (h : f.Made R) : f.toFatal.Made R := by
  obtain ⟨span, cause, fatal⟩ := f
  cases h with
  | single h hmessage => exact .single h hmessage
  | alternatives hne hall => exact .alternatives hne hall

/-! ## What is listed -/

/-- The text lists messages of single failures in their order, all of them, and each one once
exactly if the statement holds. -/
structure Listing (text : String) (leaves : List String) (once : Prop) (shown : List String) :
    Prop where
  text_eq : text = joined shown
  ne_nil : shown ≠ []
  sublist : shown.Sublist leaves
  eraseDups_eq : shown.eraseDups = leaves.eraseDups
  nodup_iff : shown.Nodup ↔ once

lemma Listing.mem_iff {once : Prop} (h : Listing m ls once ms) (k : String) : k ∈ ms ↔ k ∈ ls := by
  rw [← List.mem_eraseDups, h.eraseDups_eq, List.mem_eraseDups]

lemma listing_singleton (m : String) : Listing m [m] True [m] :=
  ⟨(joined_singleton m).symm, List.cons_ne_nil m [], .refl _, rfl, by simp⟩

/-- What some branches list. -/
abbrev BranchesList (fs : List Failure) (shown : List String) : Prop :=
  Listing (joined (fs.map message).eraseDups) (fs.flatMap leaves)
    ((∀ f ∈ fs, f.Apart) ∧ fs.Pairwise Differ) shown

lemma Listing.branch (h : Listing f.message f.leaves f.Apart ms) : BranchesList [f] ms where
  text_eq := by
    rw [List.map_singleton, List.eraseDups_cons, List.filter_nil, List.eraseDups_nil,
      joined_singleton, h.text_eq]
  ne_nil := h.ne_nil
  sublist := by
    rw [List.flatMap_singleton]
    exact h.sublist
  eraseDups_eq := by rw [List.flatMap_singleton, h.eraseDups_eq]
  nodup_iff := by simp [h.nodup_iff]

/-- A branch that reads like an earlier one is not listed. -/
lemma BranchesList.repeated {g : Failure} (h : BranchesList fs ms) (hg : g ∈ fs)
    (hmessage : g.message = f.message) (hleaves : ∀ m, m ∈ f.leaves ↔ m ∈ g.leaves)
    (hapart : g.Apart ↔ f.Apart) : BranchesList (fs ++ [f]) ms where
  text_eq := by
    rw [List.map_append, List.map_singleton, eraseDups_concat,
      if_pos (List.mem_map.mpr ⟨g, hg, hmessage⟩), h.text_eq]
  ne_nil := h.ne_nil
  sublist := by
    rw [List.flatMap_append]
    exact h.sublist.trans (List.sublist_append_left _ _)
  eraseDups_eq := by
    rw [List.flatMap_append, List.flatMap_singleton, h.eraseDups_eq, eraseDups_append_of_subset]
    exact fun m hm => List.mem_flatMap.mpr ⟨g, hg, (hleaves m).mp hm⟩
  nodup_iff := by
    rw [h.nodup_iff, List.forall_mem_append, List.forall_mem_singleton, List.pairwise_append]
    constructor
    · rintro ⟨hall, hpairs⟩
      refine ⟨⟨hall, hapart.mp (hall g hg)⟩, hpairs, List.pairwise_singleton _ f, ?_⟩
      intro e he f' hf' hne m hm hm'
      rw [List.mem_singleton] at hf'
      subst hf'
      -- the earlier branch has nothing in common with another one either
      have hdiffer := hpairs.forall_of_forall (fun _ _ hne => absurd rfl hne) he hg
      exact hdiffer (hmessage ▸ hne) hm ((hleaves m).mp hm')
    · exact fun h => ⟨h.1.1, h.2.1⟩

/-- A branch that reads like none before it is listed behind them. -/
lemma BranchesList.added (h : BranchesList fs ms) (hf : Listing f.message f.leaves f.Apart ns)
    (hnew : ∀ g ∈ fs, g.message ≠ f.message) : BranchesList (fs ++ [f]) (ms ++ ns) where
  text_eq := by
    have hmem : f.message ∉ fs.map message := by
      rw [List.mem_map]
      exact fun ⟨g, hg, heq⟩ => hnew g hg heq
    have hne : (fs.map message).eraseDups ≠ [] := by
      obtain ⟨m, hm⟩ := List.exists_mem_of_ne_nil ms h.ne_nil
      obtain ⟨g, hg, -⟩ := List.mem_flatMap.mp ((h.mem_iff m).mp hm)
      exact List.ne_nil_of_mem (List.mem_eraseDups.mpr (List.mem_map_of_mem hg))
    rw [List.map_append, List.map_singleton, eraseDups_concat, if_neg hmem,
      joined_append hne (List.cons_ne_nil _ _), h.text_eq, joined_singleton, hf.text_eq,
      joined_append h.ne_nil hf.ne_nil]
  ne_nil := List.append_ne_nil_of_left_ne_nil h.ne_nil ns
  sublist := by
    rw [List.flatMap_append, List.flatMap_singleton]
    exact h.sublist.append hf.sublist
  eraseDups_eq := by
    rw [List.flatMap_append, List.flatMap_singleton]
    exact eraseDups_append_congr h.eraseDups_eq hf.eraseDups_eq
  nodup_iff := by
    have hpairs : (fs ++ [f]).Pairwise Differ ↔
        fs.Pairwise Differ ∧ ∀ g ∈ fs, g.leaves.Disjoint f.leaves := by
      rw [List.pairwise_append]
      simp only [List.pairwise_singleton, true_and, List.mem_singleton, forall_eq]
      exact and_congr_right fun _ => forall₂_congr fun g hg => forall_prop_of_true (hnew g hg)
    -- the messages are those of the leaves, so they are apart as these are
    have hdisjoint : ms.Disjoint ns ↔ ∀ g ∈ fs, g.leaves.Disjoint f.leaves := by
      constructor
      · intro hdis g hg m hm hm'
        exact hdis ((h.mem_iff m).mpr (List.mem_flatMap.mpr ⟨g, hg, hm⟩)) ((hf.mem_iff m).mpr hm')
      · intro hall m hm hm'
        obtain ⟨g, hg, hm⟩ := List.mem_flatMap.mp ((h.mem_iff m).mp hm)
        exact hall g hg hm ((hf.mem_iff m).mp hm')
    rw [List.nodup_append', h.nodup_iff, hf.nodup_iff, hdisjoint, hpairs, List.forall_mem_append,
      List.forall_mem_singleton]
    tauto

/-- What branches list if every one of them lists something: those that read the same say the
same. -/
lemma exists_branchesList (hR : PrefixFree R) (hne : fs ≠ [])
    (hleaves : ∀ f ∈ fs, ∀ m ∈ f.leaves, R m)
    (h : ∀ f ∈ fs, ∃ shown, Listing f.message f.leaves f.Apart shown) :
    ∃ shown, BranchesList fs shown := by
  induction fs using List.reverseRecOn with
  | nil => exact absurd rfl hne
  | append_singleton fs f ih =>
    rw [List.forall_mem_append, List.forall_mem_singleton] at hleaves h
    obtain ⟨hall, ns, hns⟩ := h
    by_cases hfs : fs = []
    · subst hfs
      exact ⟨ns, hns.branch⟩
    · obtain ⟨ms, hms⟩ := ih hfs hleaves.1 hall
      by_cases hnew : ∃ g ∈ fs, g.message = f.message
      · obtain ⟨g, hg, heq⟩ := hnew
        obtain ⟨ks, hks⟩ := hall g hg
        have hsame : ks = ns := by
          refine hR.joined_injective (fun m hm => hleaves.1 g hg m (hks.sublist.subset hm))
            (fun m hm => hleaves.2 m (hns.sublist.subset hm)) hks.ne_nil hns.ne_nil ?_
          rw [← hks.text_eq, ← hns.text_eq, heq]
        subst hsame
        exact ⟨ms, hms.repeated hg heq (fun m => (hns.mem_iff m).symm.trans (hks.mem_iff m))
          (hks.nodup_iff.symm.trans hns.nodup_iff)⟩
      · exact ⟨ms ++ ns, hms.added hns fun g hg heq => hnew ⟨g, hg, heq⟩⟩

/-- What a failure lists, if no message begins like another one. -/
theorem Made.exists_listing (hR : PrefixFree R) (h : f.Made R) :
    ∃ shown, Listing f.message f.leaves f.Apart shown := by
  induction h with
  | @single f h _ =>
    rw [leaves_of_single h, eq_true (Apart.single h)]
    exact ⟨[f.message], listing_singleton _⟩
  | alternatives hne hall ih =>
    rw [message_alternatives, leaves_alternatives, propext apart_alternatives_iff]
    exact exists_branchesList hR hne (fun f hf => (hall f hf).leaves) ih

/-- Every message is listed once exactly if the branches of choices are apart. -/
lemma Listing.text_eq_iff {once : Prop} (h : Listing m ls once ms) (hR : PrefixFree R)
    (hls : ∀ k ∈ ls, R k) : m = joined ls.eraseDups ↔ once := by
  have hms : ∀ k ∈ ms, R k := fun k hk => hls k (h.sublist.subset hk)
  have hdups : ∀ k ∈ ls.eraseDups, R k := fun k hk => hls k (List.mem_eraseDups.mp hk)
  have hne : ls.eraseDups ≠ [] := by
    obtain ⟨k, hk⟩ := List.exists_mem_of_ne_nil ms h.ne_nil
    exact List.ne_nil_of_mem (List.mem_eraseDups.mpr ((h.mem_iff k).mp hk))
  rw [← h.nodup_iff]
  constructor
  · intro htext
    rw [hR.joined_injective hms hdups h.ne_nil hne (h.text_eq.symm.trans htext)]
    exact nodup_eraseDups ls
  · intro hnodup
    rw [h.text_eq, ← h.eraseDups_eq, eraseDups_of_nodup hnodup]

/-! ## What parsers list -/

/-- What is said at the places of a byte. -/
def Remark {ι : Type} (K : Cursor ι → Prop) (S : Cursor ι → String → Prop) (byte : Nat)
    (text : String) : Prop :=
  ∃ c, K c ∧ c.span.start.byte = byte ∧ S c text

/-- Whatever parsers fail with is made of what is said at the places of a byte. -/
lemma kept_made {ι : Type} [Item ι] {K : Cursor ι → Prop} {S : Cursor ι → String → Prop}
    (hpass : ∀ c item rest, K c → c.rest = item :: rest → K (c.pass item rest))
    (hunexpected : ∀ c, S c c.unexpected) :
    Kept K S fun f => f.Made (Remark K S f.startByte) where
  pass := hpass
  unexpected := hunexpected
  because c text hc hS := .single (single_because c.span text) ⟨c, hc, rfl, hS⟩
  endOfInput c hc hrest := by
    have hmessage : (endOfInput c.span).message = c.unexpected := by
      rw [Cursor.unexpected, Cursor.describeNext, hrest]
      rfl
    exact .single (single_endOfInput c.span) ⟨c, hc, rfl, hmessage ▸ hunexpected c⟩
  fatal _ h := h.toFatal
  alternatives fatal first rest hall hbytes := by
    refine .alternatives (List.cons_ne_nil first rest) (List.forall_mem_cons.mpr ⟨?_, ?_⟩)
    · exact hall first List.mem_cons_self
    · intro f hf
      have hmade := hall f (List.mem_cons_of_mem first hf)
      rwa [hbytes f hf] at hmade

/-- What a failure lists that is made of texts none of which begins like another one. -/
theorem Made.exists_listing_iff (hR : PrefixFree R) (h : f.Made R) :
    (∃ shown, Listing f.message f.leaves f.Apart shown) ∧
      (f.message = joined f.leaves.eraseDups ↔ f.Apart) := by
  obtain ⟨shown, hlisting⟩ := h.exists_listing hR
  exact ⟨⟨shown, hlisting⟩, hlisting.text_eq_iff hR h.leaves⟩

end Failure

end Formulary.Parsing
