/-
# Reading tokens loses nothing

The tokens of a text tile it.  Each kind of token is read from the characters that spell it, and
a group from its delimiters around a row of tokens; what was read of a block or a kind of token
that fails in the end is read again, so no character is lost or read twice.
-/
import Formulary.Proofs.Data.Results
import Formulary.Proofs.Parsing.Reads
import Formulary.Proofs.Token.Spelling
import Formulary.Token.Reading

namespace Formulary.Token

open Text Word Parsing

variable {c c' : Cursor Char} {p : Position} {text : List Char}

/-! ## Single tokens -/

/-- A token that is read from the characters that spell it, which are not none. -/
def IsLeaf (_ : Position) (t : Token) (cs : List Char) : Prop := Leaf t cs ∧ cs ≠ []

lemma reads_readKeyword : Reads readKeyword IsLeaf := by
  intro c p text a c' hst hrun
  unfold readKeyword at hrun
  replace hrun := get_inv hrun
  obtain ⟨word, c₁, hmatch, hrest⟩ := bind_inv hrun
  obtain ⟨ds, rfl, hst₁, -, hne⟩ := reads_matching _ hst hmatch
  refine ⟨word, ds, rfl, ?_⟩
  cases hkey : keyword? (String.ofList word) with
  | none =>
    rw [hkey] at hrest
    cases hrest
  | some k =>
    rw [hkey] at hrest
    cases k with
    | null =>
      obtain ⟨rfl, rfl⟩ := pure_inv hrest
      obtain rfl := ofList_eq_iff.mp (keyword?_eq_null_iff.mp hkey)
      exact ⟨hst₁, .null, hne⟩
    | bool value =>
      obtain ⟨rfl, rfl⟩ := pure_inv hrest
      cases value with
      | true =>
        rw [keyword?_eq_true_iff, ofList_eq_iff, ofList_eq_iff] at hkey
        exact ⟨hst₁, .yes hkey, hne⟩
      | false =>
        rw [keyword?_eq_false_iff, ofList_eq_iff, ofList_eq_iff] at hkey
        exact ⟨hst₁, .no hkey, hne⟩

lemma reads_exactly (s : List Char) : Reads (exactly s) fun _ _ cs => cs = s :=
  reads_literal (escapedText s) s

lemma reads_readComma : Reads readComma IsLeaf := by
  intro c p text a c' hst hrun
  unfold readComma at hrun
  obtain ⟨_, c₁, hexact, hrest⟩ := bind_inv hrun
  obtain ⟨cs, ds, rfl, hst₁, rfl⟩ := reads_exactly _ hst hexact
  obtain ⟨rfl, rfl⟩ := pure_inv hrest
  exact ⟨[','], ds, rfl, hst₁, .comma, by simp⟩

lemma leaf_ofNumberText (cs : List Char) : Leaf (ofNumberText cs) cs := by
  have hsplit := List.takeWhile_append_dropWhile (p := (· != '.')) (l := cs)
  have hno : '.' ∉ cs.takeWhile (· != '.') := by
    intro hmem
    have := List.all_eq_true.mp (List.all_takeWhile (p := (· != '.')) (l := cs)) _ hmem
    simp at this
  unfold ofNumberText
  cases hdrop : cs.dropWhile (· != '.') with
  | nil =>
    rw [hdrop, List.append_nil] at hsplit
    rw [hsplit] at hno ⊢
    exact .whole hno
  | cons d ds =>
    have hd : d = '.' := by
      have := List.head_dropWhile_not (fun c => c != '.') (l := cs) (by simp [hdrop])
      simpa [hdrop] using this
    subst hd
    rw [hdrop] at hsplit
    have := Leaf.fraction ds hno
    rwa [hsplit] at this

lemma reads_readNumber : Reads readNumber IsLeaf := by
  intro c p text a c' hst hrun
  unfold readNumber at hrun
  replace hrun := get_inv hrun
  split at hrun
  · cases hrun
  · obtain ⟨cs, c₁, hmatch, hrest⟩ := bind_inv hrun
    obtain ⟨ds, rfl, hst₁, -, hne⟩ := reads_matching _ hst hmatch
    replace hrest := get_inv hrest
    split at hrest
    · cases hrest
    · obtain ⟨rfl, rfl⟩ := pure_inv hrest
      exact ⟨cs, ds, rfl, hst₁, leaf_ofNumberText cs, hne⟩

/-- A character of a text is read as itself, or from a backslash and itself. -/
lemma reads_readTextChar : Reads readTextChar fun _ c cs =>
    cs = [c] ∧ c ≠ '"' ∧ c ≠ '\\' ∨ cs = ['\\', c] := by
  refine reads_choice ?_
  intro m hm
  simp only [List.mem_cons, List.not_mem_nil, or_false] at hm
  rcases hm with rfl | rfl
  · intro c p text a c' hst hrun
    obtain ⟨_, c₁, hexact, hrest⟩ := bind_inv hrun
    obtain ⟨cs, ds, rfl, hst₁, rfl⟩ := reads_exactly _ hst hexact
    obtain ⟨item, c₂, hnext, hpure⟩ := bind_inv hrest
    obtain ⟨rfl, rfl⟩ := pure_inv hpure
    obtain ⟨cs, es, rfl, hst₂, -, rfl⟩ := reads_next hst₁ hnext
    exact ⟨['\\', item.value], es, rfl, hst₂, .inr rfl⟩
  · intro c p text a c' hst hrun
    obtain ⟨item, hsat, rfl⟩ := map_inv hrun
    obtain ⟨cs, ds, rfl, hst₁, hholds, rfl⟩ := reads_satisfying _ _ hst hsat
    rw [Bool.and_eq_true, bne_iff_ne, bne_iff_ne] at hholds
    exact ⟨[item.value], ds, rfl, hst₁, .inl ⟨rfl, hholds⟩⟩

lemma unescapes_of_pieces {as cs : List Char}
    (h : Pieces (fun _ c cs => cs = [c] ∧ c ≠ '"' ∧ c ≠ '\\' ∨ cs = ['\\', c]) p as cs) :
    Unescapes cs as := by
  induction h with
  | nil => exact .nil
  | cons head _ ih =>
    rcases head with ⟨rfl, hquote, hbackslash⟩ | rfl
    · exact .plain hquote hbackslash ih
    · exact .escaped ih

lemma reads_delimited {α : Type} {opening closing : List Char} {m : Parser Char α}
    {R : Position → α → List Char → Prop} (h : Reads m R) :
    Reads (delimited (exactly opening) (exactly closing) m) fun p a cs =>
      ∃ ds, cs = opening ++ ds ++ closing ∧ R (p.after opening) a ds := by
  intro c p text a c' hst hrun
  unfold delimited at hrun
  obtain ⟨_, c₁, hopen, hrest⟩ := bind_inv hrun
  obtain ⟨_, ds, rfl, hst₁, rfl⟩ := reads_exactly _ hst hopen
  obtain ⟨b, c₂, hinner, hrest⟩ := bind_inv hrest
  obtain ⟨cs, es, rfl, hst₂, hR⟩ := h hst₁ hinner
  obtain ⟨_, c₃, hclose, hpure⟩ := bind_inv hrest
  obtain ⟨_, fs, rfl, hst₃, rfl⟩ := reads_exactly _ hst₂ hclose
  obtain ⟨rfl, rfl⟩ := pure_inv hpure
  refine ⟨_ ++ cs ++ _, fs, by simp only [List.append_assoc], ?_, cs, rfl, hR⟩
  rwa [Position.after_append, Position.after_append]

lemma reads_readText : Reads readText IsLeaf := by
  intro c p text a c' hst hrun
  unfold readText at hrun
  obtain ⟨as, c₁, hdel, hpure⟩ := bind_inv hrun
  obtain ⟨rfl, rfl⟩ := pure_inv hpure
  obtain ⟨_, ds, rfl, hst₁, cs, rfl, hpieces⟩ :=
    reads_delimited (reads_many reads_readTextChar) hst hdel
  exact ⟨_, ds, rfl, hst₁, .text (unescapes_of_pieces hpieces), by simp⟩

/-- What opens a quoted name is the letter r, number signs and a quote. -/
lemma eq_of_rawOpening {cs ds : List Char}
    (h : rawOpeningPattern.length? (cs ++ ds) = some cs.length) :
    cs = 'r' :: List.replicate (cs.length - 2) '#' ++ ['"'] := by
  have hlen : ∀ (es : List Char) (n : Nat), rawOpeningPattern.length? es = some n →
      es.take n = 'r' :: List.replicate (n - 2) '#' ++ ['"'] := by
    intro es n hn
    unfold rawOpeningPattern at hn
    dsimp only at hn
    split at hn
    · rename_i es
      split at hn
      · rename_i fs hdrop
        cases hn
        have hsplit := List.take_append_drop (Pattern.runLength (· == '#') es) es
        have hhashes : es.takeWhile (· == '#') =
            List.replicate (Pattern.runLength (· == '#') es) '#' := by
          refine List.eq_replicate_of_mem fun c hc => ?_
          simpa using List.all_eq_true.mp List.all_takeWhile c hc
        rw [take_runLength, hhashes, hdrop] at hsplit
        rw [Nat.add_sub_cancel, List.take_succ_cons]
        nth_rewrite 2 [← hsplit]
        simp [List.take_append, List.take_of_length_le]
      · cases hn
    · cases hn
  have := hlen _ _ h
  rwa [List.take_left] at this

lemma reads_readRawName : Reads readRawName IsLeaf := by
  intro c p text a c' hst hrun
  unfold readRawName at hrun
  obtain ⟨opening, c₁, hmatch, hrest⟩ := bind_inv hrun
  obtain ⟨ds, rfl, hst₁, hlen, -⟩ := reads_matching _ hst hmatch
  obtain ⟨name, c₂, huntil, hrest⟩ := bind_inv hrest
  obtain ⟨_, es, rfl, hst₂, rfl⟩ := reads_takeUntil hst₁ huntil
  obtain ⟨_, c₃, hclose, hpure⟩ := bind_inv hrest
  obtain ⟨_, fs, rfl, hst₃, rfl⟩ := reads_exactly _ hst₂ hclose
  obtain ⟨rfl, rfl⟩ := pure_inv hpure
  have hopen := eq_of_rawOpening hlen
  refine ⟨opening ++ name.map Located.value ++ '"' :: List.replicate (opening.length - 2) '#', fs,
    by simp, ?_, ?_, by simp⟩
  · rwa [Position.after_append, Position.after_append]
  · have hleaf := Leaf.rawName (opening.length - 2) (name.map Located.value)
    rw [hopen] at hleaf ⊢
    simpa using hleaf

lemma reads_readBareName : Reads readBareName IsLeaf := by
  intro c p text a c' hst hrun
  unfold readBareName at hrun
  obtain ⟨cs, c₁, hmatch, hpure⟩ := bind_inv hrun
  obtain ⟨ds, rfl, hst₁, -, hne⟩ := reads_matching _ hst hmatch
  obtain ⟨rfl, rfl⟩ := pure_inv hpure
  exact ⟨cs, ds, rfl, hst₁, .bareName cs, hne⟩

lemma reads_readOperator : Reads readOperator IsLeaf := by
  intro c p text a c' hst hrun
  unfold readOperator at hrun
  obtain ⟨cs, c₁, hmatch, hpure⟩ := bind_inv hrun
  obtain ⟨ds, rfl, hst₁, -, hne⟩ := reads_matching _ hst hmatch
  obtain ⟨rfl, rfl⟩ := pure_inv hpure
  exact ⟨cs, ds, rfl, hst₁, .operator cs, hne⟩

lemma reads_readBlank : Reads readBlank IsLeaf := by
  intro c p text a c' hst hrun
  unfold readBlank at hrun
  obtain ⟨cs, c₁, hmatch, hpure⟩ := bind_inv hrun
  obtain ⟨ds, rfl, hst₁, hlen, hne⟩ := reads_matching _ hst hmatch
  obtain ⟨rfl, rfl⟩ := pure_inv hpure
  have hblank := mem_of_oneOrMore hlen
  refine ⟨cs, ds, rfl, hst₁, ?_, hne⟩
  split
  · rename_i hline
    exact .lineBreak hblank (by simpa using hline)
  · rename_i hline
    exact .space hblank (by simpa using hline)

/-! ## Groups and blocks -/

/-- A token that is not an indented block, and the characters that spell it. -/
def IsPlain (p : Position) (t : Token) (cs : List Char) : Prop :=
  Spells p t cs ∧ cs ≠ [] ∧ ∀ ts, t ≠ .group .indented ts

lemma IsLeaf.isPlain {t : Token} {cs : List Char} (h : IsLeaf p t cs) : IsPlain p t cs := by
  obtain ⟨hleaf, hne⟩ := h
  refine ⟨.leaf hleaf, hne, ?_⟩
  rintro ts rfl
  cases hleaf

/-- A group is what is between its delimiters. -/
lemma readGroup_inv {contents : Option Nat → Parser Char (List (Located Token))} {t : Token}
    (hrun : readGroup contents c = .ok t c') :
    ∃ (kind : GroupKind) (a q : Char) (ts : List (Located Token)) (as bs : List Char)
      (c₁ c₂ : Cursor Char), kind.delimiters = some (a, q) ∧ exactly [a] c = .ok as c₁ ∧
        contents none c₁ = .ok ts c₂ ∧ exactly [q] c₂ = .ok bs c' ∧ t = .group kind ts := by
  unfold readGroup at hrun
  obtain ⟨item, c₀, hpeek, hrest⟩ := bind_inv hrun
  have hc₀ : c₀ = c := by
    rw [peek] at hpeek
    split at hpeek <;> cases hpeek
    rfl
  subst hc₀
  dsimp only at hrest
  cases hfind : [GroupKind.parens, .brackets, .braces].find?
      (·.delimiters.any (·.1 == item.value)) with
  | none =>
    rw [hfind] at hrest
    cases hrest
  | some kind =>
    rw [hfind] at hrest
    obtain ⟨ts, c₃, hdelimited, hpure⟩ := bind_inv hrest
    obtain ⟨rfl, rfl⟩ := pure_inv hpure
    -- the kind was found by the character that opens it
    have hkind := List.find?_some hfind
    cases hdelimiters : kind.delimiters with
    | none => simp [hdelimiters] at hkind
    | some delimiters =>
      obtain ⟨a, q⟩ := delimiters
      obtain rfl : a = item.value := by simpa [hdelimiters] using hkind
      rw [hdelimiters] at hdelimited
      obtain ⟨as, c₁, hopening, hrest⟩ := bind_inv hdelimited
      obtain ⟨us, c₂, htokens, hrest⟩ := bind_inv hrest
      obtain ⟨bs, c₃, hclosing, hpure⟩ := bind_inv hrest
      obtain ⟨rfl, rfl⟩ := pure_inv hpure
      exact ⟨kind, _, q, _, as, bs, c₁, c₂, hdelimiters, hopening, htokens, hclosing, rfl⟩

section Contents

variable {contents : Option Nat → Parser Char (List (Located Token))}
  (hcontents : ∀ k, Reads (contents k) Tiles)

include hcontents

lemma reads_readGroup : Reads (readGroup contents) IsPlain := by
  intro c p text t c' hst hrun
  obtain ⟨kind, a, q, ts, as, bs, c₁, c₂, hkind, hopening, htokens, hclosing, rfl⟩ :=
    readGroup_inv hrun
  obtain ⟨_, es, rfl, hst₁, rfl⟩ := reads_exactly _ hst hopening
  obtain ⟨cs, fs, rfl, hst₂, htiles⟩ := hcontents none hst₁ htokens
  obtain ⟨_, ds, rfl, hst₃, rfl⟩ := reads_exactly _ hst₂ hclosing
  have hplace : p.after (a :: cs ++ [q]) = ((p.after [a]).after cs).after [q] := by
    simp only [← Position.after_append, List.cons_append, List.nil_append]
  refine ⟨a :: cs ++ [q], ds, by simp, by rwa [hplace], .delimited hkind htiles, by simp, ?_⟩
  rintro us ⟨⟩
  cases hkind

lemma reads_readToken : Reads (readToken contents) fun p t cs =>
    IsPlain p t.value cs ∧ t.span = ⟨p, p.after cs⟩ := by
  intro c p text a c' hst hrun
  unfold readToken at hrun
  replace hrun := get_inv hrun
  obtain ⟨token, c₁, hchoice, hrest⟩ := bind_inv hrun
  have hreads : ∀ m ∈ [readKeyword, readComma, readNumber, readText, readRawName, readBareName,
      readOperator, readGroup contents, readBlank], Reads m IsPlain := by
    have hleaf : ∀ {m : Parser Char Token}, Reads m IsLeaf → Reads m IsPlain :=
      fun h => h.mono fun _ _ _ => IsLeaf.isPlain
    simp only [List.forall_mem_cons, List.not_mem_nil, false_implies, implies_true, and_true]
    exact ⟨hleaf reads_readKeyword, hleaf reads_readComma, hleaf reads_readNumber,
      hleaf reads_readText, hleaf reads_readRawName, hleaf reads_readBareName,
      hleaf reads_readOperator, reads_readGroup hcontents, hleaf reads_readBlank⟩
  obtain ⟨cs, ds, rfl, hst₁, hplain⟩ := reads_choice hreads hst hchoice
  replace hrest := get_inv hrest
  obtain ⟨rfl, rfl⟩ := pure_inv hrest
  exact ⟨cs, ds, rfl, hst₁, hplain, by rw [hst.position_eq, hst₁.position_eq]⟩

end Contents

/-- The white space in front of the first line of a block goes up to a character that is not
white space, unless there is none. -/
lemma readReference_reads {n : Nat} (hst : Stands c p text) (hrun : readReference c = .ok n c')
    (hn : n ≠ 0) :
    ∃ cs ds, text = cs ++ ds ∧ Stands c' (p.after cs) ds ∧ (∀ d ∈ cs, isBlank d = true) ∧
      ∀ d ∈ ds.head?, isBlank d = false := by
  unfold readReference at hrun
  replace hrun := get_inv hrun
  unfold Pattern.match? at hrun
  rw [hst.upcoming_eq] at hrun
  cases hlen : blankPattern.length? text with
  | none =>
    rw [hlen] at hrun
    dsimp only [Option.map_none] at hrun
    split at hrun
    · cases hrun
    · obtain ⟨rfl, -⟩ := pure_inv hrun
      exact absurd rfl hn
  | some k =>
    rw [hlen] at hrun
    dsimp only [Option.map_some] at hrun
    split at hrun
    · obtain ⟨blank, c₁, htake, hpure⟩ := bind_inv hrun
      obtain ⟨-, rfl⟩ := pure_inv hpure
      obtain ⟨cs, ds, rfl, hst₁, -, hcs⟩ := reads_takeItems _ hst htake
      rename_i hlt
      rw [hst.length_rest, List.length_append, hcs.symm] at hlt
      -- as many characters are taken as there is white space
      have hk : k = Pattern.runLength isBlank (cs ++ ds) := by
        unfold blankPattern Pattern.oneOrMore at hlen
        dsimp only at hlen
        split at hlen <;> cases hlen
        rfl
      rw [hk, take_runLength] at hcs
      have hdrop := drop_runLength isBlank (cs ++ ds)
      rw [show Pattern.runLength isBlank (cs ++ ds) = cs.length from hcs.symm,
        List.drop_left] at hdrop
      refine ⟨cs, ds, rfl, hst₁, mem_of_runLength hcs.symm, ?_⟩
      intro d hd
      have hhead := List.head?_dropWhile_not isBlank (cs ++ ds)
      rw [← hdrop, hd] at hhead
      simpa using hhead
    · cases hrun

lemma reads_space : Reads (matching spacePattern) fun _ _ cs => ∀ d ∈ cs, isBlank d = true := by
  intro c p text a c' hst hrun
  obtain ⟨ds, rfl, hst₁, hlen, -⟩ := reads_matching _ hst hrun
  refine ⟨a, ds, rfl, hst₁, fun d hd => ?_⟩
  have := mem_of_oneOrMore hlen d hd
  rw [Bool.and_eq_true] at this
  exact this.1

/-- The space in front of a block, its line feed and what is in front of its first line are white
space, behind which its contents are read. -/
lemma readBlock_parts {contents : Option Nat → Parser Char (List (Located Token))}
    {enclosing : Nat} {t : Located Token} (hst : Stands c p text)
    (hrun : readBlock contents enclosing c = .ok t c') :
    ∃ blank ds k ts c₁, text = blank ++ ds ∧ (∀ d ∈ blank, isBlank d = true) ∧ '\n' ∈ blank ∧
      (∀ d ∈ ds.head?, isBlank d = false) ∧ Stands c₁ (p.after blank) ds ∧
      contents k c₁ = .ok ts c' ∧ t = ⟨.group .indented ts, ⟨p, c'.position⟩⟩ := by
  obtain rfl := hst.position_eq
  replace hrun := get_inv hrun
  obtain ⟨front?, c₁, hspace, hrun⟩ := bind_inv hrun
  obtain ⟨_, c₂, hline, hrun⟩ := bind_inv hrun
  obtain ⟨reference, c₃, hreference, hrun⟩ := bind_inv hrun
  split at hrun
  · cases hrun
  · obtain ⟨ts, c₄, htokens, hrun⟩ := bind_inv hrun
    replace hrun := get_inv hrun
    obtain ⟨rfl, rfl⟩ := pure_inv hrun
    obtain ⟨front, ds, rfl, hst₁, hfront⟩ := reads_optional reads_space hst hspace
    obtain ⟨_, es, rfl, hst₂, rfl⟩ := reads_exactly _ hst₁ hline
    obtain ⟨lead, fs, rfl, hst₃, hlead, hfirst⟩ :=
      readReference_reads hst₂ hreference (by omega)
    -- space, line feed and indentation are white space together
    have hblank : ∀ d ∈ front ++ ['\n'] ++ lead, isBlank d = true := by
      have hfront' : ∀ d ∈ front, isBlank d = true := by
        cases front? with
        | some a => exact hfront
        | none =>
          obtain rfl : front = [] := hfront
          exact List.forall_mem_nil _
      simp only [List.forall_mem_append, List.forall_mem_singleton]
      exact ⟨⟨hfront', by decide⟩, hlead⟩
    refine ⟨front ++ ['\n'] ++ lead, fs, _, ts, c₃, by simp, hblank, by simp, hfirst, ?_, htokens,
      rfl⟩
    simpa only [Position.after_append] using hst₃

lemma reads_readBlock {contents : Option Nat → Parser Char (List (Located Token))}
    (hcontents : ∀ k, Reads (contents k) Tiles) (enclosing : Nat) :
    Reads (readBlock contents enclosing) fun p t cs =>
      ∃ ts, t = ⟨.group .indented ts, ⟨p, p.after cs⟩⟩ ∧ Spells p (.group .indented ts) cs ∧
        cs ≠ [] := by
  intro c p text t c' hst hrun
  obtain ⟨blank, _, k, ts, c₁, rfl, hblank, hline, hfirst, hst₁, htokens, rfl⟩ :=
    readBlock_parts hst hrun
  obtain ⟨cs, ds, rfl, hst₂, htiles⟩ := hcontents k hst₁ htokens
  rw [← Position.after_append] at hst₂
  have hfirst' : ∀ d ∈ cs.head?, isBlank d = false := by
    intro d hd
    refine hfirst d ?_
    rw [List.head?_append, Option.mem_def.mp hd]
    rfl
  refine ⟨blank ++ cs, ds, by simp, hst₂, ts, ?_, .indented hblank hline hfirst' htiles, ?_⟩
  · rw [hst₂.position_eq]
  · exact List.append_ne_nil_of_left_ne_nil (List.ne_nil_of_mem hline) cs

/-! ## Rows -/

/-- A single token that is no block. -/
lemma Tiles.of_isPlain {t : Located Token} {cs : List Char} (h : IsPlain p t.value cs)
    (hspan : t.span = ⟨p, p.after cs⟩) : Tiles p [t] cs := by
  obtain ⟨t, span⟩ := t
  obtain ⟨hspells, hne, hplain⟩ := h
  obtain rfl : span = _ := hspan
  have htiles := Tiles.cons hplain hspells hne .nil
  rwa [List.append_nil] at htiles

section Contents

variable {contents : Option Nat → Parser Char (List (Located Token))}

/-- What a step of a row does: the row is at its end, or no token can be read, or a token is read,
with the block behind it if it opens one. -/
inductive RowStep (contents : Option Nat → Parser Char (List (Located Token))) (E : Option Nat)
    (c : Cursor Char) : Option (List (Located Token) × Bool) → Cursor Char → Prop
  | ends (hends : E.any (blockEnds · c.upcoming) = true) : RowStep contents E c none c
  | stalls {c' : Cursor Char} (hgoes : E.any (blockEnds · c.upcoming) = false)
      (htoken : Parsing.optional (readToken contents) c = .ok none c') :
      RowStep contents E c none c'
  | plain {c' : Cursor Char} {t : Located Token} (hgoes : E.any (blockEnds · c.upcoming) = false)
      (htoken : Parsing.optional (readToken contents) c = .ok (some t) c')
      (hplain : t.value.opensBlock = false) : RowStep contents E c (some ([t], true)) c'
  | blockless {c₁ c' : Cursor Char} {t : Located Token}
      (hgoes : E.any (blockEnds · c.upcoming) = false)
      (htoken : Parsing.optional (readToken contents) c = .ok (some t) c₁)
      (hopens : t.value.opensBlock = true)
      (hblock : Parsing.optional (readBlock contents (E.getD 0)) c₁ = .ok none c') :
      RowStep contents E c (some ([t], true)) c'
  | block {c₁ c' : Cursor Char} {t b : Located Token}
      (hgoes : E.any (blockEnds · c.upcoming) = false)
      (htoken : Parsing.optional (readToken contents) c = .ok (some t) c₁)
      (hopens : t.value.opensBlock = true)
      (hblock : Parsing.optional (readBlock contents (E.getD 0)) c₁ = .ok (some b) c') :
      RowStep contents E c (some ([t, b, ⟨lineBreak, Span.point b.span.stop⟩], true)) c'

lemma rowStep_of_readStep {E : Option Nat} {o : Option (List (Located Token) × Bool)}
    (h : readStep contents E c = .ok o c') : RowStep contents E c o c' := by
  replace h := get_inv h
  cases hends : E.any (blockEnds · c.upcoming) with
  | true =>
    rw [if_pos hends] at h
    obtain ⟨rfl, rfl⟩ := pure_inv h
    exact .ends hends
  | false =>
    rw [if_neg (by rw [hends]; exact Bool.false_ne_true)] at h
    obtain ⟨_ | t, c₁, htoken, h⟩ := bind_inv h
    · obtain ⟨rfl, rfl⟩ := pure_inv h
      exact .stalls hends htoken
    · dsimp only at h
      split at h
      · rename_i hopens
        obtain ⟨_ | b, c₂, hblock, h⟩ := bind_inv h
        · obtain ⟨rfl, rfl⟩ := pure_inv h
          exact .blockless hends htoken hopens hblock
        · obtain ⟨rfl, rfl⟩ := pure_inv h
          exact .block hends htoken hopens hblock
      · rename_i hplain
        obtain ⟨rfl, rfl⟩ := pure_inv h
        exact .plain hends htoken (Bool.eq_false_iff.mpr hplain)

variable (hcontents : ∀ k, Reads (contents k) Tiles)

include hcontents

lemma reads_readStep (k : Option Nat) :
    Reads (readStep contents k) (Perhaps fun p a cs => Tiles p a.1 cs) := by
  have htokens := reads_optional (reads_readToken hcontents)
  have hblocks := reads_optional (reads_readBlock hcontents (k.getD 0))
  intro c p text o c' hst hrun
  cases rowStep_of_readStep hrun with
  | ends => exact ⟨[], text, rfl, hst, rfl⟩
  | stalls hgoes htoken =>
    obtain ⟨cs, ds, rfl, hst₁, rfl⟩ := htokens hst htoken
    exact ⟨[], ds, rfl, hst₁, rfl⟩
  | plain hgoes htoken hplain =>
    obtain ⟨cs, ds, rfl, hst₁, hcs⟩ := htokens hst htoken
    exact ⟨cs, ds, rfl, hst₁, Tiles.of_isPlain hcs.1 hcs.2⟩
  | blockless hgoes htoken hopens hblock =>
    obtain ⟨cs, ds, rfl, hst₁, hcs⟩ := htokens hst htoken
    obtain ⟨es, fs, rfl, hst₂, rfl⟩ := hblocks hst₁ hblock
    exact ⟨cs, fs, rfl, hst₂, Tiles.of_isPlain hcs.1 hcs.2⟩
  | @block c₁ _ t b hgoes htoken hopens hblock =>
    obtain ⟨cs, ds, rfl, hst₁, hcs⟩ := htokens hst htoken
    obtain ⟨es, fs, rfl, hst₂, ts, rfl, hinside, hne⟩ := hblocks hst₁ hblock
    refine ⟨cs ++ es, fs, by simp, by rwa [Position.after_append], ?_⟩
    have htail : Tiles (p.after cs) [_, ⟨.lineBreak, _⟩] (es ++ []) :=
      Tiles.block hinside hne .nil
    rw [List.append_nil] at htail
    exact (Tiles.of_isPlain hcs.1 hcs.2).append htail

lemma reads_readRow (k : Option Nat) : Reads (readRow contents k) Tiles := by
  refine (reads_map (reads_collect (R := Tiles) (reads_readStep hcontents k))).mono ?_
  rintro p a cs ⟨rows, rfl, hpieces⟩
  induction hpieces with
  | nil => exact .nil
  | cons head _ ih => exact head.append ih

end Contents

lemma reads_readTokens (k : Option Nat) : Reads (readTokens k) Tiles :=
  reads_fix (R := fun _ => Tiles) (fun _ h => reads_readRow h) k

/-! ## Texts -/

/-- The tokens of a text tile it. -/
lemma tiles_of_ofText {tokens : List (Located Token)} (h : ofText text = .ok tokens) :
    Tiles {} tokens text := by
  unfold ofText at h
  cases hrun : readTokens none (Cursor.ofText text) with
  | error f c =>
    rw [hrun] at h
    cases h
  | ok ts c =>
    rw [hrun] at h
    obtain ⟨cs, ds, rfl, hst, htiles⟩ := reads_readTokens none (stands_ofText text) hrun
    dsimp only at h
    split at h
    · rename_i hend
      cases h
      rw [hst.atEnd_iff.mp hend, List.append_nil]
      exact htiles
    · cases h

/-- Nothing of a text is lost when it is read into tokens.  The tokens follow each other without
gaps from its beginning to its end, and so do those of every group in what the group encloses.
Every token, at any depth, has the span of a part of the text that spells it; only a line break
after an indented block has an empty one. -/
theorem lossless_of_ofText {tokens : List (Located Token)} (h : ofText text = .ok tokens) :
    Tiles {} tokens text ∧
    Row {} (Position.after {} text) (tokens.map Located.span) ∧
    ∀ t, Within tokens t → ∃ before cs after, text = before ++ cs ++ after ∧
      t.span = ⟨Position.after {} before, Position.after {} (before ++ cs)⟩ ∧
      t.span.slice? text = some cs ∧
      (Spells t.span.start t.value cs ∧ cs ≠ [] ∨ t.value = .lineBreak ∧ cs = []) := by
  have htiles := tiles_of_ofText h
  refine ⟨htiles, htiles.row, fun t ht => ?_⟩
  obtain ⟨before, cs, after, rfl, hspan, hspells⟩ := htiles.covers_of_within ht
  refine ⟨before, cs, after, rfl, hspan, ?_, ?_⟩
  · rw [hspan]
    exact slice?_eq_some before cs after
  · rwa [hspan]

/-- A block covers the line break and the white space in front of it, and is followed by a line
break without extent. -/
theorem lossless_of_block :
    ∃ tokens, ofText ['w', 'h', 'e', 'r', 'e', '\n', ' ', 'x'] = .ok tokens ∧
      Tiles {} tokens ['w', 'h', 'e', 'r', 'e', '\n', ' ', 'x'] ∧ tokens.map Located.span =
        [⟨⟨0, 1, 1⟩, ⟨5, 1, 6⟩⟩, ⟨⟨5, 1, 6⟩, ⟨8, 2, 3⟩⟩, ⟨⟨8, 2, 3⟩, ⟨8, 2, 3⟩⟩] := by
  have hspans : (ofText ['w', 'h', 'e', 'r', 'e', '\n', ' ', 'x']).toOption.map
      (·.map Located.span) =
      some [⟨⟨0, 1, 1⟩, ⟨5, 1, 6⟩⟩, ⟨⟨5, 1, 6⟩, ⟨8, 2, 3⟩⟩, ⟨⟨8, 2, 3⟩, ⟨8, 2, 3⟩⟩] := by
    decide +kernel
  obtain ⟨tokens, htokens, hspans⟩ := Option.map_eq_some_iff.mp hspans
  have h := eq_ok_of_toOption htokens
  exact ⟨tokens, h, (lossless_of_ofText h).1, hspans⟩

end Formulary.Token
