/-
# Written texts read back

A text is written between quotes with every backslash doubled, and a quote inside it is written as
it is.  Read again, a backslash keeps the character after it, and the first quote without one ends
the text.  So a text without quotes comes back as just that text, whatever backslashes, line breaks
and other characters it holds, and a text with quotes is cut at the first one of them.
-/
import Formulary.Proofs.Token.Alone

namespace Formulary.Layout

open Text Parsing Token

variable {v : String} {before after : List Char}

/-- A written text up to a quote in it is the text in front of that quote. -/
lemma toList_text_of_quote (h : v.toList = before ++ '"' :: after) :
    (text v).toList =
      (text (String.ofList before)).toList ++ (doubleBackslashes after ++ ['"']) := by
  simp [text, h, doubleBackslashes]

/-- A text without quotes is read from what is written for it, whatever comes behind. -/
lemma accepts_readToken_text_of_not_mem (h : '"' ∉ v.toList) (ds : List Char) :
    Accepts (Around none ((text v).toList ++ ds)) (readToken readTokens) fun t r i =>
      t.value = .text v ∧ Around (some '"') ds r i := by
  have hsplit : (text v).toList ++ ds =
      '"' :: doubleBackslashes v.toList ++ '"' :: ds := by simp [text]
  rw [hsplit]
  exact accepts_readToken_text (unescapes_doubleBackslashes h)

lemma alone_text (h : '"' ∉ v.toList) : Alone (.text v) (text v).toList :=
  alone_of_accepts (accepts_readToken_text_of_not_mem h []) rfl

/-- The first quote in a text ends it. -/
lemma head?_of_quote (h : v.toList = before ++ '"' :: after) (hbefore : '"' ∉ before)
    {ts : List (Located Token)} (hrun : ofText (text v).toList = .ok ts) :
    ts.head? = some ⟨.text (String.ofList before), {},
      Position.after {} (text (String.ofList before)).toList⟩ := by
  rw [toList_text_of_quote h] at hrun
  refine head?_of_accepts (accepts_readToken_text_of_not_mem ?_ _) rfl hrun
  rwa [String.toList_ofList]

/-- What is written for a text is read back as that text and nothing else exactly if it holds no
quote.  If it does, then the first token, if there are tokens, is the part in front of the first
quote. -/
theorem text_read_back (v : String) :
    ((∃ span, ofText (text v).toList = .ok [⟨.text v, span⟩]) ↔ '"' ∉ v.toList) ∧
      ∀ before after, v.toList = before ++ '"' :: after → '"' ∉ before →
        ∀ ts, ofText (text v).toList = .ok ts →
          ts.head? = some ⟨.text (String.ofList before), {},
            Position.after {} (text (String.ofList before)).toList⟩ := by
  refine ⟨⟨?_, fun h => ⟨_, alone_text h⟩⟩, fun before after h hbefore ts hrun =>
    head?_of_quote h hbefore hrun⟩
  rintro ⟨span, hrun⟩ hmem
  obtain ⟨before, after, h, hbefore⟩ := List.eq_append_cons_of_mem hmem
  have hhead := head?_of_quote h hbefore hrun
  simp only [List.head?_cons, Option.some.injEq, Located.mk.injEq, Token.text.injEq] at hhead
  -- the part in front of a quote is shorter than the text
  have hlength := congrArg List.length (hhead.1 ▸ h)
  simp at hlength

/-- An element with the end of a text, a comma and the start of a text in it becomes two. -/
theorem text_read_back_of_separator :
    (∃ span, ofText (text "a→\\\n").toList = .ok [⟨.text "a→\\\n", span⟩]) ∧
      ∃ ts, ofText (text "a\", \"b").toList = .ok ts ∧ ts.length = 4 ∧
        ts.head?.map Located.value = some (.text "a") := by
  refine ⟨(text_read_back _).1.mpr (by decide), ?_⟩
  have hlength : (ofText (text "a\", \"b").toList).toOption.map List.length = some 4 := by
    decide +kernel
  obtain ⟨ts, hts, hfour⟩ := Option.map_eq_some_iff.mp hlength
  have hrun := eq_ok_of_toOption hts
  have hhead := (text_read_back "a\", \"b").2 ['a'] [',', ' ', '"', 'b'] (by decide) (by decide)
    ts hrun
  exact ⟨ts, hrun, hfour, congrArg (Option.map Located.value) hhead⟩

/-- A quote on its own is written as three of them, and these cannot be read. -/
theorem not_text_read_back : ¬∃ span, ofText (text "\"").toList = .ok [⟨.text "\"", span⟩] := by
  rintro ⟨span, hrun⟩
  have hnone : (ofText (text "\"").toList).toOption.isSome = false := by decide +kernel
  rw [hrun] at hnone
  cases hnone

end Formulary.Layout
