/-
# Tokens without places

What a row of tokens says apart from where its tokens were read.  The grammar looks at nothing
else, but for the places of what it gives.
-/
import Mathlib.Tactic.Common
import Formulary.Token.Basic

namespace Formulary.Token

open Text

/-- A group of tokens without places. -/
def grouped (kind : GroupKind) (tokens : List Token) : Token :=
  group kind (tokens.map (⟨·, {}⟩))

mutual

/-- A token without the places of the tokens in it. -/
def bare : Token → Token
  | group kind tokens => grouped kind (bares tokens)
  | ident name raw => ident name raw
  | operator symbol => operator symbol
  | number whole fraction => number whole fraction
  | bool value => bool value
  | null => null
  | text value => text value
  | comma => comma
  | space => space
  | lineBreak => lineBreak

/-- A row of tokens without their places. -/
def bares : List (Located Token) → List Token
  | [] => []
  | ⟨token, _⟩ :: tokens => token.bare :: bares tokens

end

@[simp] lemma bares_nil : bares [] = [] := by rw [bares]

@[simp] lemma bares_cons (token : Located Token) (tokens : List (Located Token)) :
    bares (token :: tokens) = token.value.bare :: bares tokens := by
  obtain ⟨token, span⟩ := token
  rw [bares]

@[simp] lemma bares_append (ts us : List (Located Token)) : bares (ts ++ us) = bares ts ++ bares us := by
  induction ts with
  | nil => simp
  | cons t ts ih => simp [ih]

lemma bares_eq_nil {ts : List (Located Token)} : bares ts = [] ↔ ts = [] := by
  cases ts <;> simp

lemma length_bares (ts : List (Located Token)) : (bares ts).length = ts.length := by
  induction ts with
  | nil => simp
  | cons t ts ih => simp [ih]

/-- A row that begins with a token has it, with some place, in front. -/
lemma bares_eq_cons {ts : List (Located Token)} {u : Token} {us : List Token}
    (h : bares ts = u :: us) : ∃ t rest, ts = t :: rest ∧ t.value.bare = u ∧ bares rest = us := by
  cases ts with
  | nil => simp at h
  | cons t ts =>
    rw [bares_cons, List.cons.injEq] at h
    exact ⟨t, ts, rfl, h⟩

/-- A group without places comes from a group. -/
lemma bare_eq_grouped {t : Token} {kind : GroupKind} {us : List Token} (h : t.bare = grouped kind us) :
    ∃ tokens, t = group kind tokens ∧ bares tokens = us := by
  cases t with
  | group kind' tokens =>
    rw [bare, grouped, grouped, group.injEq] at h
    obtain ⟨rfl, hmap⟩ := h
    refine ⟨tokens, rfl, ?_⟩
    have hvalues := congrArg (List.map Located.value) hmap
    simpa [Function.comp_def] using hvalues
  | _ => simp [bare, grouped] at h

lemma opensBlock_bare (t : Token) : t.bare.opensBlock = t.opensBlock := by
  cases t <;> simp [bare, grouped, opensBlock, isWord]

end Formulary.Token
