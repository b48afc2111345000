/-
# Rows of tokens that meet

Two rows of tokens meet if they hold the same tokens, one by one, at places that two maps of
positions carry to the same.  Meeting is meant to be what the grammar cannot tell apart, so it
allows for more: an indented block may stand for a group in braces, the first row may end in white
space that the second one lacks, and the second row may go on with further tokens.
-/
import Formulary.Proofs.Formula.Moved
import Formulary.Proofs.Token.Spelling

namespace Formulary

open Text

/-- Whether the group is a block: an indented one, or one in braces. -/
def GroupKind.isBlock (kind : GroupKind) : Bool := kind == .indented || kind == .braces

/-- The groups are of one kind, if braces count as indentation. -/
def GroupKind.Meet (kind kind' : GroupKind) : Prop :=
  kind = kind' ∨ kind.isBlock = true ∧ kind'.isBlock = true

namespace Token

variable {φ ψ : Position → Position}

mutual

/-- Two tokens that are the same, but for the places of the tokens in them. -/
inductive Meet (φ ψ : Position → Position) : Token → Token → Prop
  | leaf {t : Token} (h : ∀ kind ts, t ≠ .group kind ts) : Meet φ ψ t t
  | group {kind kind' : GroupKind} {ts us : List (Located Token)} (hkind : kind.Meet kind')
      (h : RowsMeet φ ψ [] ts us) : Meet φ ψ (.group kind ts) (.group kind' us)

/-- The tokens of the first row are those of the second up to a further row `more`.  Before that
the first row may end in a space; and if the second row does go on, in a line break. -/
inductive RowsMeet (φ ψ : Position → Position) :
    List (Located Token) → List (Located Token) → List (Located Token) → Prop
  | done {more : List (Located Token)} : RowsMeet φ ψ more [] more
  | blank {more : List (Located Token)} {t : Token} {span : Span}
      (h : t = .space ∨ t = .lineBreak ∧ more ≠ []) : RowsMeet φ ψ more [⟨t, span⟩] more
  | cons {more ts us : List (Located Token)} {t u : Token} {s s' : Span} (head : Meet φ ψ t u)
      (hspan : s.move φ = s'.move ψ) (tail : RowsMeet φ ψ more ts us) :
      RowsMeet φ ψ more (⟨t, s⟩ :: ts) (⟨u, s'⟩ :: us)

end

/-- A test that takes all groups for the same does not tell apart tokens that meet. -/
lemma Meet.holds_eq {holds : Token → Bool} (hgroup : ∀ kind ts, holds (.group kind ts) = false)
    {t u : Token} (h : Meet φ ψ t u) : holds t = holds u := by
  cases h with
  | leaf _ => rfl
  | group _ _ => rw [hgroup, hgroup]

end Token

end Formulary
