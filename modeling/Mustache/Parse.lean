import Mustache.Node.OfTokens

/-!
# Parsing

A template text is cut into tokens and the tokens are nested.  All tags are read before the first
one is nested, so a fault of a single tag is reported before any fault of nesting.
-/

namespace Mustache

def Tree.ofText (source : Text) : Except Fault Tree :=
  (Token.ofText source).bind Tree.ofTokens

theorem Tree.exists_tokens_of_ofText {source : Text} {tree : Tree} (h : ofText source = .ok tree) :
    ∃ ts, Token.ofText source = .ok ts ∧ ofTokens ts = .ok tree := by
  rw [ofText] at h
  cases hts : Token.ofText source with
  | error f =>
    rw [hts] at h
    cases h
  | ok ts =>
    rw [hts] at h
    exact ⟨ts, rfl, h⟩

/-- the nodes of a template text, or what is wrong with it and where -/
def parse (source : Text) : Except ParseError Tree :=
  (Tree.ofText source).mapError (Fault.locate source)

theorem parse_eq_ok_iff {source : Text} {tree : Tree} :
    parse source = .ok tree ↔ Tree.ofText source = .ok tree := by
  rw [parse]
  cases Tree.ofText source with
  | error f =>
    constructor <;> intro h <;> cases h
  | ok t =>
    constructor <;> intro h <;> cases h <;> rfl

theorem parse_eq_error_iff {source : Text} {e : ParseError} :
    parse source = .error e ↔ ∃ f, Tree.ofText source = .error f ∧ f.locate source = e := by
  rw [parse]
  cases Tree.ofText source with
  | error f =>
    constructor
    · intro h
      cases h
      exact ⟨f, rfl, rfl⟩
    · rintro ⟨f', hf, rfl⟩
      cases hf
      rfl
  | ok t =>
    constructor
    · intro h
      cases h
    · rintro ⟨f, hf, -⟩
      cases hf

theorem parse_nil : parse [] = .ok [] := parse_eq_ok_iff.2 (by with_unfolding_all rfl)

end Mustache
