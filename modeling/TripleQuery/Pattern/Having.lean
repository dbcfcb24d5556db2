import TripleQuery.Pattern.Basic

/-!
# Restrictions of an answer

A query may keep only the rows that occur a certain number of times. Such a restriction is a pattern
that counts occurrences.
-/

namespace TripleQuery

/-- A pattern that can restrict the rows of an answer. -/
structure Having where
  pattern : Pattern
  isHaving : pattern.kind.isHaving = true
  deriving DecidableEq

namespace Having

def ofPattern (p : Pattern) : Except QueryFault Having :=
  if h : p.kind.isHaving = true then .ok ⟨p, h⟩ else .error .notOccursHaving

def kind (h : Having) : Kind := h.pattern.kind

def render (h : Having) : String := h.pattern.render

theorem pattern_of_ofPattern {p : Pattern} {h : Having} (e : ofPattern p = .ok h) :
    h.pattern = p := by
  unfold ofPattern at e
  split at e <;> cases e
  rfl

end Having
end TripleQuery
