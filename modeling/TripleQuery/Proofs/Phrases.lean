import TripleQuery.Query.Phrase

/-!
# Phrases of one factor

The grammar builds a condition level by level. A single factor, which passes all levels, is a
condition with the meaning of that factor; the same holds of the graphs of a query.
-/

namespace TripleQuery

def Condition.Phrase.ofFactor (factor : Condition.Phrase .factor) : Condition.Written :=
  .tight .or (.tight .and (.tight .minus factor))

@[simp] theorem Condition.Phrase.resolve_ofFactor (prefixes : Prefixes)
    (factor : Condition.Phrase .factor) :
    (ofFactor factor).resolve prefixes = factor.resolve prefixes := by
  simp only [ofFactor, Condition.Phrase.resolve]
  rfl

def Graphs.Phrase.ofFactor (factor : Graphs.Phrase .factor) : Graphs.Written :=
  .tight .or (.tight .and (.tight .par factor))

@[simp] theorem Graphs.Phrase.resolve_ofFactor (prefixes : Prefixes)
    (factor : Graphs.Phrase .factor) :
    (ofFactor factor).resolve prefixes = factor.resolve prefixes := by
  simp only [ofFactor, Graphs.Phrase.resolve]
  rfl

/-- The clauses that have to be there, and no others: one graph and one pattern. -/
def Clauses.ofPattern (token : String) (pattern : Pattern.Phrase) : Clauses where
  graphs := some (.ofFactor (.graph token))
  condition := some (.ofFactor (.constraint false pattern))
  order := none
  having := none
  limit := none
  offset := none

end TripleQuery
