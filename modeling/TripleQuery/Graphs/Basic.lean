import TripleQuery.Term.Basic
import TripleQuery.Text.Operation

/-!
# Graph expressions

The graphs that a query looks in: single graphs joined by `or`, `and` and `par`.
-/

namespace TripleQuery

/-- The operators that join two expressions, the one that binds least first. -/
inductive Graphs.Operator where
  | or
  | and
  | par
  deriving DecidableEq, Repr

def Graphs.Operator.word : Operator → String
  | or => "or"
  | and => "and"
  | par => "par"

/-- An expression over graphs, which are known by their IRIs. -/
inductive Graphs where
  | graph (iri : String)
  | join (operator : Graphs.Operator) (left right : Graphs)
  deriving DecidableEq, Repr

namespace Graphs

def leaves : Graphs → List String
  | graph iri => [iri]
  | join _ left right => left.leaves ++ right.leaves

def render : Graphs → String
  | graph iri => renderIri iri
  | join operator left right => Text.operation left.render operator.word right.render

end Graphs
end TripleQuery
