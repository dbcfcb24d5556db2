import TripleQuery.Graphs.Basic
import TripleQuery.Prefixes

/-!
# Written graph expressions

The grammar of graph expressions: `or` binds least, then `and`, then `par`, all three to the left. A
factor is a token or a group in parentheses. Phrases are indexed by how tightly they bind.
-/

namespace TripleQuery.Graphs

/-- How tightly a phrase binds: as one operator does, or as a factor. -/
inductive Level where
  | operator (operator : Operator)
  | factor
  deriving DecidableEq, Repr

def Operator.tighter : Operator → Level
  | or => .operator and
  | and => .operator par
  | par => .factor

/-- A written graph expression that binds as tightly as its level. -/
inductive Phrase : Level → Type where
  /-- An operation; further operations of the level may stand on its left side only. -/
  | join (operator : Operator) (left : Phrase (.operator operator))
      (right : Phrase operator.tighter) : Phrase (.operator operator)
  | tight (operator : Operator) (inner : Phrase operator.tighter) : Phrase (.operator operator)
  | graph (token : String) : Phrase .factor
  | group (inner : Phrase (.operator .or)) : Phrase .factor

abbrev Written : Type := Phrase (.operator .or)

/-- The expression for which a phrase stands; the first token from the left that stands for no IRI
is reported. -/
def Phrase.resolve (prefixes : Prefixes) : {level : Level} → Phrase level → Except Error Graphs
  | _, join operator left right => do
    let left ← left.resolve prefixes
    let right ← right.resolve prefixes
    return .join operator left right
  | _, tight _ inner => inner.resolve prefixes
  | _, graph token => do
    let iri ← prefixes.resolve token
    return .graph iri.text
  | _, group inner => inner.resolve prefixes

end TripleQuery.Graphs
