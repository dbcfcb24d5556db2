/-!
# Faults of a query

What a user can get wrong in a query or a command that is written correctly.
-/

namespace TripleQuery

inductive QueryFault where
  | missingFrom
  | missingWhere
  | noVariables
  | unconstrained (name : String)
  | graphOnClosure
  | severalHaving
  | notOccursHaving
  | literalSubjectOrPredicate
  | placeholderPredicate
  | placeholdersInDeletion
  | graphAsStatements
  /-- A command that should be a query; holds its keyword. -/
  | notAQuery (keyword : String)
  deriving DecidableEq, Repr

def QueryFault.message : QueryFault → String
  | missingFrom => "FROM clause missing."
  | missingWhere => "WHERE clause missing."
  | noVariables => "No variables parseable from query"
  | unconstrained name =>
    "Failed to constrain all variables: $" ++ name ++ " not constrained in WHERE or GIVEN clauses"
  | graphOnClosure => "Illegal in clause on transitive constraint."
  | severalHaving => "Having currently supports only one constraint"
  | notOccursHaving => "Only \"occurs\" predicates can be used in a Having clause"
  | literalSubjectOrPredicate => "Subject or Predicate cannot be a literal"
  | placeholderPredicate => "Predicate must be a valid URI"
  | placeholdersInDeletion => "Cannot use variables when deleting statements"
  | graphAsStatements => "Models cannot be inserted into or deleted from other models"
  | notAQuery keyword => "Not a query command: " ++ keyword

end TripleQuery
