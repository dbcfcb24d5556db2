import TripleQuery.Condition.Basic
import TripleQuery.Iri.Fault

/-!
# Errors

Why a written query or command has no meaning. An error holds its cause; `Error.message` alone knows
the words.
-/

namespace TripleQuery

/-- What no reader of the query language would let pass. -/
inductive GrammarFault where
  | variableName (name : String)
  | emptySelect
  | emptyOrder
  | limit (text : String)
  | offset (text : String)
  | negatedCondition (operand : Condition)
  deriving DecidableEq, Repr

def GrammarFault.message : GrammarFault → String
  | variableName name =>
    "invalid variable name " ++ Variable.render name ++ ": The variable name is invalid"
  | emptySelect => "Empty select clause"
  | emptyOrder => "Empty order by clause"
  | limit text => "Non-integer limit " ++ text
  | offset text => "Non-integer offset " ++ text
  | negatedCondition operand => "Only constraints can be negated, found " ++ operand.render

inductive Error where
  | malformed (text : String) (fault : Iri.Fault)
  | query (fault : QueryFault)
  | grammar (fault : GrammarFault)
  deriving DecidableEq, Repr

def Error.message : Error → String
  | malformed text fault => "Malformed reference " ++ text ++ ": " ++ fault.message
  | query fault => fault.message
  | grammar fault => "Internal error: " ++ fault.message

end TripleQuery
