import TripleQuery.Pattern.Basic
import TripleQuery.Text.Operation

/-!
# Conditions

What the rows of an answer have to meet: constraints joined by `and`, `or` and `minus`, and closures
and walks along a predicate. Only a single constraint can be negated; that is why negation belongs
to `Constraint`. Two negations do not cancel out.
-/

namespace TripleQuery

/-- A pattern under any number of negations. -/
inductive Constraint where
  | pattern (pattern : Pattern)
  | not (inner : Constraint)
  deriving DecidableEq, Repr

namespace Constraint

def innermost : Constraint → Pattern
  | pattern p => p
  | not inner => inner.innermost

def isNegated : Constraint → Bool
  | pattern _ => false
  | not _ => true

def negated (p : Pattern) : Nat → Constraint
  | 0 => pattern p
  | times + 1 => not (negated p times)

def varNames (c : Constraint) : List String := c.innermost.varNames

def render : Constraint → String
  | pattern p => p.render
  | not inner => "not " ++ inner.render

end Constraint

/-- The operators that join two conditions, the one that binds least first. -/
inductive Condition.Operator where
  | or
  | and
  | minus
  deriving DecidableEq, Repr

def Condition.Operator.word : Operator → String
  | or => "or"
  | and => "and"
  | minus => "minus"

inductive Condition where
  | constraint (constraint : Constraint)
  | join (operator : Condition.Operator) (left right : Condition)
  | closure (pattern : Pattern)
  | closureFrom (anchor pattern : Pattern)
  | walk (anchor pattern : Pattern)
  deriving DecidableEq, Repr

namespace Condition

def isOperation : Condition → Bool
  | join .. => true
  | _ => false

def constraint? : Condition → Option Constraint
  | constraint c => some c
  | _ => none

/-- The patterns from left to right, an anchor before its pattern. -/
def patterns : Condition → List Pattern
  | constraint c => [c.innermost]
  | join _ left right => left.patterns ++ right.patterns
  | closure p => [p]
  | closureFrom anchor p | walk anchor p => [anchor, p]

def varNames (c : Condition) : List String := c.patterns.flatMap Pattern.varNames

def render : Condition → String
  | constraint c => c.render
  | join operator left right => Text.operation left.render operator.word right.render
  | closure p => "trans(" ++ p.render ++ ")"
  | closureFrom anchor p => "trans" ++ Text.operation anchor.render "and" p.render
  | walk anchor p => "walk" ++ Text.operation anchor.render "and" p.render

end Condition
end TripleQuery
