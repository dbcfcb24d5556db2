import TripleQuery.Condition.Basic
import TripleQuery.Pattern.Having
import TripleQuery.Term.Phrase

/-!
# Written conditions

The grammar of conditions. `or` binds least, then `and`, then `minus`; all three associate to the
left, and a factor is a constraint, a group in parentheses, a closure or a walk. The type of phrases
is indexed by how tightly they bind, so that a phrase is a condition as the grammar allows it.

`resolve` drops the groups and gives each constraint its pattern. It reports the first error from
left to right.
-/

namespace TripleQuery

structure Pattern.Phrase where
  subject : Term.Phrase
  predicate : Term.Phrase
  object : Term.Phrase
  graph : Option Term.Phrase
  deriving DecidableEq, Repr

namespace Condition

/-- How tightly a phrase binds: as one operator does, or as a factor. -/
inductive Level where
  | operator (operator : Operator)
  | factor
  deriving DecidableEq, Repr

def Operator.tighter : Operator → Level
  | or => .operator and
  | and => .operator minus
  | minus => .factor

/-- A written condition that binds as tightly as its level. -/
inductive Phrase : Level → Type where
  /-- An operation; further operations of the level may stand on its left side only. -/
  | join (operator : Operator) (left : Phrase (.operator operator))
      (right : Phrase operator.tighter) : Phrase (.operator operator)
  | tight (operator : Operator) (inner : Phrase operator.tighter) : Phrase (.operator operator)
  | constraint (negated : Bool) (pattern : Pattern.Phrase) : Phrase .factor
  | group (negated : Bool) (inner : Phrase (.operator .or)) : Phrase .factor
  | closure (pattern : Pattern.Phrase) : Phrase .factor
  | closureFrom (anchor pattern : Pattern.Phrase) : Phrase .factor
  | walk (anchor pattern : Pattern.Phrase) : Phrase .factor

abbrev Written : Type := Phrase (.operator .or)

/-- The negation of a condition, which has to be a single constraint. -/
def negate : Condition → Except Error Condition
  | constraint c => .ok (constraint (.not c))
  | operand => .error (.grammar (.negatedCondition operand))

def negateIf (negated : Bool) (c : Condition) : Except Error Condition :=
  if negated then c.negate else .ok c

end Condition

/-- The pattern. Its terms are resolved in their order before they are checked. -/
def Pattern.Phrase.resolve (prefixes : Prefixes) (p : Pattern.Phrase) : Except Error Pattern := do
  let subject ← p.subject.resolve prefixes
  let predicate ← p.predicate.resolve prefixes
  let object ← p.object.resolve prefixes
  let graph ← p.graph.mapM (Term.Phrase.resolve prefixes)
  (Pattern.create subject predicate object graph).mapError .query

theorem Pattern.Phrase.resolve_eq_ok {prefixes : Prefixes} {p : Pattern.Phrase}
    {pattern : Pattern} :
    p.resolve prefixes = .ok pattern ↔
      p.subject.resolve prefixes = .ok pattern.subject ∧
        p.predicate.resolve prefixes = .ok pattern.predicate ∧
        p.object.resolve prefixes = .ok pattern.object ∧
        p.graph.mapM (Term.Phrase.resolve prefixes) = .ok pattern.graph ∧
        pattern.subject.isLiteral = false ∧ pattern.predicate.isLiteral = false := by
  constructor
  · intro h
    obtain ⟨subject, hsubject, h⟩ := bind_eq_ok.1 h
    obtain ⟨predicate, hpredicate, h⟩ := bind_eq_ok.1 h
    obtain ⟨object, hobject, h⟩ := bind_eq_ok.1 h
    obtain ⟨graph, hgraph, h⟩ := bind_eq_ok.1 h
    obtain ⟨hs, hp, rfl⟩ := Pattern.create_eq_ok.1 (mapError_eq_ok.1 h)
    exact ⟨hsubject, hpredicate, hobject, hgraph, hs, hp⟩
  · rintro ⟨hsubject, hpredicate, hobject, hgraph, hs, hp⟩
    refine bind_eq_ok.2 ⟨_, hsubject, bind_eq_ok.2 ⟨_, hpredicate, ?_⟩⟩
    refine bind_eq_ok.2 ⟨_, hobject, bind_eq_ok.2 ⟨_, hgraph, ?_⟩⟩
    exact mapError_eq_ok.2 (Pattern.create_eq_ok.2 ⟨hs, hp, pattern.ofTerms_eta.symm⟩)

/-- The pattern of a closure or a walk, which may not ask for a graph. -/
def Pattern.Phrase.resolveStep (prefixes : Prefixes) (p : Pattern.Phrase) :
    Except Error Pattern :=
  if p.graph.isSome then .error (.query .graphOnClosure) else p.resolve prefixes

namespace Condition

def Phrase.resolve (prefixes : Prefixes) : {level : Level} → Phrase level → Except Error Condition
  | _, join operator left right => do
    let left ← left.resolve prefixes
    let right ← right.resolve prefixes
    return .join operator left right
  | _, tight _ inner => inner.resolve prefixes
  | _, constraint negated pattern => do
    let pattern ← pattern.resolve prefixes
    negateIf negated (.constraint (.pattern pattern))
  | _, group negated inner => do
    let inner ← inner.resolve prefixes
    negateIf negated inner
  | _, closure pattern => do
    let pattern ← pattern.resolveStep prefixes
    return .closure pattern
  | _, closureFrom anchor pattern => do
    let anchor ← anchor.resolveStep prefixes
    let pattern ← pattern.resolveStep prefixes
    return .closureFrom anchor pattern
  | _, walk anchor pattern => do
    let anchor ← anchor.resolveStep prefixes
    let pattern ← pattern.resolveStep prefixes
    return .walk anchor pattern

/-- The restriction that a condition is: one constraint without a negation that counts
occurrences. -/
def having : Condition → Except QueryFault Having
  | constraint (.pattern p) => Having.ofPattern p
  | join .. => .error .severalHaving
  | _ => .error .notOccursHaving

def Phrase.resolveHaving (prefixes : Prefixes) {level : Level} (phrase : Phrase level) :
    Except Error Having := do
  let condition ← phrase.resolve prefixes
  condition.having.mapError .query

end Condition
end TripleQuery
