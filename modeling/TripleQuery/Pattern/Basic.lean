import TripleQuery.Query.Fault
import TripleQuery.Term.Basic

/-!
# Patterns

A pattern asks for the statements that match three terms, in all graphs of a query or in one graph.
Its kind follows from its predicate: a few predicates do not ask for statements but compare values
or count occurrences. A pattern is told by its terms (`Pattern.eq_of_terms`).
-/

namespace TripleQuery

/-- What the predicate of a pattern asks for. -/
inductive Kind where
  | plain
  | is
  | occurs
  | notOccurs
  | occursLessThan
  | occursMoreThan
  deriving DecidableEq, Repr

namespace Kind

/-- The special predicates, by their names within a name space. -/
def special : List (String × Kind) :=
  [("is", is), ("occurs", occurs), ("notOccurs", notOccurs),
   ("occursLessThan", occursLessThan), ("occursMoreThan", occursMoreThan)]

def nameSpaces : List String := [Vocabulary.nativeSpace, Vocabulary.legacySpace]

def ofIri (text : String) : Kind :=
  match special.find? fun entry => nameSpaces.any fun ns => text == ns ++ entry.1 with
  | some entry => entry.2
  | none => plain

def ofPredicate : Term → Kind
  | .const (.iri text) => ofIri text
  | _ => plain

def isHaving : Kind → Bool
  | occurs | occursLessThan | occursMoreThan => true
  | _ => false

end Kind

/-- Three terms, and the graph to look in if it is only one. The kind is kept with them, and is
always that of the predicate. -/
structure Pattern where
  subject : Term
  predicate : Term
  object : Term
  graph : Option Term
  kind : Kind
  kind_eq : kind = Kind.ofPredicate predicate
  deriving DecidableEq, Repr

namespace Pattern

def ofTerms (subject predicate object : Term) (graph : Option Term) : Pattern :=
  ⟨subject, predicate, object, graph, Kind.ofPredicate predicate, rfl⟩

theorem ofTerms_eta (p : Pattern) : ofTerms p.subject p.predicate p.object p.graph = p := by
  obtain ⟨subject, predicate, object, graph, kind, rfl⟩ := p
  rfl

theorem eq_of_terms {p q : Pattern} (hsubject : p.subject = q.subject)
    (hpredicate : p.predicate = q.predicate) (hobject : p.object = q.object)
    (hgraph : p.graph = q.graph) : p = q := by
  rw [← p.ofTerms_eta, hsubject, hpredicate, hobject, hgraph, q.ofTerms_eta]

/-- A pattern of four terms. Nothing can be said of a literal, nor with one. -/
def create (subject predicate object : Term) (graph : Option Term) : Except QueryFault Pattern :=
  if subject.isLiteral || predicate.isLiteral then .error .literalSubjectOrPredicate
  else .ok (ofTerms subject predicate object graph)

def terms (p : Pattern) : List Term := [p.subject, p.predicate, p.object] ++ p.graph.toList

def varNames (p : Pattern) : List String := p.terms.flatMap Term.varNames

def render (p : Pattern) : String :=
  "[" ++ p.subject.render ++ " " ++ p.predicate.render ++ " " ++ p.object.render ++
    (match p.graph with
    | none => ""
    | some graph => " in " ++ graph.render) ++ "]"

theorem create_eq_ok {subject predicate object : Term} {graph : Option Term} {p : Pattern} :
    create subject predicate object graph = .ok p ↔
      subject.isLiteral = false ∧ predicate.isLiteral = false ∧
        p = ofTerms subject predicate object graph := by
  unfold create
  cases subject.isLiteral <;> cases predicate.isLiteral <;> simp [eq_comm]

end Pattern
end TripleQuery
