/-!
# RDF

The statements that a graph holds: triples of IRIs, blank nodes and literals.
-/

namespace TripleQuery.Rdf

structure Literal where
  value : String
  datatype : String
  deriving DecidableEq, Repr

structure Blank where
  id : Nat
  deriving DecidableEq, Repr

inductive Resource where
  | iri (text : String)
  | blank (node : Blank)
  deriving DecidableEq, Repr

inductive Node where
  | resource (resource : Resource)
  | literal (literal : Literal)
  deriving DecidableEq, Repr

structure Triple where
  subject : Resource
  predicate : String
  object : Node
  deriving DecidableEq, Repr

end TripleQuery.Rdf
