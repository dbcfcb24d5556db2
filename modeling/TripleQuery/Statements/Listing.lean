import TripleQuery.Rdf
import TripleQuery.Term.Basic

/-!
# Listings of statements

A set of statements is listed in rows of three texts, in the order of code points: by subject, then
by predicate, then by object. The texts show what is in a statement and escape nothing.
-/

namespace TripleQuery.Rdf

/-- A resource, where blank nodes go by the given names. -/
def Resource.text (nameOf : Blank → String) : Resource → String
  | iri address => renderIri address
  | blank node => "_:" ++ nameOf node

def Node.text (nameOf : Blank → String) : Node → String
  | resource r => r.text nameOf
  | literal l => "'" ++ l.value ++ "'^^" ++ renderIri l.datatype

def Triple.row (nameOf : Blank → String) (t : Triple) : List String :=
  [t.subject.text nameOf, renderIri t.predicate, t.object.text nameOf]

/-- The rows of some statements in ascending order. Statements of equal rows are all listed. -/
def listing (nameOf : Blank → String) (triples : List Triple) : List (List String) :=
  (triples.map (Triple.row nameOf)).mergeSort fun a b => !(decide (b < a))

end TripleQuery.Rdf
