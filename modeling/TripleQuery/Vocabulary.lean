/-!
# Vocabulary

The IRIs that have a meaning of their own in queries and commands.
-/

namespace TripleQuery.Vocabulary

def nativeSpace : String := "http://mulgara.org/mulgara#"

/-- The name space in which older queries write the special predicates. -/
def legacySpace : String := "http://tucana.org/tucana#"

def graphType : String := nativeSpace ++ "Model"

def xsdString : String := "http://www.w3.org/2001/XMLSchema#string"

end TripleQuery.Vocabulary
