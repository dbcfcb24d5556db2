import TripleQuery.Graphs.Basic
import TripleQuery.Iri.Basic
import TripleQuery.Text.Ascending

/-!
# Databases of an expression

Some graphs live in a database on a server. The address of the database is that of the graph without
query and fragment.
-/

namespace TripleQuery

def Iri.databaseSchemes : List String := ["rmi", "beep"]

def Iri.database? (iri : Iri) : Option String :=
  if iri.scheme ∈ Iri.databaseSchemes then
    some (String.ofList ({ iri.parts with query := none, fragment := none } : Iri.Parts).text)
  else none

def databaseOf (graph : String) : Option String :=
  match Iri.parse graph with
  | .ok iri => iri.database?
  | .error _ => none

/-- The addresses of the databases that hold the graphs of an expression, each once and in
ascending order. -/
def Graphs.databases (g : Graphs) : List String := Text.ascending (g.leaves.filterMap databaseOf)

end TripleQuery
