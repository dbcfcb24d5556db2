import TripleQuery.Iri.Basic
import TripleQuery.Query.Basic
import TripleQuery.Rdf

/-!
# Commands

A command that can be carried out: a query, or a change of prefixes, statements or graphs.
-/

namespace TripleQuery

inductive Change where
  | insert
  | delete
  deriving DecidableEq, Repr

def Change.word : Change → String
  | insert => "insert"
  | delete => "delete"

def Change.preposition : Change → String
  | insert => "into"
  | delete => "from"

inductive Source where
  | statements (triples : List Rdf.Triple)
  | query (query : Query)

inductive Command where
  | query (query : Query)
  | define (label : String) (ns : Iri)
  | change (kind : Change) (graph : String) (source : Source)
  | create (graph type : String)
  | drop (graph : String)

/-- The source as commands show it. Of a set only the size is shown. -/
def Source.render : Source → String
  | statements triples => triples.length.repr ++ " statements"
  | query q => q.render

def Command.render : Command → String
  | query q => q.render
  | define label ns => "alias " ++ renderIri ns.text ++ " as " ++ label
  | change kind graph source =>
    kind.word ++ " " ++ source.render ++ " " ++ kind.preposition ++ " " ++ renderIri graph
  | create graph type => "create " ++ renderIri graph ++ " " ++ renderIri type
  | drop graph => "drop " ++ renderIri graph

end TripleQuery
