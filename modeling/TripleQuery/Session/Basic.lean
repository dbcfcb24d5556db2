import TripleQuery.Command.Basic
import TripleQuery.Command.Phrase
import TripleQuery.Server

/-!
# Sessions

A session reads one command after the other. What one command leaves to the next is the table of
prefixes and the query that was built last. What is done in a session may fail at any point; what it
had changed of the session before it failed stays changed.
-/

namespace TripleQuery

structure Session where
  prefixes : Prefixes
  server : Option Server
  lastQuery : Option Query

namespace Session

/-- What can be done in a session: it gives a value or fails, and leaves a session either way. -/
abbrev Action := ExceptT Error (StateM Session)

def start (prefixes : Prefixes) (server : Option Server) : Session := ⟨prefixes, server, none⟩

def perform {α : Type} (x : Action α) (s : Session) : Except Error α × Session := x.run.run s

def view {α : Type} (read : Session → Except Error α) : Action α := do
  let s ← get
  ExceptT.mk (pure (read s))

/-- Lets a label stand for a name space from now on. -/
def define (label : String) (ns : Iri) : Action Unit :=
  modify fun s => { s with prefixes := s.prefixes.insert label ns }

/-- Keeps a query as the one that was built last. -/
def keep (query : Query) : Action Query := do
  modify fun s => { s with lastQuery := some query }
  return query

/-- The address of the graph for which a token stands, in its one form. -/
def graphAddress (token : String) : Action String :=
  view fun s => (s.prefixes.resolve token).map fun iri => canonicalGraph s.server iri.text

def select (written : Select) : Action Query := do
  let query ← view fun s => written.resolve s.prefixes
  keep query

def selectOnly : Command.Phrase → Action Query
  | .select query => select (.query query)
  | other => throw (.query (.notAQuery other.keyword))

/-- The statements of a change. A query for them is kept like any other. -/
def source (kind : Change) : Source.Phrase → Action Source
  | .statements written => do
    let statements ← view fun s => Statements.gather s.prefixes written
    view fun _ => (kind.permit statements).mapError .query
    return .statements statements.triples
  | .query query => do
    let query ← select (.statements query)
    return .query query
  | .graph _ => throw (.query .graphAsStatements)

def graphType : Option String → Action String
  | none => return Vocabulary.graphType
  | some token => view fun s => (s.prefixes.resolve token).map Iri.text

/-- Reads a command. The definition of a label takes effect at once. -/
def execute : Command.Phrase → Action Command
  | .select query => do
    let query ← select (.query query)
    return .query query
  | .define label target => do
    let ns ← view fun _ => readReference target
    define label ns
    return .define label ns
  | .change kind written token => do
    let graph ← graphAddress token
    let source ← source kind written
    return .change kind graph source
  | .create token type => do
    let type ← graphType type
    let graph ← graphAddress token
    return .create graph type
  | .drop token => do
    let graph ← graphAddress token
    return .drop graph

end Session
end TripleQuery
