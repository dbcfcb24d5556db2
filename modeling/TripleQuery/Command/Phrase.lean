import TripleQuery.Command.Basic
import TripleQuery.Query.Phrase
import TripleQuery.Statements.Basic

/-!
# Written commands

The commands as they are written, with tokens for graphs and name spaces.
-/

namespace TripleQuery

inductive Source.Phrase where
  | statements (written : List Statement.Phrase)
  | query (query : StatementQuery)
  | graph (token : String)

inductive Command.Phrase where
  | select (query : Query.Phrase)
  | define (label target : String)
  | change (kind : Change) (source : Source.Phrase) (graph : String)
  | create (graph : String) (type : Option String)
  | drop (graph : String)

def Command.Phrase.keyword : Command.Phrase → String
  | select _ => "select"
  | define _ _ => "alias"
  | change kind _ _ => kind.word
  | create _ _ => "create"
  | drop _ => "drop"

/-- Whether statements may be changed so. With placeholders they can be inserted, but it is not
known which ones to delete. -/
def Change.permit (statements : Statements) : Change → Except QueryFault Unit
  | insert => .ok ()
  | delete =>
    if statements.placeholders.isEmpty then .ok () else .error .placeholdersInDeletion

end TripleQuery
