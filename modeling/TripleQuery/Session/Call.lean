import TripleQuery.Session.Basic

/-!
# Calls to a session

Everything that can be asked of a session, and the reply to it. `Session.step` answers one call and
`Session.run` a list of calls, each in the session that the calls before it left.
-/

namespace TripleQuery

inductive Call where
  | execute (command : Command.Phrase)
  | selectOnly (command : Command.Phrase)
  | select (written : Select)
  | condition (written : Condition.Written)
  | having (written : Condition.Written)
  | statements (written : List Statement.Phrase)
  | define (label : String) (ns : Iri)
  | find (label : String)
  | resolve (token : String)

inductive Reply where
  | command (command : Command)
  | query (query : Query)
  | condition (condition : Condition)
  | having (having : Having)
  | statements (statements : Statements)
  | defined
  | found (ns : Option Iri)
  | resolved (iri : Iri)

namespace Session

def answer : Call → Action Reply
  | .execute command => return .command (← execute command)
  | .selectOnly command => return .query (← selectOnly command)
  | .select written => return .query (← select written)
  | .condition written => return .condition (← view fun s => written.resolve s.prefixes)
  | .having written => return .having (← view fun s => written.resolveHaving s.prefixes)
  | .statements written => return .statements (← view fun s => Statements.gather s.prefixes written)
  | .define label ns => do
    define label ns
    return .defined
  | .find label => return .found (← view fun s => .ok (s.prefixes.find? label))
  | .resolve token => return .resolved (← view fun s => s.prefixes.resolve token)

def step (s : Session) (call : Call) : Except Error Reply × Session := perform (answer call) s

def run (s : Session) : List Call → List (Except Error Reply) × Session
  | [] => ([], s)
  | call :: rest =>
    let (reply, s) := s.step call
    let (replies, s) := s.run rest
    (reply :: replies, s)

end Session
end TripleQuery
