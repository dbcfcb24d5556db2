import TripleQuery.Condition.Phrase
import TripleQuery.Graphs.Phrase
import TripleQuery.Query.Basic
import TripleQuery.Text.Count

/-!
# Written queries

A written query has columns and clauses. Without a list of columns it asks for all variables; with
one, a variable that is repeated counts once, and every other column gets the next generated name.
Any clause may be missing, and what is missing is reported first.

The errors are reported in this order: missing graphs, missing condition, columns from left to
right, graphs, condition, a column that the condition does not mention, sort keys, restriction,
limit, offset.
-/

namespace TripleQuery

inductive Direction where
  | ascending
  | descending
  deriving DecidableEq, Repr

structure SortKey.Phrase where
  name : String
  direction : Option Direction
  deriving DecidableEq, Repr

structure Clauses where
  graphs : Option Graphs.Written
  condition : Option Condition.Written
  order : Option (List SortKey.Phrase)
  having : Option Condition.Written
  limit : Option String
  offset : Option String

mutual

structure Query.Phrase where
  columns : Option (List Column.Phrase)
  clauses : Clauses

/-- A written column: a term, or a query of which the rows are counted or given. -/
inductive Column.Phrase where
  | term (term : Term.Phrase)
  | count (query : Query.Phrase)
  | subquery (query : Query.Phrase)

end

/-- A written query for statements: its columns are the three terms of a statement. -/
structure StatementQuery where
  subject : Term.Phrase
  predicate : Term.Phrase
  object : Term.Phrase
  clauses : Clauses

inductive Select where
  | query (query : Query.Phrase)
  | statements (query : StatementQuery)

def Select.clauses : Select → Clauses
  | query q => q.clauses
  | statements q => q.clauses

def StatementQuery.toQuery (q : StatementQuery) : Query.Phrase :=
  ⟨some [.term q.subject, .term q.predicate, .term q.object], q.clauses⟩

def Select.toQuery : Select → Query.Phrase
  | query q => q
  | statements q => q.toQuery

/-! ### Meaning of the clauses -/

/-- The sort key; without a direction it is ascending. -/
def SortKey.Phrase.resolve (key : SortKey.Phrase) : Except Error SortKey := do
  let name ← Variable.check key.name
  return ⟨name, key.direction != some .descending⟩

namespace Clauses

def sortKeys (c : Clauses) : Except Error (List SortKey) :=
  match c.order with
  | none => .ok []
  | some [] => .error (.grammar .emptyOrder)
  | some keys => keys.mapM SortKey.Phrase.resolve

def restriction (prefixes : Prefixes) (c : Clauses) : Except Error (Option Having) :=
  c.having.mapM fun phrase => phrase.resolveHaving prefixes

def count (fault : String → GrammarFault) (text : String) : Except Error Nat :=
  match Text.readCount text with
  | some count => .ok count
  | none => .error (.grammar (fault text))

def rowLimit (c : Clauses) : Except Error (Option Nat) := c.limit.mapM (count .limit)

def rowOffset (c : Clauses) : Except Error Nat :=
  match c.offset with
  | none => .ok 0
  | some text => count .offset text

/-- The query of the clauses and of what became of the columns. -/
def assemble (prefixes : Prefixes) (columns : Except Error (List Column)) (c : Clauses) :
    Except Error Query :=
  match c.graphs, c.condition with
  | none, _ => .error (.query .missingFrom)
  | some _, none => .error (.query .missingWhere)
  | some graphs, some condition => do
    let columns ← columns
    let graphs ← graphs.resolve prefixes
    let condition ← condition.resolve prefixes
    let query ← (Query.create columns graphs condition).mapError .query
    let order ← c.sortKeys
    let having ← c.restriction prefixes
    let limit ← c.rowLimit
    let offset ← c.rowOffset
    return { query with order := order, having := having, limit := limit, offset := offset }

end Clauses

/-! ### Meaning of a query -/

/-- A list of columns that was written has to give a column. -/
def Column.someOf (columns : List Column) : Except Error (List Column) :=
  if columns.isEmpty then .error (.query .noVariables) else .ok columns

mutual

def Query.Phrase.resolve (prefixes : Prefixes) : Query.Phrase → Except Error Query
  | ⟨none, clauses⟩ => clauses.assemble prefixes (.ok [])
  | ⟨some [], clauses⟩ => clauses.assemble prefixes (.error (.grammar .emptySelect))
  | ⟨some columns, clauses⟩ =>
    clauses.assemble prefixes (Column.Phrase.resolveAll prefixes [] 0 columns >>= Column.someOf)

/-- The columns of a list, after the variables in `seen` and `next` columns with generated names. -/
def Column.Phrase.resolveAll (prefixes : Prefixes) (seen : List String) (next : Nat) :
    List Column.Phrase → Except Error (List Column)
  | [] => .ok []
  | .term (.var name) :: rest => do
    let name ← Variable.check name
    if name ∈ seen then Column.Phrase.resolveAll prefixes seen next rest
    else
      let columns ← Column.Phrase.resolveAll prefixes (name :: seen) next rest
      return .var name :: columns
  | .term (.const value) :: rest => do
    let value ← value.resolve prefixes
    let columns ← Column.Phrase.resolveAll prefixes seen (next + 1) rest
    return .constant (Variable.generated next) value :: columns
  | .count query :: rest => do
    let query ← query.resolve prefixes
    let columns ← Column.Phrase.resolveAll prefixes seen (next + 1) rest
    return .count (Variable.generated next) query :: columns
  | .subquery query :: rest => do
    let query ← query.resolve prefixes
    let columns ← Column.Phrase.resolveAll prefixes seen (next + 1) rest
    return .subquery (Variable.generated next) query :: columns

end

def Select.resolve (prefixes : Prefixes) (select : Select) : Except Error Query :=
  select.toQuery.resolve prefixes

end TripleQuery
