import TripleQuery.Condition.Basic
import TripleQuery.Graphs.Basic
import TripleQuery.Pattern.Having

/-!
# Queries

A query asks for the rows of variables that meet a condition in some graphs, and gives them as
columns. A column that is no variable of the condition has a name of its own, which is not shown.
-/

namespace TripleQuery

structure SortKey where
  name : String
  ascending : Bool
  deriving DecidableEq, Repr

def SortKey.render (key : SortKey) : String :=
  Variable.render key.name ++ if key.ascending then " asc" else " desc"

mutual

/-- A query. Without columns it gives all variables of its condition. -/
structure Query where
  columns : List Column
  graphs : Graphs
  condition : Condition
  having : Option Having
  order : List SortKey
  limit : Option Nat
  offset : Nat

/-- A column of a query: a variable of its condition, or a value under a name of its own. -/
inductive Column where
  | var (name : String)
  | constant (name : String) (value : Constant)
  | count (name : String) (query : Query)
  | subquery (name : String) (query : Query)

end

namespace Column

def name : Column → String
  | var name | constant name _ | count name _ | subquery name _ => name

def var? : Column → Option String
  | var name => some name
  | _ => none

end Column

namespace Query

/-- A query without the optional clauses. Each variable among its columns has to occur in the
condition; the first that does not is reported. -/
def create (columns : List Column) (graphs : Graphs) (condition : Condition) :
    Except QueryFault Query :=
  match (columns.filterMap Column.var?).find? (· ∉ condition.varNames) with
  | some name => .error (.unconstrained name)
  | none => .ok ⟨columns, graphs, condition, none, [], none, 0⟩

def clause (word : String) : Option String → String
  | none => ""
  | some text => " " ++ word ++ " " ++ text

/-- A list of texts with spaces between them, unless it is empty. -/
def spaced (texts : List String) : Option String :=
  if texts.isEmpty then none else some (" ".intercalate texts)

end Query

mutual

def Query.render : Query → String
  | ⟨columns, graphs, condition, having, order, limit, offset⟩ =>
    (match Query.spaced (Column.renderAll columns) with
    | none => ""
    | some shown => "select " ++ shown ++ " ") ++
    "from " ++ graphs.render ++ " where " ++ condition.render ++
    Query.clause "having" (having.map Having.render) ++
    Query.clause "order by" (Query.spaced (order.map SortKey.render)) ++
    Query.clause "limit" (limit.map Nat.repr) ++
    Query.clause "offset" (if offset = 0 then none else some offset.repr)

def Column.render : Column → String
  | .var name => Variable.render name
  | .constant _ value => value.render
  | .count _ query => "count(" ++ query.render ++ ")"
  | .subquery _ query => "subquery(" ++ query.render ++ ")"

def Column.renderAll : List Column → List String
  | [] => []
  | column :: rest => column.render :: Column.renderAll rest

end

theorem Column.renderAll_eq_map (columns : List Column) :
    Column.renderAll columns = columns.map Column.render := by
  induction columns with
  | nil => simp [Column.renderAll]
  | cons column rest ih => simp [Column.renderAll, ih]

end TripleQuery
