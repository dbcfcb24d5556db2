import TripleQuery.Proofs.Query.StatementColumns
import TripleQuery.Proofs.Session.OneCall

/-!
# Changes by the rows of a query

A change may take its statements from a query for statements. The rows of that query have three
columns only if no variable is written twice; nothing else is checked before the command is accepted
(`columns_of_statementQuery`).
-/

namespace TripleQuery

/-- A query for statements shows the terms that were written, and it shows three of them exactly if
no variable is repeated; the same holds of the query of every change that is accepted. -/
theorem columns_of_statementQuery (st : StatementQuery) :
    (∀ (prefixes : Prefixes) (q : Query), (Select.statements st).resolve prefixes = .ok q →
      st.ShowsFirsts prefixes q) ∧
    ∀ (s after : Session) (kind : Change) (token : String) (command : Command),
      Session.perform (Session.execute (.change kind (.query st) token)) s = (.ok command, after) →
      ∃ graph q, command = .change kind graph (.query q) ∧ st.ShowsFirsts s.prefixes q := by
  refine ⟨fun _ _ => StatementQuery.showsFirsts_of_resolve, fun s after kind token command h => ?_⟩
  obtain ⟨graph, q, hcommand, hq⟩ := Session.source_of_execute_change h
  exact ⟨graph, q, hcommand, StatementQuery.showsFirsts_of_resolve hq⟩

def relatedRows (subject object : String) : StatementQuery :=
  ⟨.var subject, .const (.resource "urn:p"), .var object,
    Clauses.ofPattern "urn:m" ⟨.var subject, .const (.resource "urn:p"), .var object, none⟩⟩

def relatedRowsCondition (subject object : String) : Condition :=
  .constraint (.pattern (.ofTerms (.var subject) (.const (.iri "urn:p")) (.var object) none))

/-- What `relatedRows` stands for with two different variables. -/
def relatedRowsRead : Query :=
  ⟨[.var "x", .constant "k0" (.iri "urn:p"), .var "y"], .graph "urn:m",
    relatedRowsCondition "x" "y", none, [], none, 0⟩

theorem columns_of_relatedRows :
    (Select.statements (relatedRows "x" "y")).resolve .empty = .ok relatedRowsRead ∧
      (relatedRows "x" "y").ShowsFirsts .empty relatedRowsRead ∧
      Session.perform (Session.execute (.change .insert (.query (relatedRows "x" "y")) "urn:g"))
          (.start .empty none)
        = (.ok (.change .insert "urn:g" (.query relatedRowsRead)),
            ⟨.empty, none, some relatedRowsRead⟩) ∧
      ∃ graph q, Command.change .insert "urn:g" (.query relatedRowsRead)
          = .change .insert graph (.query q) ∧ (relatedRows "x" "y").ShowsFirsts .empty q := by
  have hread : (Select.statements (relatedRows "x" "y")).resolve .empty = .ok relatedRowsRead := rfl
  have hchange : Session.perform
      (Session.execute (.change .insert (.query (relatedRows "x" "y")) "urn:g"))
        (.start .empty none)
      = (.ok (.change .insert "urn:g" (.query relatedRowsRead)),
          ⟨.empty, none, some relatedRowsRead⟩) := rfl
  have hcolumns := columns_of_statementQuery (relatedRows "x" "y")
  exact ⟨hread, hcolumns.1 _ _ hread, hchange, hcolumns.2 _ _ _ _ _ hchange⟩

/-- What `relatedRows` stands for with one variable as subject and object. -/
def relatedToItselfRead : Query :=
  ⟨[.var "x", .constant "k0" (.iri "urn:p")], .graph "urn:m", relatedRowsCondition "x" "x", none,
    [], none, 0⟩

/-- With a repeated variable the query and an insertion are accepted, but there are two columns. -/
theorem two_columns_of_relatedRows :
    (Select.statements (relatedRows "x" "x")).resolve .empty = .ok relatedToItselfRead ∧
      relatedToItselfRead.columns.length = 2 ∧
      (Session.perform (Session.execute (.change .insert (.query (relatedRows "x" "x")) "urn:g"))
          (.start .empty none)).1
        = .ok (.change .insert "urn:g" (.query relatedToItselfRead)) :=
  ⟨rfl, rfl, rfl⟩

end TripleQuery
