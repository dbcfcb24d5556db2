import TripleQuery.Proofs.Session.StatementRows
import TripleQuery.Proofs.Session.WrittenNames
import TripleQuery.Proofs.Statements.Tables

/-!
# Deletions against insertions

What can be inserted into a graph can be deleted from it in the same words, unless placeholders are
written in them. A deletion reads its graph and its source as the insertion does; the check of its
own comes last and asks for the placeholders alone. So the outcome of a deletion is told by that of
the insertion (`Session.perform_execute_delete`), and the three outcomes that it can have are those
of `Session.execute_delete_of_insert`.
-/

namespace TripleQuery

/-! ### Placeholders of statements -/

theorem Term.Phrase.mem_varNames_iff {t : Term.Phrase} {name : String} :
    name ∈ t.varNames ↔ t = .var name := by
  cases t with
  | var other => simp [varNames, eq_comm]
  | const value => simp [varNames]

variable {prefixes : Prefixes}

/-- The predicate of a statement that has a meaning is an address, so it adds no name. -/
theorem Statement.Phrase.Denotes.mem_varNames_iff {w : Statement.Phrase} {table : Placeholders}
    {t : Rdf.Triple} (h : w.Denotes prefixes table t) {name : String} :
    name ∈ w.varNames ↔ w.Mentions name := by
  obtain ⟨token, htoken⟩ := h.predicate.exists_token
  simp [varNames, Mentions, Term.Phrase.mem_varNames_iff, htoken]

namespace Statements

variable {written : List Statement.Phrase} {s : Statements}

theorem mem_names_iff_of_gather (h : gather prefixes written = .ok s) {name : String} :
    name ∈ s.placeholders.map Prod.fst ↔ name ∈ written.flatMap Statement.Phrase.varNames := by
  rw [(tabulates_of_gather h).names, List.mem_flatMap]
  refine exists_congr fun w => and_congr_right fun hw => ?_
  obtain ⟨t, -, hdenotes⟩ := (collects_of_gather h).complete w hw
  exact hdenotes.mem_varNames_iff.symm

theorem placeholders_eq_nil_iff (h : gather prefixes written = .ok s) :
    s.placeholders = [] ↔ written.flatMap Statement.Phrase.varNames = [] := by
  rw [← List.map_eq_nil_iff (f := Prod.fst), List.eq_nil_iff_forall_not_mem,
    List.eq_nil_iff_forall_not_mem]
  simp only [mem_names_iff_of_gather h]

end Statements

theorem Change.permit_delete {written : List Statement.Phrase} {gathered : Statements}
    (h : Statements.gather prefixes written = .ok gathered) :
    Change.delete.permit gathered =
      if (Source.Phrase.statements written).placeholderNames = [] then .ok ()
      else .error .placeholdersInDeletion := by
  have hnil := Statements.placeholders_eq_nil_iff h
  rw [permit]
  split
  · next hempty => exact (if_pos (hnil.1 (List.isEmpty_iff.1 hempty))).symm
  · next hsome => exact (if_neg (mt hnil.2 (mt List.isEmpty_iff.2 hsome))).symm

/-- The change of the same statements, or by the same query, as a deletion. -/
def Command.toDeletion : Command → Command
  | .change _ graph source => .change .delete graph source
  | other => other

namespace Session

variable {α β : Type}

/-- What becomes of an outcome if placeholders of a source are not let pass. -/
def unlessPlaceholders (written : Source.Phrase) (s : Session) (g : α → β) :
    Except Error α × Session → Except Error β × Session
  | (.ok a, after) =>
    if written.placeholderNames = [] then (.ok (g a), after)
    else (.error (.query .placeholdersInDeletion), s)
  | (.error e, after) => (.error e, after)

theorem perform_source_delete (written : Source.Phrase) (s : Session) :
    perform (source .delete written) s
      = unlessPlaceholders written s id (perform (source .insert written) s) := by
  cases written with
  | statements written =>
    rw [perform_source_statements, perform_source_statements]
    cases hgather : Statements.gather s.prefixes written with
    | error e => rfl
    | ok gathered =>
      show (((Change.delete.permit gathered).mapError Error.query).map fun _ =>
        Source.statements gathered.triples, s) = unlessPlaceholders _ s id
          (.ok (Source.statements gathered.triples), s)
      rw [Change.permit_delete hgather, unlessPlaceholders]
      split <;> rfl
  | query written =>
    -- nothing is checked of a query, and none of its names is that of a placeholder
    have hsame : source .delete (.query written) = source .insert (.query written) := rfl
    rw [hsame]
    rcases perform (source .insert (.query written)) s with ⟨e | result, middle⟩
    · rfl
    · have hnone : (Source.Phrase.query written).placeholderNames = [] := rfl
      rw [unlessPlaceholders, if_pos hnone]
      rfl
  | graph token => rfl

theorem perform_execute_change (kind : Change) (written : Source.Phrase) (token : String)
    (s : Session) :
    perform (execute (.change kind written token)) s =
      match s.prefixes.resolve token with
      | .error e => (.error e, s)
      | .ok iri =>
        ((perform (source kind written) s).1.map (.change kind (canonicalGraph s.server iri.text)),
          (perform (source kind written) s).2) := by
  rw [execute, graphAddress, perform_view_bind]
  cases s.prefixes.resolve token with
  | error e => rfl
  | ok iri => exact perform_map _ _ s

theorem perform_execute_delete (written : Source.Phrase) (token : String) (s : Session) :
    perform (execute (.change .delete written token)) s
      = unlessPlaceholders written s Command.toDeletion
          (perform (execute (.change .insert written token)) s) := by
  rw [perform_execute_change, perform_execute_change]
  cases s.prefixes.resolve token with
  | error e => rfl
  | ok iri =>
    simp only [perform_source_delete]
    rcases perform (source .insert written) s with ⟨e | result, middle⟩
    · rfl
    · simp only [unlessPlaceholders]
      by_cases hnone : written.placeholderNames = []
      · rw [if_pos hnone]
        exact (if_pos hnone).symm
      · rw [if_neg hnone]
        exact (if_neg hnone).symm

/-- A source that cannot be inserted cannot be deleted, for the same reason. What can be inserted is
deleted from the same graph and leaves the same session if no placeholder is written in it; else the
placeholders are what is wrong. Whatever fails leaves the session as it was. -/
theorem execute_delete_of_insert (s : Session) (written : Source.Phrase) (token : String) :
    (∀ e after, perform (execute (.change .insert written token)) s = (.error e, after) →
      after = s ∧ perform (execute (.change .delete written token)) s = (.error e, s)) ∧
    ∀ command after, perform (execute (.change .insert written token)) s = (.ok command, after) →
      ∃ graph source, command = .change .insert graph source ∧
        (written.placeholderNames = [] →
          perform (execute (.change .delete written token)) s
            = (.ok (.change .delete graph source), after)) ∧
        (written.placeholderNames ≠ [] →
          perform (execute (.change .delete written token)) s
            = (.error (.query .placeholdersInDeletion), s)) := by
  refine ⟨fun e after h => ?_, fun command after h => ?_⟩
  · obtain rfl := after_eq_of_error (settles_execute _) h
    rw [perform_execute_delete, h]
    exact ⟨rfl, rfl⟩
  · cases gives_of_execute h with
    | change hgraph hsource =>
      refine ⟨_, _, rfl, fun hnone => ?_, fun hsome => ?_⟩
      · rw [perform_execute_delete, h]
        exact if_pos hnone
      · rw [perform_execute_delete, h]
        exact if_neg hsome

def changeAtStart (kind : Change) (written : Source.Phrase) (token : String) :
    Except Error Command × Session :=
  perform (execute (.change kind written token)) (.start .empty none)

def aboutPlaceholder : Source.Phrase :=
  .statements [⟨.var "x", .const (.resource "urn:p"), .const (.resource "urn:o")⟩]

def aboutPlaceholderRead : Source :=
  .statements [⟨.blank ⟨0⟩, "urn:p", .resource (.iri "urn:o")⟩]

theorem execute_delete_of_insert_atStart :
    changeAtStart .insert aboutPlaceholder "graph"
        = (.error (.malformed "graph" .noScheme), .start .empty none) ∧
      changeAtStart .delete aboutPlaceholder "graph"
        = (.error (.malformed "graph" .noScheme), .start .empty none) ∧
      changeAtStart .insert aboutPlaceholder "urn:g"
        = (.ok (.change .insert "urn:g" aboutPlaceholderRead), .start .empty none) ∧
      aboutPlaceholder.placeholderNames = ["x"] ∧
      changeAtStart .delete aboutPlaceholder "urn:g"
        = (.error (.query .placeholdersInDeletion), .start .empty none) ∧
      changeAtStart .insert (.query (relatedRows "x" "y")) "urn:g"
        = (.ok (.change .insert "urn:g" (.query relatedRowsRead)),
            ⟨.empty, none, some relatedRowsRead⟩) ∧
      (Source.Phrase.query (relatedRows "x" "y")).placeholderNames = [] ∧
      changeAtStart .delete (.query (relatedRows "x" "y")) "urn:g"
        = (.ok (.change .delete "urn:g" (.query relatedRowsRead)),
            ⟨.empty, none, some relatedRowsRead⟩) := by
  have hfails : changeAtStart .insert aboutPlaceholder "graph"
      = (.error (.malformed "graph" .noScheme), .start .empty none) := rfl
  have hinserted : changeAtStart .insert aboutPlaceholder "urn:g"
      = (.ok (.change .insert "urn:g" aboutPlaceholderRead), .start .empty none) := rfl
  have hrows : changeAtStart .insert (.query (relatedRows "x" "y")) "urn:g"
      = (.ok (.change .insert "urn:g" (.query relatedRowsRead)),
          ⟨.empty, none, some relatedRowsRead⟩) := rfl
  have hnames : aboutPlaceholder.placeholderNames = ["x"] := rfl
  obtain ⟨hfailing, -⟩ := execute_delete_of_insert (.start .empty none) aboutPlaceholder "graph"
  obtain ⟨-, hrefused⟩ := execute_delete_of_insert (.start .empty none) aboutPlaceholder "urn:g"
  obtain ⟨_, _, -, -, hrefused⟩ := hrefused _ _ hinserted
  obtain ⟨-, hdeleted⟩ :=
    execute_delete_of_insert (.start .empty none) (.query (relatedRows "x" "y")) "urn:g"
  obtain ⟨_, _, hcommand, hdeleted, -⟩ := hdeleted _ _ hrows
  cases hcommand
  exact ⟨hfails, (hfailing _ _ hfails).2, hinserted, hnames, hrefused (by simp [hnames]), hrows,
    rfl, hdeleted rfl⟩

end Session
end TripleQuery
