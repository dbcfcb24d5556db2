import TripleQuery.Proofs.Errors.Condition
import TripleQuery.Proofs.Statements.Meaning

/-!
# Errors of written statements

All errors of statements that are written out, one statement after the other: what its terms have,
then that of a predicate which is no address, then that of a literal as subject. Gathering the
statements reports this list (`Statements.reports_gather`). It does not depend on the placeholders
that were seen before, so it tells of each statement on its own whether it is accepted.
-/

namespace TripleQuery

variable (prefixes : Prefixes)

/-- The errors of a term that stands for a node. A placeholder has none, whatever its name is. -/
def Term.Phrase.nodeErrors : Term.Phrase → List Error
  | var _ => []
  | const value => value.errors prefixes

theorem Term.Phrase.reports_nodeErrors (t : Term.Phrase) (table : Placeholders) :
    Reports (t.node prefixes table) (t.nodeErrors prefixes) := by
  cases t with
  | var name => exact .ok _
  | const value => exact (value.reports_errors prefixes).map _

namespace Statement.Phrase

def predicateErrors (w : Statement.Phrase) : List Error :=
  match w.predicate with
  | .var _ => [.query .placeholderPredicate]
  | .const (.resource _) => []
  | .const (.literal _) => [.query .literalSubjectOrPredicate]

def subjectErrors (w : Statement.Phrase) : List Error :=
  if w.subject.isLiteral then [.query .literalSubjectOrPredicate] else []

def errors (w : Statement.Phrase) : List Error :=
  w.subject.nodeErrors prefixes ++ (w.predicate.nodeErrors prefixes ++
    (w.object.nodeErrors prefixes ++ (w.predicateErrors ++ w.subjectErrors)))

variable {prefixes} {w : Statement.Phrase} {table : Placeholders} {node : Rdf.Node}

theorem reports_predicateErrors (h : w.predicate.Denotes prefixes table node) :
    Reports (node.asPredicate.mapError Error.query) w.predicateErrors := by
  unfold predicateErrors
  generalize w.predicate = t at h
  rcases t with name | token | l
  · obtain ⟨blank, -, rfl⟩ := Term.Phrase.denotes_var_iff.1 h
    exact .error _ []
  · obtain ⟨iri, -, rfl⟩ := Term.Phrase.denotes_resource_iff.1 h
    exact .ok _
  · obtain ⟨datatype, -, rfl⟩ := Term.Phrase.denotes_literal_iff.1 h
    exact .error _ []

theorem reports_subjectErrors (h : w.subject.Denotes prefixes table node) :
    Reports (node.asSubject.mapError Error.query) w.subjectErrors := by
  unfold subjectErrors
  generalize w.subject = t at h
  rcases t with name | token | l
  · obtain ⟨blank, -, rfl⟩ := Term.Phrase.denotes_var_iff.1 h
    exact .ok _
  · obtain ⟨iri, -, rfl⟩ := Term.Phrase.denotes_resource_iff.1 h
    exact .ok _
  · obtain ⟨datatype, -, rfl⟩ := Term.Phrase.denotes_literal_iff.1 h
    exact .error _ []

end Statement.Phrase

namespace Statements

theorem reports_add (s : Statements) (w : Statement.Phrase) :
    Reports (add prefixes s w) (w.errors prefixes) := by
  refine (w.subject.reports_nodeErrors prefixes _).bind fun first hfirst => ?_
  refine (w.predicate.reports_nodeErrors prefixes _).bind fun second hsecond => ?_
  refine (w.object.reports_nodeErrors prefixes _).bind fun third _ => ?_
  have hsubject := (Term.Phrase.denotes_of_node hfirst).2
  have hpredicate := (Term.Phrase.denotes_of_node hsecond).2
  refine (Statement.Phrase.reports_predicateErrors hpredicate).bind fun predicate _ => ?_
  exact (Statement.Phrase.reports_subjectErrors hsubject).bind_ok fun subject _ => .ok _

theorem reports_gather (written : List Statement.Phrase) :
    Reports (gather prefixes written) (written.flatMap (Statement.Phrase.errors prefixes)) :=
  Reports.foldlM written (fun s w _ => reports_add prefixes s w) empty

end Statements
end TripleQuery
