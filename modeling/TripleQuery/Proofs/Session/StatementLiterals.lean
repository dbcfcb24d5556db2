import TripleQuery.Proofs.Condition.Acceptance
import TripleQuery.Proofs.Query.StatementColumns
import TripleQuery.Proofs.Session.Accepted
import TripleQuery.Proofs.Statements.Meaning

/-!
# Literals in the statements of a change

Nothing is said of a literal, and nothing is said with one, in statements that are written out. The
columns of a query for statements are not looked at in this way: a literal may be written as subject
or predicate, and one that is written as object moves up if a repeated variable before it is left
out (`Session.literals_of_change`).
-/

namespace TripleQuery

/-! ### Written statements -/

variable {prefixes : Prefixes} {table : Placeholders}

theorem Term.Phrase.Denotes.isLiteral_of_resource {t : Term.Phrase} {r : Rdf.Resource}
    (h : t.Denotes prefixes table (.resource r)) : t.isLiteral = false := by
  rcases t with name | token | l
  · rfl
  · rfl
  · obtain ⟨datatype, -, hnode⟩ := Term.Phrase.denotes_literal_iff.1 h
    cases hnode

/-! ### Queries for statements -/

def Column.isLiteral (column : Column) : Bool := column.term?.any Term.isLiteral

theorem Column.forall_take_isLiteral {columns : List Column} {terms : List Term} (n : Nat)
    (h : columns.map Column.term? = terms.map some) :
    (∀ column ∈ columns.take n, column.isLiteral = false) ↔
      ∀ term ∈ terms.take n, term.isLiteral = false := by
  have htake : (columns.take n).map Column.term? = (terms.take n).map some := by
    rw [List.map_take, h, List.map_take]
  have hshown : (∀ column ∈ columns.take n, column.isLiteral = false) ↔
      ∀ shown ∈ (columns.take n).map Column.term?, shown.any Term.isLiteral = false := by
    rw [List.forall_mem_map]
    rfl
  rw [hshown, htake, List.forall_mem_map]
  simp only [Option.any_some]

/-- The first two terms that are left of three without repeated variables are no literals. -/
theorem Term.forall_take_firsts_iff {subject predicate object : Term} :
    (∀ term ∈ (firsts [] [subject, predicate, object]).take 2, term.isLiteral = false) ↔
      subject.isLiteral = false ∧ predicate.isLiteral = false ∧
        ∀ name, subject = .var name → predicate = .var name → object.isLiteral = false := by
  cases subject with
  | const value =>
    have htake : ∀ o : Term,
        (firsts [] [.const value, predicate, o]).take 2 = [.const value, predicate] := by
      intro o
      cases predicate <;> simp [firsts]
    rw [htake]
    simp
  | var x =>
    cases predicate with
    | const value => simp [firsts, isLiteral]
    | var y =>
      by_cases heq : x = y
      · -- the second variable is left out, so the object is the second term
        subst heq
        cases object with
        | const value => simp [firsts, isLiteral]
        | var z => by_cases hz : z = x <;> simp [firsts, isLiteral, hz]
      · have hne : y ≠ x := fun h => heq h.symm
        simp [firsts, isLiteral, hne]

theorem Term.Phrase.resolve_eq_var_iff {t : Term.Phrase} {term : Term} {name : String}
    (h : t.resolve prefixes = .ok term) : term = .var name ↔ t = .var name := by
  cases t with
  | var x =>
    obtain ⟨checked, hcheck, rfl⟩ := map_eq_ok.1 h
    obtain ⟨-, rfl⟩ := Variable.check_eq_ok.1 hcheck
    simp
  | const value =>
    obtain ⟨constant, -, rfl⟩ := map_eq_ok.1 h
    simp

theorem StatementQuery.literals_of_resolve {st : StatementQuery} {q : Query}
    (h : (Select.statements st).resolve prefixes = .ok q) :
    (∀ column ∈ q.columns.take 2, column.isLiteral = false) ↔
      st.subject.isLiteral = false ∧ st.predicate.isLiteral = false ∧
        ∀ name, st.subject = .var name → st.predicate = .var name →
          st.object.isLiteral = false := by
  obtain ⟨subject, predicate, object, ⟨hsubject, hpredicate, hobject⟩, hcolumns, -⟩ :=
    showsFirsts_of_resolve h
  rw [Column.forall_take_isLiteral 2 hcolumns, Term.forall_take_firsts_iff,
    Term.Phrase.isLiteral_of_resolve hsubject, Term.Phrase.isLiteral_of_resolve hpredicate,
    Term.Phrase.isLiteral_of_resolve hobject]
  simp only [Term.Phrase.resolve_eq_var_iff hsubject, Term.Phrase.resolve_eq_var_iff hpredicate]

/-! ### Changes -/

namespace Session

/-- An accepted change by written statements is about what these say, of no literal and with no
literal. One by a query is about rows without a literal as subject or predicate exactly if none is
written there and none moves there from the place of the object. -/
theorem literals_of_change {s after : Session} {kind : Change} {source : Source.Phrase}
    {token : String} {command : Command}
    (h : perform (execute (.change kind source token)) s = (.ok command, after)) :
    (∀ written, source = .statements written → ∃ graph gathered,
      command = .change kind graph (.statements gathered.triples) ∧
        Statements.Collects s.prefixes written gathered ∧
        ∀ w ∈ written, w.subject.isLiteral = false ∧ ∃ p, w.predicate = .const (.resource p)) ∧
    ∀ st, source = .query st → ∃ graph q, command = .change kind graph (.query q) ∧
      ((∀ column ∈ q.columns.take 2, column.isLiteral = false) ↔
        st.subject.isLiteral = false ∧ st.predicate.isLiteral = false ∧
          ∀ name, st.subject = .var name → st.predicate = .var name →
            st.object.isLiteral = false) := by
  cases gives_of_execute h with
  | @change _ _ _ graph _ hgraph hsource =>
    cases hsource with
    | @statements written gathered hgather _ =>
      have hcollects := Statements.collects_of_gather hgather
      constructor
      · rintro _ ⟨⟩
        refine ⟨graph, gathered, rfl, hcollects, fun w hw => ?_⟩
        obtain ⟨t, -, hdenotes⟩ := hcollects.complete w hw
        exact ⟨hdenotes.subject.isLiteral_of_resource, hdenotes.predicate.exists_token⟩
      · intro st hst
        cases hst
    | @query st q hread =>
      constructor
      · intro written hwritten
        cases hwritten
      · rintro _ ⟨⟩
        exact ⟨graph, q, rfl, StatementQuery.literals_of_resolve hread⟩

/-- A query for statements with the given subject and object, over the statements about
a variable. -/
def rowsAbout (subject object : Term.Phrase) : StatementQuery :=
  ⟨subject, .const (.resource "urn:p"), object,
    Clauses.ofPattern "urn:m" ⟨.var "x", .const (.resource "urn:p"), .var "y", none⟩⟩

def rowsAboutRead (columns : List Column) : Query :=
  ⟨columns, .graph "urn:m",
    .constraint (.pattern (.ofTerms (.var "x") (.const (.iri "urn:p")) (.var "y") none)),
    none, [], none, 0⟩

def literalWritten : Term.Phrase := .const (.literal ⟨[.plain "l"], none⟩)

theorem literals_of_rowsAbout :
    ∃ q after, perform (execute (.change .delete (.query (rowsAbout (.var "x") literalWritten))
        "urn:g")) (.start .empty none) = (.ok (.change .delete "urn:g" (.query q)), after) ∧
      q.columns.length = 3 ∧ ∀ column ∈ q.columns.take 2, column.isLiteral = false := by
  let q := rowsAboutRead [.var "x", .constant "k0" (.iri "urn:p"),
    .constant "k1" (.literal ⟨"l", none⟩)]
  have h : perform (execute (.change .delete (.query (rowsAbout (.var "x") literalWritten))
      "urn:g")) (.start .empty none)
        = (.ok (.change .delete "urn:g" (.query q)), ⟨.empty, none, some q⟩) := rfl
  obtain ⟨graph, read, hcommand, hliterals⟩ := (literals_of_change h).2 _ rfl
  cases hcommand
  exact ⟨q, _, h, rfl, hliterals.2 ⟨rfl, rfl, by simp [rowsAbout]⟩⟩

def literalRowsRead : Query :=
  rowsAboutRead [.constant "k0" (.literal ⟨"l", none⟩), .constant "k1" (.iri "urn:p"), .var "x"]

/-- Rows that say something of a literal are to be inserted, and the change is accepted. -/
theorem literal_subject_of_rowsAbout :
    perform (execute (.change .insert (.query (rowsAbout literalWritten (.var "x"))) "urn:g"))
        (.start .empty none)
      = (.ok (.change .insert "urn:g" (.query literalRowsRead)),
          ⟨.empty, none, some literalRowsRead⟩) ∧
      literalRowsRead.columns.length = 3 ∧
      (literalRowsRead.columns.map Column.isLiteral) = [true, false, false] :=
  ⟨rfl, rfl, rfl⟩

end Session
end TripleQuery
