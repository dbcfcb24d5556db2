import TripleQuery.Proofs.Server.Canonical
import TripleQuery.Proofs.Session.Accepted
import TripleQuery.Proofs.Shown.Column
import TripleQuery.Proofs.Statements.Meaning

/-!
# References of a command

Every IRI that a command names, at every level of its queries and in every triple. A command comes
out of a session with texts only; that each of these texts is an absolute IRI again rests on how it
was made: it was read, or it was put together from a name space and the rest of a token and read
again, or it is the canonical form of an address that was read
(`Session.parses_references_of_execute`).
-/

namespace TripleQuery

/-! ### Queries -/

def Constant.references : Constant → List String
  | .iri text => [text]
  | .literal value => value.datatype.toList

def Term.references : Term → List String
  | .var _ => []
  | .const value => value.references

def Pattern.references (p : Pattern) : List String := p.terms.flatMap Term.references

def Condition.references (c : Condition) : List String := c.patterns.flatMap Pattern.references

mutual

/-- The references of a query, those of the queries of its columns among them. -/
def Query.references : Query → List String
  | ⟨columns, graphs, condition, having, _, _, _⟩ =>
    Column.referencesAll columns ++ graphs.leaves ++ condition.references ++
      having.toList.flatMap fun restriction => restriction.pattern.references

def Column.references : Column → List String
  | .var _ => []
  | .constant _ value => value.references
  | .count _ query | .subquery _ query => query.references

def Column.referencesAll : List Column → List String
  | [] => []
  | column :: rest => column.references ++ Column.referencesAll rest

end

theorem Column.referencesAll_eq_flatMap (columns : List Column) :
    Column.referencesAll columns = columns.flatMap Column.references := by
  induction columns with
  | nil => simp [Column.referencesAll]
  | cons column rest ih => simp [Column.referencesAll, ih]

theorem Query.mem_references {q : Query} {text : String} :
    text ∈ q.references ↔ (∃ column ∈ q.columns, text ∈ column.references) ∨
      text ∈ q.graphs.leaves ∨ text ∈ q.condition.references ∨
        ∃ restriction ∈ q.having, text ∈ restriction.pattern.references := by
  cases q
  simp [Query.references, Column.referencesAll_eq_flatMap]

theorem Constant.WellFormed.isReference {value : Constant} (h : value.WellFormed) :
    ∀ text ∈ value.references, IsReference text := by
  intro text hmem
  cases value with
  | iri text =>
    obtain rfl := List.mem_singleton.1 hmem
    exact h
  | literal value => exact h text (Option.mem_toList.1 hmem)

theorem Pattern.WellFormed.isReference {p : Pattern} (h : p.WellFormed) :
    ∀ text ∈ p.references, IsReference text := by
  intro text hmem
  obtain ⟨term, hterm, hmem⟩ := List.mem_flatMap.1 hmem
  have hwell := h.terms term hterm
  cases term with
  | var name => cases hmem
  | const value => exact Constant.WellFormed.isReference hwell text hmem

theorem Query.WellFormed.isReference {q : Query} (h : q.WellFormed) :
    ∀ text ∈ q.references, IsReference text := by
  induction q using Query.induction_on_columns with
  | level q ih =>
    have hlevel := h q .self
    have hcolumns : ∀ column ∈ q.columns, ∀ text ∈ column.references, IsReference text := by
      intro column hcolumn text hmem
      cases column with
      | var name => simp [Column.references] at hmem
      | constant name value =>
        rw [Column.references] at hmem
        exact Constant.WellFormed.isReference (hlevel.columns _ hcolumn) text hmem
      | count name inner | subquery name inner =>
        rw [Column.references] at hmem
        exact ih _ hcolumn inner rfl (h.inner hcolumn rfl) text hmem
    intro text hmem
    rcases Query.mem_references.1 hmem with hmem | hmem | hmem | hmem
    · obtain ⟨column, hcolumn, hmem⟩ := hmem
      exact hcolumns column hcolumn text hmem
    · exact hlevel.graphs text hmem
    · obtain ⟨p, hp, hmem⟩ := List.mem_flatMap.1 hmem
      exact (hlevel.condition.forall_patterns p hp).isReference text hmem
    · obtain ⟨restriction, hhaving, hmem⟩ := hmem
      exact (hlevel.having restriction hhaving).isReference text hmem

/-! ### Triples -/

def Rdf.Resource.references : Rdf.Resource → List String
  | .iri text => [text]
  | .blank _ => []

def Rdf.Node.references : Rdf.Node → List String
  | .resource r => r.references
  | .literal value => [value.datatype]

def Rdf.Triple.references (t : Rdf.Triple) : List String :=
  t.subject.references ++ t.predicate :: t.object.references

theorem isReference_xsdString : IsReference Vocabulary.xsdString := by decide +kernel

theorem isReference_graphType : IsReference Vocabulary.graphType := by decide +kernel

/-- A literal without a datatype is a string, and the datatype of strings is a reference too. -/
theorem Constant.WellFormed.isReference_toRdf {value : Constant} (h : value.WellFormed) :
    ∀ text ∈ value.toRdf.references, IsReference text := by
  intro text hmem
  cases value with
  | iri text =>
    obtain rfl := List.mem_singleton.1 hmem
    exact h
  | literal value =>
    obtain rfl := List.mem_singleton.1 hmem
    cases hdatatype : value.datatype with
    | none =>
      rw [Literal.toRdf, hdatatype]
      exact isReference_xsdString
    | some datatype =>
      rw [Literal.toRdf, hdatatype]
      exact h datatype hdatatype

variable {prefixes : Prefixes} {server : Option Server}

theorem Term.Phrase.Denotes.isReference {table : Placeholders} {t : Term.Phrase}
    {node : Rdf.Node} (h : t.Denotes prefixes table node) :
    ∀ text ∈ node.references, IsReference text := by
  cases h with
  | placeholder =>
    intro text hmem
    cases hmem
  | constant hvalue => exact (Constant.Phrase.wellFormed_of_resolve hvalue).isReference_toRdf

theorem Statement.Phrase.Denotes.isReference {table : Placeholders} {w : Statement.Phrase}
    {t : Rdf.Triple} (h : w.Denotes prefixes table t) :
    ∀ text ∈ t.references, IsReference text := by
  intro text hmem
  rcases List.mem_append.1 hmem with hmem | hmem
  · exact h.subject.isReference text hmem
  · rcases List.mem_cons.1 hmem with rfl | hmem
    · exact h.predicate.isReference t.predicate (List.mem_singleton_self _)
    · exact h.object.isReference text hmem

/-! ### Commands -/

def Source.references : Source → List String
  | .statements triples => triples.flatMap Rdf.Triple.references
  | .query q => q.references

def Command.references : Command → List String
  | .query q => q.references
  | .define _ ns => [ns.text]
  | .change _ graph source => graph :: source.references
  | .create graph type => [graph, type]
  | .drop graph => [graph]

theorem GivesGraph.isReference {token graph : String}
    (h : GivesGraph prefixes server token graph) : IsReference graph := by
  obtain ⟨iri, -, rfl⟩ := h
  exact exists_iri_canonicalGraph server iri

theorem Source.Phrase.Gives.isReference {kind : Change} {written : Source.Phrase}
    {source : Source} (h : written.Gives prefixes kind source) :
    ∀ text ∈ source.references, IsReference text := by
  intro text hmem
  cases h with
  | statements hgather _ =>
    obtain ⟨t, ht, hmem⟩ := List.mem_flatMap.1 hmem
    obtain ⟨w, -, hdenotes⟩ := (Statements.collects_of_gather hgather).sound t ht
    exact hdenotes.isReference text hmem
  | query hread => exact (Query.wellFormed_of_resolve hread).isReference text hmem

theorem Command.Phrase.Gives.isReference {written : Command.Phrase} {command : Command}
    (h : written.Gives prefixes server command) :
    ∀ text ∈ command.references, IsReference text := by
  intro text hmem
  cases h with
  | select hread => exact (Query.wellFormed_of_resolve hread).isReference text hmem
  | @define _ _ ns =>
    obtain rfl := List.mem_singleton.1 hmem
    exact ns.isReference
  | change hgraph hsource =>
    rcases List.mem_cons.1 hmem with rfl | hmem
    · exact hgraph.isReference
    · exact hsource.isReference text hmem
  | create hgraph =>
    rcases List.mem_cons.1 hmem with rfl | hmem
    · exact hgraph.isReference
    · obtain rfl := List.mem_singleton.1 hmem
      exact isReference_graphType
  | @createTyped _ _ _ type _ hgraph =>
    rcases List.mem_cons.1 hmem with rfl | hmem
    · exact hgraph.isReference
    · obtain rfl := List.mem_singleton.1 hmem
      exact type.isReference
  | drop hgraph =>
    obtain rfl := List.mem_singleton.1 hmem
    exact hgraph.isReference

namespace Session

/-- No text that is not an absolute IRI leaves a session as one. -/
theorem parses_references_of_execute {s after : Session} {written : Command.Phrase}
    {command : Command} (h : perform (execute written) s = (.ok command, after)) :
    ∀ text ∈ command.references, ∃ iri, Iri.parse text = .ok iri := by
  intro text hmem
  exact isReference_iff_parse.1 ((gives_of_execute h).isReference text hmem)

/-- A session with a server and a label, both of which change what a token stands for. -/
def labelled : Session :=
  (perform (execute (.define "n" "urn:n:")) (.start .empty (some .known))).2

def labelledInsertion : Command.Phrase :=
  .change .insert (.statements [⟨.const (.resource "n:a"), .const (.resource "urn:p"),
    .const (.literal ⟨[.plain "1"], some "n:int#x"⟩)⟩]) "rmi://u@localhost:1/s?q#g"

theorem parses_references_of_labelledInsertion :
    ∃ command after, perform (execute labelledInsertion) labelled = (.ok command, after) ∧
      command.references = ["rmi://db/s#g", "urn:n:a", "urn:p", "urn:n:int"] ∧
      ∀ text ∈ command.references, ∃ iri, Iri.parse text = .ok iri := by
  have hreferences : (perform (execute labelledInsertion) labelled).1.toOption.map
      Command.references = some ["rmi://db/s#g", "urn:n:a", "urn:p", "urn:n:int"] := by
    decide +kernel
  cases h : perform (execute labelledInsertion) labelled with
  | mk result after =>
    rw [h] at hreferences
    cases result with
    | error e => cases hreferences
    | ok command =>
      refine ⟨command, after, rfl, Option.some.inj hreferences, ?_⟩
      exact parses_references_of_execute h

end Session
end TripleQuery
