import TripleQuery.Term.Phrase
import TripleQuery.Text.Ascending

/-!
# Statements

Statements that are written out, with variables as placeholders. Each placeholder becomes a blank
node of its own, the same wherever it is written; the statements are a set, so that one that is
written twice counts once. A predicate has to be an IRI, and nothing can be said of a literal.
-/

namespace TripleQuery

structure Statement.Phrase where
  subject : Term.Phrase
  predicate : Term.Phrase
  object : Term.Phrase
  deriving DecidableEq, Repr

/-- The blank nodes of the placeholders, in the order in which these were first seen. -/
abbrev Placeholders := List (String × Rdf.Blank)

/-- The blank node of a placeholder. A new one gets the next number. -/
def Placeholders.blank (table : Placeholders) (name : String) : Rdf.Blank × Placeholders :=
  match table.lookup name with
  | some blank => (blank, table)
  | none => (⟨table.length⟩, table ++ [(name, ⟨table.length⟩)])

def Constant.toRdf : Constant → Rdf.Node
  | iri text => .resource (.iri text)
  | literal value => .literal value.toRdf

/-- The node for which a term stands in a statement, and the placeholders known after it. -/
def Term.Phrase.node (prefixes : Prefixes) (table : Placeholders) :
    Term.Phrase → Except Error (Rdf.Node × Placeholders)
  | var name => .ok (.resource (.blank (table.blank name).1), (table.blank name).2)
  | const value => (value.resolve prefixes).map fun constant => (constant.toRdf, table)

def Rdf.Node.asPredicate : Rdf.Node → Except QueryFault String
  | resource (.iri text) => .ok text
  | resource (.blank _) => .error .placeholderPredicate
  | literal _ => .error .literalSubjectOrPredicate

def Rdf.Node.asSubject : Rdf.Node → Except QueryFault Rdf.Resource
  | resource r => .ok r
  | literal _ => .error .literalSubjectOrPredicate

structure Statements where
  triples : List Rdf.Triple
  placeholders : Placeholders
  deriving DecidableEq, Repr

namespace Statements

def empty : Statements := ⟨[], []⟩

def insertTriple (triple : Rdf.Triple) (triples : List Rdf.Triple) : List Rdf.Triple :=
  if triple ∈ triples then triples else triples ++ [triple]

/-- The statements with a written one. Its terms are resolved in their order, then the predicate is
checked, then the subject. -/
def add (prefixes : Prefixes) (s : Statements) (written : Statement.Phrase) :
    Except Error Statements := do
  let (subject, table) ← written.subject.node prefixes s.placeholders
  let (predicate, table) ← written.predicate.node prefixes table
  let (object, table) ← written.object.node prefixes table
  let predicate ← predicate.asPredicate.mapError .query
  let subject ← subject.asSubject.mapError .query
  return ⟨insertTriple ⟨subject, predicate, object⟩ s.triples, table⟩

def gather (prefixes : Prefixes) (written : List Statement.Phrase) : Except Error Statements :=
  written.foldlM (add prefixes) empty

def blanks (s : Statements) : List Rdf.Blank := (s.placeholders.map Prod.snd).eraseDups

def names (s : Statements) : List String := Text.ascending (s.placeholders.map Prod.fst)

def nameOf (s : Statements) (blank : Rdf.Blank) : String :=
  ((s.placeholders.find? (·.2 = blank)).map Prod.fst).getD ""

theorem mem_insertTriple {x triple : Rdf.Triple} {triples : List Rdf.Triple} :
    x ∈ insertTriple triple triples ↔ x = triple ∨ x ∈ triples := by
  unfold insertTriple
  split
  · next h => exact ⟨Or.inr, fun hx => hx.elim (· ▸ h) id⟩
  · simp [or_comm]

theorem nodup_insertTriple {triple : Rdf.Triple} {triples : List Rdf.Triple}
    (h : triples.Nodup) : (insertTriple triple triples).Nodup := by
  unfold insertTriple
  split
  · exact h
  · next hne =>
    refine List.nodup_append.2 ⟨h, by simp, fun a ha b hb => ?_⟩
    rintro rfl
    exact hne ((List.mem_singleton.1 hb) ▸ ha)

end Statements
end TripleQuery
