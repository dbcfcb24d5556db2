import TripleQuery.Proofs.Errors.Query
import TripleQuery.Proofs.Session.Accepted
import TripleQuery.Proofs.Statements.Renaming
import TripleQuery.Proofs.WellFormed

/-!
# The names in written commands

Every name of a variable that is written in a command, at every level of its queries, and every name
of a placeholder in written statements. A query is read only if its names are those that a query may
use. Nothing of the kind is asked of placeholders: for them any names do, and others do as well
(`Session.names_of_execute`).
-/

namespace TripleQuery

/-! ### Names in queries -/

def Clauses.varNames (c : Clauses) : List String :=
  c.condition.toList.flatMap Condition.Phrase.varNames ++
    c.having.toList.flatMap Condition.Phrase.varNames ++
      (c.order.getD []).map SortKey.Phrase.name

mutual

/-- The names of the variables in a written query, those in the queries of its columns
among them. -/
def Query.Phrase.varNames : Query.Phrase → List String
  | ⟨none, clauses⟩ => clauses.varNames
  | ⟨some columns, clauses⟩ => Column.Phrase.varNamesAll columns ++ clauses.varNames

def Column.Phrase.varNamesAll : List Column.Phrase → List String
  | [] => []
  | .term t :: rest => t.varNames ++ Column.Phrase.varNamesAll rest
  | .count query :: rest | .subquery query :: rest =>
    query.varNames ++ Column.Phrase.varNamesAll rest

end

variable {prefixes : Prefixes}

theorem Variable.isName_of_errors {name : String} (h : errors name = []) : isName name = true := by
  obtain ⟨checked, hcheck⟩ := (reports_errors name).eq_ok_iff.2 h
  exact (check_eq_ok.1 hcheck).1

theorem Pattern.WellFormed.isName {p : Pattern} (h : p.WellFormed) :
    ∀ name ∈ p.varNames, Variable.isName name = true := by
  intro name hmem
  obtain ⟨term, hterm, hmem⟩ := List.mem_flatMap.1 hmem
  have hwell := h.terms term hterm
  cases term with
  | var x =>
    obtain rfl := List.mem_singleton.1 hmem
    exact hwell
  | const value => cases hmem

theorem Condition.Phrase.isName_of_resolve {level : Condition.Level}
    {phrase : Condition.Phrase level} {c : Condition} (h : phrase.resolve prefixes = .ok c) :
    ∀ name ∈ phrase.varNames, Variable.isName name = true := by
  intro name hmem
  rw [← varNames_of_resolve h] at hmem
  obtain ⟨p, hp, hmem⟩ := List.mem_flatMap.1 hmem
  exact ((wellFormed_of_resolve h).forall_patterns p hp).isName name hmem

theorem Condition.Phrase.isName_of_resolveHaving {level : Condition.Level}
    {phrase : Condition.Phrase level} {restriction : Having}
    (h : phrase.resolveHaving prefixes = .ok restriction) :
    ∀ name ∈ phrase.varNames, Variable.isName name = true := by
  obtain ⟨c, hc, -⟩ := bind_eq_ok.1 h
  exact isName_of_resolve hc

namespace Clauses

theorem isName_of_written_sortKeys {c : Clauses} {keys : List SortKey} (h : c.sortKeys = .ok keys) :
    ∀ name ∈ (c.order.getD []).map SortKey.Phrase.name, Variable.isName name = true := by
  have hnone : c.orderErrors = [] := c.reports_orderErrors.eq_ok_iff.1 ⟨keys, h⟩
  intro name hmem
  obtain ⟨key, hkey, rfl⟩ := List.mem_map.1 hmem
  cases horder : c.order with
  | none =>
    rw [horder] at hkey
    cases hkey
  | some written =>
    rw [horder, Option.getD_some] at hkey
    cases written with
    | nil => cases hkey
    | cons first rest =>
      rw [orderErrors, horder] at hnone
      exact Variable.isName_of_errors (List.flatMap_eq_nil_iff.1 hnone key hkey)

/-- Clauses that are part of a query have valid names. -/
theorem isName_of_assemble {c : Clauses} {columns : Except Error (List Column)} {q : Query}
    (h : c.assemble prefixes columns = .ok q) :
    ∀ name ∈ c.varNames, Variable.isName name = true := by
  obtain ⟨graphs, condition, -, hwritten, -, -, hcondition, -, horder, hhaving, -, -⟩ :=
    assemble_eq_ok.1 h
  intro name hmem
  rw [varNames, hwritten] at hmem
  simp only [List.mem_append, Option.toList_some, List.flatMap_singleton] at hmem
  rcases hmem with (hmem | hmem) | hmem
  · exact Condition.Phrase.isName_of_resolve hcondition name hmem
  · obtain ⟨restriction, hrestriction, hmem⟩ := List.mem_flatMap.1 hmem
    rw [Option.mem_toList] at hrestriction
    rcases option_mapM_eq_ok.1 hhaving with ⟨hnone, -⟩ | ⟨written, read, hsome, -, hread⟩
    · rw [hnone] at hrestriction
      cases hrestriction
    · rw [hsome] at hrestriction
      cases hrestriction
      exact Condition.Phrase.isName_of_resolveHaving hread name hmem
  · exact isName_of_written_sortKeys horder name hmem

end Clauses

mutual

theorem Query.Phrase.isName_of_resolve {q : Query} : (w : Query.Phrase) →
    w.resolve prefixes = .ok q → ∀ name ∈ w.varNames, Variable.isName name = true
  | ⟨none, clauses⟩, h => by
    rw [Query.Phrase.resolve_eq_assemble] at h
    rw [Query.Phrase.varNames]
    exact Clauses.isName_of_assemble h
  | ⟨some columns, clauses⟩, h => by
    have hclauses := h
    rw [Query.Phrase.resolve_eq_assemble] at hclauses
    intro name hmem
    rw [Query.Phrase.varNames] at hmem
    rcases List.mem_append.1 hmem with hmem | hmem
    · rcases Query.listed_of_resolve h with ⟨habsent, -⟩ | ⟨written, hwritten, hlisted⟩
      · cases habsent
      · cases hwritten
        have hread := Column.Phrase.resolveAll_of_listed hlisted
        exact Column.Phrase.isName_of_resolveAll [] 0 columns hread name hmem
    · exact Clauses.isName_of_assemble hclauses name hmem

theorem Column.Phrase.isName_of_resolveAll {columns : List Column} (seen : List String)
    (next : Nat) : (written : List Column.Phrase) →
    Column.Phrase.resolveAll prefixes seen next written = .ok columns →
      ∀ name ∈ Column.Phrase.varNamesAll written, Variable.isName name = true
  | [], _ => by simp [Column.Phrase.varNamesAll]
  | .term (.var x) :: rest, h => by
    rw [Column.Phrase.resolveAll] at h
    obtain ⟨checked, hcheck, h⟩ := bind_eq_ok.1 h
    have hx := (Variable.check_eq_ok.1 hcheck).1
    intro name hmem
    rw [Column.Phrase.varNamesAll] at hmem
    rcases List.mem_append.1 hmem with hmem | hmem
    · obtain rfl := List.mem_singleton.1 hmem
      exact hx
    · split at h
      · exact Column.Phrase.isName_of_resolveAll seen next rest h name hmem
      · obtain ⟨more, hmore, -⟩ := bind_eq_ok.1 h
        exact Column.Phrase.isName_of_resolveAll _ next rest hmore name hmem
  | .term (.const value) :: rest, h => by
    rw [Column.Phrase.resolveAll] at h
    obtain ⟨constant, -, h⟩ := bind_eq_ok.1 h
    obtain ⟨more, hmore, -⟩ := bind_eq_ok.1 h
    rw [Column.Phrase.varNamesAll, Term.Phrase.varNames, List.nil_append]
    exact Column.Phrase.isName_of_resolveAll seen _ rest hmore
  | .count query :: rest, h | .subquery query :: rest, h => by
    rw [Column.Phrase.resolveAll] at h
    obtain ⟨inner, hinner, h⟩ := bind_eq_ok.1 h
    obtain ⟨more, hmore, -⟩ := bind_eq_ok.1 h
    intro name hmem
    rw [Column.Phrase.varNamesAll] at hmem
    rcases List.mem_append.1 hmem with hmem | hmem
    · exact query.isName_of_resolve hinner name hmem
    · exact Column.Phrase.isName_of_resolveAll seen _ rest hmore name hmem

end

/-! ### Names in commands -/

def Statement.Phrase.varNames (w : Statement.Phrase) : List String :=
  w.subject.varNames ++ w.predicate.varNames ++ w.object.varNames

def Source.Phrase.queryNames : Source.Phrase → List String
  | .query st => st.toQuery.varNames
  | .statements _ | .graph _ => []

def Source.Phrase.placeholderNames : Source.Phrase → List String
  | .statements written => written.flatMap Statement.Phrase.varNames
  | .query _ | .graph _ => []

namespace Command.Phrase

def queryNames : Command.Phrase → List String
  | select written => written.varNames
  | change _ source _ => source.queryNames
  | define .. | create .. | drop _ => []

def placeholderNames : Command.Phrase → List String
  | change _ source _ => source.placeholderNames
  | select _ | define .. | create .. | drop _ => []

/-- The names of all variables that are written in a command. -/
def varNames (c : Command.Phrase) : List String := c.queryNames ++ c.placeholderNames

/-- The command with other names for the placeholders of its statements. -/
def renamePlaceholders (f : String → String) : Command.Phrase → Command.Phrase
  | change kind (.statements written) token =>
    .change kind (.statements (written.map (Statement.Phrase.rename f))) token
  | other => other

end Command.Phrase

theorem Term.Phrase.varNames_rename (f : String → String) (t : Term.Phrase) :
    (t.rename f).varNames = t.varNames.map f := by
  cases t <;> rfl

theorem Statement.Phrase.varNames_rename (f : String → String) (w : Statement.Phrase) :
    (w.rename f).varNames = w.varNames.map f := by
  simp only [varNames, rename, Term.Phrase.varNames_rename, List.map_append]

theorem Command.Phrase.placeholderNames_rename (f : String → String) (c : Command.Phrase) :
    (c.renamePlaceholders f).placeholderNames = c.placeholderNames.map f := by
  cases c with
  | change kind source token =>
    cases source with
    | statements written =>
      simp only [renamePlaceholders, placeholderNames, Source.Phrase.placeholderNames,
        List.flatMap_map, List.map_flatMap, Statement.Phrase.varNames_rename]
    | query st | graph token => rfl
  | select | define | create | drop => rfl

theorem Command.Phrase.Gives.isName {server : Option Server} {written : Command.Phrase}
    {command : Command} (h : written.Gives prefixes server command) :
    ∀ name ∈ written.queryNames, Variable.isName name = true := by
  cases h with
  | @select written _ hread => exact Query.Phrase.isName_of_resolve written hread
  | change _ hsource =>
    cases hsource with
    | @query written _ hread => exact Query.Phrase.isName_of_resolve written.toQuery hread
    | statements => simp [queryNames, Source.Phrase.queryNames]
  | define | create | createTyped | drop => simp [queryNames]

theorem Change.permit_rename (f : String → String) (kind : Change) (statements : Statements) :
    kind.permit (statements.rename f) = kind.permit statements := by
  cases kind with
  | insert => rfl
  | delete => simp only [permit, Statements.rename, Placeholders.rename, List.isEmpty_map]

namespace Session

variable {f : String → String}

theorem source_rename (hf : Function.Injective f) (kind : Change)
    (written : List Statement.Phrase) :
    source kind (.statements (written.map (Statement.Phrase.rename f)))
      = source kind (.statements written) := by
  have hsource : ∀ s,
      perform (source kind (.statements (written.map (Statement.Phrase.rename f)))) s
        = perform (source kind (.statements written)) s := by
    intro s
    rw [perform_source_statements, perform_source_statements, Statements.gather_rename hf]
    cases Statements.gather s.prefixes written with
    | error e => rfl
    | ok statements =>
      show ((((kind.permit (statements.rename f)).mapError Error.query).map fun _ =>
        Source.statements statements.triples), s) = _
      rw [Change.permit_rename]
      rfl
  exact funext hsource

theorem execute_rename (hf : Function.Injective f) (written : Command.Phrase) :
    execute (written.renamePlaceholders f) = execute written := by
  cases written with
  | change kind source token =>
    cases source with
    | statements written => simp only [Command.Phrase.renamePlaceholders, execute, source_rename hf]
    | query st | graph token => rfl
  | select | define | create | drop => rfl

/-- An accepted command has valid names everywhere in its queries, so that all names in it are valid
exactly if those of its placeholders are. These may be any names: with other ones the command is
accepted with the same result. -/
theorem names_of_execute {s after : Session} {written : Command.Phrase} {command : Command}
    (h : perform (execute written) s = (.ok command, after)) :
    (∀ name ∈ written.queryNames, Variable.isName name = true) ∧
      ((∀ name ∈ written.varNames, Variable.isName name = true) ↔
        ∀ name ∈ written.placeholderNames, Variable.isName name = true) ∧
      ∀ f : String → String, Function.Injective f →
        (written.renamePlaceholders f).placeholderNames = written.placeholderNames.map f ∧
          perform (execute (written.renamePlaceholders f)) s = (.ok command, after) := by
  have hquery := (gives_of_execute h).isName
  refine ⟨hquery, ⟨fun hall name hmem => ?_, fun hplaceholders name hmem => ?_⟩, fun f hf => ?_⟩
  · exact hall name (List.mem_append_right _ hmem)
  · rcases List.mem_append.1 hmem with hmem | hmem
    · exact hquery name hmem
    · exact hplaceholders name hmem
  · rw [execute_rename hf]
    exact ⟨written.placeholderNames_rename f, h⟩

/-- One statement about a placeholder, to be inserted. -/
def placeholderInsertion (name : String) : Command.Phrase :=
  .change .insert (.statements [⟨.var name, .const (.resource "urn:p"),
    .const (.literal ⟨[.plain "o"], none⟩)⟩]) "urn:g"

def placeholderInserted : Command :=
  .change .insert "urn:g"
    (.statements [⟨.blank ⟨0⟩, "urn:p", .literal ⟨"o", Vocabulary.xsdString⟩⟩])

theorem names_of_placeholderInsertion :
    perform (execute (placeholderInsertion "x")) (.start .empty none)
        = (.ok placeholderInserted, .start .empty none) ∧
      (placeholderInsertion "x").varNames = ["x"] ∧
      (∀ name ∈ (placeholderInsertion "x").varNames, Variable.isName name = true) ∧
      perform (execute (placeholderInsertion "x$")) (.start .empty none)
        = (.ok placeholderInserted, .start .empty none) := by
  have h : perform (execute (placeholderInsertion "x")) (.start .empty none)
      = (.ok placeholderInserted, .start .empty none) := rfl
  have hnames := names_of_execute h
  have hinjective : Function.Injective fun name : String => name ++ "$" := by
    intro a b hab
    have hchars := congrArg String.toList hab
    simp only [String.toList_append, List.append_cancel_right_eq] at hchars
    exact String.toList_injective hchars
  exact ⟨h, rfl, hnames.2.1.2 (by decide), (hnames.2.2 _ hinjective).2⟩

/-- A statement is inserted although the name of its placeholder is none that a query may use. -/
theorem placeholderInsertion_of_badName :
    "a b" ∈ (placeholderInsertion "a b").varNames ∧ Variable.isName "a b" = false ∧
      perform (execute (placeholderInsertion "a b")) (.start .empty none)
        = (.ok placeholderInserted, .start .empty none) :=
  ⟨List.mem_singleton_self _, by decide, rfl⟩

end Session
end TripleQuery
