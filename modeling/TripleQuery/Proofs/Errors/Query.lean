import TripleQuery.Proofs.Errors.Condition
import TripleQuery.Proofs.Query.Columns

/-!
# Errors of queries

All errors of a written query in the order of their report: a missing clause, the columns from left
to right with everything that is wrong in an inner query in its place, the graphs, the condition,
the columns that the condition does not mention, and the optional clauses. A query is read exactly
if the list is empty, else its first error is reported (`Select.resolve_eq_first_error`).
-/

namespace TripleQuery

/-! ### The names in a condition -/

def Term.Phrase.varNames : Term.Phrase → List String
  | var name => [name]
  | const _ => []

def Pattern.Phrase.varNames (p : Pattern.Phrase) : List String :=
  p.terms.flatMap Term.Phrase.varNames

def Condition.Phrase.varNames {level : Condition.Level} (phrase : Condition.Phrase level) :
    List String :=
  phrase.outline.leaves.flatMap Pattern.Phrase.varNames

variable {prefixes : Prefixes}

theorem Term.Phrase.varNames_of_resolve {t : Term.Phrase} {term : Term}
    (h : t.resolve prefixes = .ok term) : term.varNames = t.varNames := by
  cases t with
  | var name =>
    obtain ⟨checked, hcheck, rfl⟩ := map_eq_ok.1 h
    obtain ⟨_, rfl⟩ := Variable.check_eq_ok.1 hcheck
    rfl
  | const value =>
    obtain ⟨constant, _, rfl⟩ := map_eq_ok.1 h
    rfl

theorem Pattern.Phrase.varNames_of_reads {p : Pattern.Phrase} {pattern : Pattern}
    (h : p.Reads prefixes pattern) : pattern.varNames = p.varNames := by
  have hgraph : pattern.graph.toList.flatMap Term.varNames
      = p.graph.toList.flatMap Term.Phrase.varNames := by
    rcases option_mapM_eq_ok.1 h.graph with ⟨hnone, hnone'⟩ | ⟨t, term, hsome, hsome', ht⟩
    · rw [hnone, hnone']
      rfl
    · rw [hsome, hsome']
      simpa using Term.Phrase.varNames_of_resolve ht
  simp only [Pattern.varNames, Pattern.terms, varNames, terms, List.flatMap_append,
    List.flatMap_cons, hgraph, Term.Phrase.varNames_of_resolve h.subject,
    Term.Phrase.varNames_of_resolve h.predicate, Term.Phrase.varNames_of_resolve h.object,
    List.flatMap_nil]

theorem Pattern.Phrase.flatMap_varNames {written : List Pattern.Phrase} {patterns : List Pattern}
    (h : List.Forall₂ (Reads prefixes) written patterns) :
    patterns.flatMap Pattern.varNames = written.flatMap varNames := by
  induction h with
  | nil => rfl
  | cons hreads _ ih => rw [List.flatMap_cons, List.flatMap_cons, varNames_of_reads hreads, ih]

theorem Condition.Phrase.varNames_of_resolve {level : Condition.Level}
    {phrase : Condition.Phrase level} {c : Condition} (h : phrase.resolve prefixes = .ok c) :
    c.varNames = phrase.varNames := by
  rw [← phrase.resolve_outline prefixes] at h
  have hleaves := Outline.forall₂_leaves_of_alike (Outline.alike_of_resolve h).2
  rw [leaves_outline] at hleaves
  exact Pattern.Phrase.flatMap_varNames hleaves

/-! ### Columns -/

def Column.Phrase.var? : Column.Phrase → Option String
  | .term (.var name) => some name
  | _ => none

/-- Leaving out repeated variables does not change which variable is the first of a sort. -/
theorem Column.Phrase.find?_of_listed {written : List Column.Phrase} {columns : List Column}
    {seen : List String} {next : Nat} (h : Listed prefixes seen next written columns)
    {sort : String → Bool} (hseen : ∀ name ∈ seen, sort name = false) :
    (columns.filterMap Column.var?).find? sort = (written.filterMap var?).find? sort := by
  induction h with
  | nil => rfl
  | again _ hmem _ ih =>
    -- a variable that is left out was seen, so the search did not stop at it
    rw [ih hseen, List.filterMap_cons]
    simp [var?, hseen _ hmem]
  | @var seen _ name _ _ _ _ _ ih =>
    simp only [List.filterMap_cons, Column.var?, var?, List.find?_cons]
    split
    · rfl
    · next hname =>
      refine ih fun x hx => ?_
      rcases List.mem_cons.1 hx with rfl | hx
      · exact hname
      · exact hseen x hx
  | value hgives _ _ ih =>
    rw [List.filterMap_cons, var?_of_gives hgives, ih hseen, List.filterMap_cons]
    cases hgives <;> rfl

theorem Column.Phrase.ne_nil_of_listed {written : List Column.Phrase} {columns : List Column}
    {next : Nat} (h : Listed prefixes [] next written columns) (hwritten : written ≠ []) :
    columns ≠ [] := by
  cases h with
  | nil => exact absurd rfl hwritten
  | again _ hmem _ => cases hmem
  | var | value => exact List.cons_ne_nil _ _

variable (prefixes)

/-! ### Clauses -/

theorem Query.reports_create {columns : List Column} {graphs : Graphs} {condition : Condition}
    {names : List String}
    (h : (columns.filterMap Column.var?).find? (· ∉ condition.varNames) = names.head?) :
    Reports (Query.create columns graphs condition) (names.map .unconstrained) := by
  rw [create, h]
  cases names with
  | nil => exact .ok _
  | cons name more => exact .error _ _

namespace Clauses

def missingErrors (c : Clauses) : List Error :=
  (if c.graphs.isNone then [.query .missingFrom] else []) ++
    (if c.condition.isNone then [.query .missingWhere] else [])

/-- The columns that the condition does not mention. -/
def unconstrainedErrors (c : Clauses) (columns : List String) : List Error :=
  let mentioned := c.condition.toList.flatMap Condition.Phrase.varNames
  (columns.filter (· ∉ mentioned)).map fun name => .query (.unconstrained name)

def orderErrors (c : Clauses) : List Error :=
  match c.order with
  | none => []
  | some [] => [.grammar .emptyOrder]
  | some keys => keys.flatMap fun key => Variable.errors key.name

def countErrors (fault : String → GrammarFault) (text : String) : List Error :=
  if (Text.readCount text).isSome then [] else [.grammar (fault text)]

/-- What is wrong with the clauses, and with the columns in front of them: these are told by their
own errors and by the names of the variables among them. -/
def errors (c : Clauses) (columnErrors : List Error) (names : List String) : List Error :=
  c.missingErrors ++ columnErrors ++
    c.graphs.toList.flatMap (fun graphs => graphs.errors prefixes) ++
    c.condition.toList.flatMap (fun condition => condition.errors prefixes) ++
    c.unconstrainedErrors names ++ c.orderErrors ++
    c.having.toList.flatMap (fun restriction => restriction.havingErrors prefixes) ++
    c.limit.toList.flatMap (countErrors .limit) ++ c.offset.toList.flatMap (countErrors .offset)

theorem reports_orderErrors (c : Clauses) : Reports c.sortKeys c.orderErrors := by
  have hkey : ∀ key : SortKey.Phrase, Reports key.resolve (Variable.errors key.name) :=
    fun key => (Variable.reports_errors key.name).bind_ok fun name _ => .ok _
  unfold sortKeys orderErrors
  rcases c.order with _ | _ | ⟨key, rest⟩
  · exact .ok []
  · exact .error _ []
  · exact Reports.mapM (key :: rest) fun key _ => hkey key

theorem reports_countErrors (fault : String → GrammarFault) (text : String) :
    Reports (count fault text) (countErrors fault text) := by
  unfold count countErrors
  cases Text.readCount text with
  | none => exact .error _ []
  | some n => exact .ok n

theorem reports_offsetErrors (c : Clauses) :
    Reports c.rowOffset (c.offset.toList.flatMap (countErrors .offset)) := by
  unfold rowOffset
  cases c.offset with
  | none => exact .ok 0
  | some text =>
    rw [Option.toList_some, List.flatMap_singleton]
    exact reports_countErrors .offset text

theorem reports_unconstrainedErrors {c : Clauses} {columns : List Column} {graphs : Graphs}
    {written : Condition.Written} {condition : Condition} {names : List String}
    (hwritten : c.condition = some written) (hread : written.resolve prefixes = .ok condition)
    (hnames : ∀ sort : String → Bool,
      (columns.filterMap Column.var?).find? sort = names.find? sort) :
    Reports ((Query.create columns graphs condition).mapError Error.query)
      (c.unconstrainedErrors names) := by
  have hmentioned : c.condition.toList.flatMap Condition.Phrase.varNames = condition.varNames := by
    rw [hwritten, Option.toList_some, List.flatMap_singleton,
      Condition.Phrase.varNames_of_resolve hread]
  have hfirst : (columns.filterMap Column.var?).find? (· ∉ condition.varNames)
      = (names.filter (· ∉ condition.varNames)).head? := by
    rw [hnames, List.head?_filter]
  have hcreate : Reports ((Query.create columns graphs condition).mapError Error.query) _ :=
    (Query.reports_create hfirst).mapError Error.query
  rw [List.map_map] at hcreate
  rw [unconstrainedErrors, hmentioned]
  exact hcreate

/-- Columns that are told by their errors and names make up the query with the clauses. -/
theorem reports_errors {c : Clauses} {columns : Except Error (List Column)}
    {columnErrors : List Error} {names : List String} (hcolumns : Reports columns columnErrors)
    (hnames : ∀ read, columns = .ok read → ∀ sort : String → Bool,
      (read.filterMap Column.var?).find? sort = names.find? sort) :
    Reports (c.assemble prefixes columns) (c.errors prefixes columnErrors names) := by
  have hhaving : Reports (c.restriction prefixes)
      (c.having.toList.flatMap fun restriction => restriction.havingErrors prefixes) :=
    Reports.option_mapM c.having fun restriction => restriction.reports_havingErrors prefixes
  have hlimit : Reports c.rowLimit (c.limit.toList.flatMap (countErrors .limit)) :=
    Reports.option_mapM c.limit (reports_countErrors .limit)
  unfold assemble errors missingErrors
  cases hgraphs : c.graphs with
  | none => exact .error _ _
  | some graphs =>
    cases hwritten : c.condition with
    | none => exact .error _ _
    | some condition =>
      simp only [Option.isNone_some, Bool.false_eq_true, if_false, List.nil_append,
        Option.toList_some, List.flatMap_singleton, List.append_assoc]
      refine hcolumns.bind fun columns hread => ?_
      refine (graphs.reports_errors prefixes).bind fun graphs _ => ?_
      refine (condition.reports_errors prefixes).bind fun condition hcondition => ?_
      refine Reports.bind ?_ fun query _ => ?_
      · exact reports_unconstrainedErrors prefixes hwritten hcondition (hnames columns hread)
      refine c.reports_orderErrors.bind fun order _ => ?_
      refine hhaving.bind fun having _ => ?_
      refine hlimit.bind fun limit _ => ?_
      exact c.reports_offsetErrors.bind_ok fun offset _ => .ok _

end Clauses

/-! ### Queries -/

def Query.Phrase.emptyErrors : List Column.Phrase → List Error
  | [] => [.grammar .emptySelect]
  | _ => []

mutual

def Query.Phrase.errors : Query.Phrase → List Error
  | ⟨none, clauses⟩ => clauses.errors prefixes [] []
  | ⟨some columns, clauses⟩ =>
    clauses.errors prefixes (Query.Phrase.emptyErrors columns ++ Column.Phrase.errorsAll columns)
      (columns.filterMap Column.Phrase.var?)

def Column.Phrase.errorsAll : List Column.Phrase → List Error
  | [] => []
  | .term t :: rest => t.errors prefixes ++ Column.Phrase.errorsAll rest
  | .count query :: rest | .subquery query :: rest =>
    query.errors ++ Column.Phrase.errorsAll rest

end

def Select.errors (written : Select) : List Error := written.toQuery.errors prefixes

/-- A list that is not empty gives a column, so reading it adds no error of its own. -/
theorem Column.Phrase.reports_someOf {written : List Column.Phrase} {columns : List Column}
    (hwritten : written ≠ []) (h : resolveAll prefixes [] 0 written = .ok columns) :
    Reports (Column.someOf columns) [] := by
  have hne := ne_nil_of_listed (listed_of_resolveAll h) hwritten
  rw [Column.someOf, if_neg (by simpa using hne)]
  exact .ok columns

theorem Column.Phrase.find?_of_someOf {written : List Column.Phrase} {read : List Column}
    (h : resolveAll prefixes [] 0 written >>= Column.someOf = .ok read) (sort : String → Bool) :
    (read.filterMap Column.var?).find? sort = (written.filterMap var?).find? sort := by
  obtain ⟨columns, hcolumns, h⟩ := bind_eq_ok.1 h
  unfold Column.someOf at h
  split at h
  · cases h
  · cases h
    exact find?_of_listed (listed_of_resolveAll hcolumns) (by simp)

mutual

theorem Query.Phrase.reports_errors : (w : Query.Phrase) →
    Reports (w.resolve prefixes) (w.errors prefixes)
  | ⟨none, clauses⟩ => by
    rw [Query.Phrase.resolve, Query.Phrase.errors]
    refine Clauses.reports_errors prefixes (.ok []) fun read hread sort => ?_
    cases hread
    rfl
  | ⟨some [], clauses⟩ => by
    rw [Query.Phrase.resolve, Query.Phrase.errors]
    refine Clauses.reports_errors prefixes (.error _ []) fun read hread => ?_
    cases hread
  | ⟨some (first :: rest), clauses⟩ => by
    have hne : first :: rest ≠ [] := List.cons_ne_nil _ _
    have hall := Column.Phrase.reports_errorsAll [] 0 (first :: rest)
    rw [Query.Phrase.resolve_eq_assemble, Query.Phrase.errors]
    refine Clauses.reports_errors prefixes ?_ fun read hread => ?_
    · exact hall.bind_ok fun columns hread => Column.Phrase.reports_someOf prefixes hne hread
    · exact Column.Phrase.find?_of_someOf prefixes hread

theorem Column.Phrase.reports_errorsAll (seen : List String) (next : Nat) :
    (columns : List Column.Phrase) →
      Reports (Column.Phrase.resolveAll prefixes seen next columns)
        (Column.Phrase.errorsAll prefixes columns)
  | [] => by
    rw [Column.Phrase.resolveAll, Column.Phrase.errorsAll]
    exact .ok []
  | .term (.var name) :: rest => by
    rw [Column.Phrase.resolveAll, Column.Phrase.errorsAll]
    refine (Variable.reports_errors name).bind fun checked _ => ?_
    split
    · exact Column.Phrase.reports_errorsAll seen next rest
    · exact (Column.Phrase.reports_errorsAll _ next rest).bind_ok fun columns _ => .ok _
  | .term (.const value) :: rest => by
    rw [Column.Phrase.resolveAll, Column.Phrase.errorsAll]
    refine (value.reports_errors prefixes).bind fun constant _ => ?_
    exact (Column.Phrase.reports_errorsAll seen _ rest).bind_ok fun columns _ => .ok _
  | .count query :: rest | .subquery query :: rest => by
    rw [Column.Phrase.resolveAll, Column.Phrase.errorsAll]
    refine query.reports_errors.bind fun read _ => ?_
    exact (Column.Phrase.reports_errorsAll seen _ rest).bind_ok fun columns _ => .ok _

end

/-- A query is read exactly if nothing is wrong with it; else the first of its errors
is reported. -/
theorem Select.resolve_eq_first_error (written : Select) :
    ((∃ q, written.resolve prefixes = .ok q) ↔ written.errors prefixes = []) ∧
      ∀ e, written.resolve prefixes = .error e ↔ (written.errors prefixes).head? = some e := by
  have hreports := written.toQuery.reports_errors prefixes
  exact ⟨hreports.eq_ok_iff, hreports.eq_error_iff⟩

end TripleQuery
