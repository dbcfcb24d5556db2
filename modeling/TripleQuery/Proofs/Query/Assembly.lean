import TripleQuery.Query.Phrase

/-!
# What a query is assembled from

A query is read in stages: columns, graphs, condition, and the optional clauses. Reading succeeds
exactly if every stage does (`Clauses.assemble_eq_ok`), and the query holds what the stages gave.
The columns come from the list of columns alone (`Query.Phrase.readColumns`).
-/

namespace TripleQuery

theorem Query.create_eq_ok {columns : List Column} {graphs : Graphs} {condition : Condition}
    {q : Query} :
    Query.create columns graphs condition = .ok q ↔
      (∀ name ∈ columns.filterMap Column.var?, name ∈ condition.varNames) ∧
        q = ⟨columns, graphs, condition, none, [], none, 0⟩ := by
  unfold Query.create
  split
  · next name hfind =>
    have hname := List.find?_some hfind
    have hmem := List.mem_of_find?_eq_some hfind
    constructor
    · intro h
      cases h
    · rintro ⟨hall, -⟩
      exact absurd (hall name hmem) (by simpa using hname)
  · next hnone =>
    have hall : ∀ name ∈ columns.filterMap Column.var?, name ∈ condition.varNames := by
      simpa using List.find?_eq_none.1 hnone
    constructor
    · intro h
      cases h
      exact ⟨hall, rfl⟩
    · rintro ⟨-, rfl⟩
      rfl

/-- Clauses and columns make up a query exactly if every stage succeeds and every variable among
the columns is one of the condition. -/
theorem Clauses.assemble_eq_ok {prefixes : Prefixes} {columns : Except Error (List Column)}
    {c : Clauses} {q : Query} :
    c.assemble prefixes columns = .ok q ↔
      ∃ graphs condition, c.graphs = some graphs ∧ c.condition = some condition ∧
        columns = .ok q.columns ∧ graphs.resolve prefixes = .ok q.graphs ∧
        condition.resolve prefixes = .ok q.condition ∧
        (∀ name ∈ q.columns.filterMap Column.var?, name ∈ q.condition.varNames) ∧
        c.sortKeys = .ok q.order ∧ c.restriction prefixes = .ok q.having ∧
        c.rowLimit = .ok q.limit ∧ c.rowOffset = .ok q.offset := by
  unfold Clauses.assemble
  cases hgraphs : c.graphs with
  | none => simp
  | some graphs =>
    cases hcondition : c.condition with
    | none => simp
    | some condition =>
      constructor
      · intro h
        obtain ⟨cs, hcs, h⟩ := bind_eq_ok.1 h
        obtain ⟨g, hg, h⟩ := bind_eq_ok.1 h
        obtain ⟨k, hk, h⟩ := bind_eq_ok.1 h
        obtain ⟨r, hr, h⟩ := bind_eq_ok.1 h
        obtain ⟨order, horder, h⟩ := bind_eq_ok.1 h
        obtain ⟨having, hhaving, h⟩ := bind_eq_ok.1 h
        obtain ⟨limit, hlimit, h⟩ := bind_eq_ok.1 h
        obtain ⟨offset, hoffset, h⟩ := bind_eq_ok.1 h
        cases h
        obtain ⟨hvars, rfl⟩ := Query.create_eq_ok.1 (mapError_eq_ok.1 hr)
        exact ⟨graphs, condition, rfl, rfl, hcs, hg, hk, hvars, horder, hhaving, hlimit, hoffset⟩
      · rintro ⟨g, k, hg, hk, hcs, hgraphs, hcond, hvars, horder, hhaving, hlimit, hoffset⟩
        cases hg
        cases hk
        have hcreate : (Query.create q.columns q.graphs q.condition).mapError Error.query
            = .ok ⟨q.columns, q.graphs, q.condition, none, [], none, 0⟩ :=
          mapError_eq_ok.2 (Query.create_eq_ok.2 ⟨hvars, rfl⟩)
        simp only [hcs, hgraphs, hcond, hcreate, horder, hhaving, hlimit, hoffset, bind,
          Except.bind, pure, Except.pure]
        cases q
        rfl

/-- The columns of a written query, in which an absent list stands for no columns. -/
def Query.Phrase.readColumns (prefixes : Prefixes) (w : Query.Phrase) :
    Except Error (List Column) :=
  match w.columns with
  | none => .ok []
  | some [] => .error (.grammar .emptySelect)
  | some columns => Column.Phrase.resolveAll prefixes [] 0 columns >>= Column.someOf

theorem Query.Phrase.resolve_eq_assemble (prefixes : Prefixes) (w : Query.Phrase) :
    w.resolve prefixes = w.clauses.assemble prefixes (w.readColumns prefixes) := by
  rcases w with ⟨_ | _ | ⟨column, rest⟩, clauses⟩ <;>
    simp only [Query.Phrase.resolve, Query.Phrase.readColumns]

theorem Query.Phrase.readColumns_eq_resolveAll {prefixes : Prefixes} {columns : List Column.Phrase}
    {clauses : Clauses} (h : columns ≠ []) :
    readColumns prefixes ⟨some columns, clauses⟩
      = Column.Phrase.resolveAll prefixes [] 0 columns >>= Column.someOf := by
  cases columns with
  | nil => exact absurd rfl h
  | cons column rest => rfl

end TripleQuery
