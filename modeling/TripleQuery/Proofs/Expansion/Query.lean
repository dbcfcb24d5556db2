import TripleQuery.Proofs.Expansion.Condition
import TripleQuery.Proofs.Query.Assembly

/-!
# Expansion of queries

A query is expanded at all its levels: in its columns, its graphs, its condition, its restriction
and in the queries of its columns. Prefixes mean no more than their expansion: a query is read with
them exactly if it has an expansion, and this is read the same way without any
(`Select.resolve_iff_expand`).
-/

namespace TripleQuery

def Clauses.expand (prefixes : Prefixes) (c : Clauses) : Option Clauses := do
  let graphs ← c.graphs.mapM fun graphs => graphs.expand prefixes
  let condition ← c.condition.mapM fun condition => condition.expand prefixes
  let having ← c.having.mapM fun restriction => restriction.expand prefixes
  return { c with graphs := graphs, condition := condition, having := having }

mutual

def Query.Phrase.expand (prefixes : Prefixes) : Query.Phrase → Option Query.Phrase
  | ⟨none, clauses⟩ => (clauses.expand prefixes).map fun clauses => ⟨none, clauses⟩
  | ⟨some columns, clauses⟩ => do
    let columns ← Column.Phrase.expandAll prefixes columns
    let clauses ← clauses.expand prefixes
    return ⟨some columns, clauses⟩

def Column.Phrase.expandAll (prefixes : Prefixes) :
    List Column.Phrase → Option (List Column.Phrase)
  | [] => some []
  | .term t :: rest => do
    let t ← t.expand prefixes
    let rest ← Column.Phrase.expandAll prefixes rest
    return .term t :: rest
  | .count query :: rest => do
    let query ← query.expand prefixes
    let rest ← Column.Phrase.expandAll prefixes rest
    return .count query :: rest
  | .subquery query :: rest => do
    let query ← query.expand prefixes
    let rest ← Column.Phrase.expandAll prefixes rest
    return .subquery query :: rest

end

def StatementQuery.expand (prefixes : Prefixes) (q : StatementQuery) : Option StatementQuery := do
  let subject ← q.subject.expand prefixes
  let predicate ← q.predicate.expand prefixes
  let object ← q.object.expand prefixes
  let clauses ← q.clauses.expand prefixes
  return ⟨subject, predicate, object, clauses⟩

def Select.expand (prefixes : Prefixes) : Select → Option Select
  | query q => (q.expand prefixes).map .query
  | statements q => (q.expand prefixes).map .statements

variable {prefixes : Prefixes}

/-! ### Clauses -/

theorem Condition.Phrase.resolveHaving_expand {level : Condition.Level}
    {phrase expanded : Condition.Phrase level} (h : phrase.expand prefixes = some expanded) :
    expanded.resolveHaving .empty = phrase.resolveHaving prefixes := by
  rw [resolveHaving, resolveHaving, resolve_expand h]

theorem Condition.Phrase.exists_expand_of_resolveHaving {level : Condition.Level}
    {phrase : Condition.Phrase level} {having : Having}
    (h : phrase.resolveHaving prefixes = .ok having) :
    ∃ expanded, phrase.expand prefixes = some expanded := by
  obtain ⟨c, hc, -⟩ := bind_eq_ok.1 h
  exact exists_expand hc

namespace Clauses

/-- Expanded clauses make the same query of the same columns, or the same error. -/
theorem assemble_expand {c expanded : Clauses} (h : c.expand prefixes = some expanded)
    (columns : Except Error (List Column)) :
    expanded.assemble .empty columns = c.assemble prefixes columns := by
  obtain ⟨graphs, hgraphs, h⟩ := Option.bind_eq_some_iff.1 h
  obtain ⟨condition, hcondition, h⟩ := Option.bind_eq_some_iff.1 h
  obtain ⟨having, hhaving, h⟩ := Option.bind_eq_some_iff.1 h
  cases h
  have hrestriction := option_mapM_expand Condition.Phrase.resolveHaving_expand hhaving
  unfold assemble restriction
  rw [hrestriction]
  rcases option_mapM_eq_some.1 hgraphs with ⟨hg, rfl⟩ | ⟨g, g', hg, rfl, hgg⟩
  · rw [hg]
  rcases option_mapM_eq_some.1 hcondition with ⟨hk, rfl⟩ | ⟨k, k', hk, rfl, hkk⟩
  · rw [hg, hk]
  · -- no token stands in the sort keys, the limit or the offset
    have hgraphs := Graphs.Phrase.resolve_expand hgg
    have hcondition := Condition.Phrase.resolve_expand hkk
    simp only [hg, hk, hgraphs, hcondition]
    rfl

theorem exists_expand {c : Clauses} {columns : Except Error (List Column)} {q : Query}
    (h : c.assemble prefixes columns = .ok q) : ∃ expanded, c.expand prefixes = some expanded := by
  obtain ⟨graphs, condition, hgraphs, hcondition, -, hg, hc, -, -, hhaving, -, -⟩ :=
    assemble_eq_ok.1 h
  obtain ⟨g, hg⟩ := Graphs.Phrase.exists_expand hg
  obtain ⟨k, hk⟩ := Condition.Phrase.exists_expand hc
  obtain ⟨r, hr⟩ :=
    exists_option_mapM_expand Condition.Phrase.exists_expand_of_resolveHaving hhaving
  have hg := option_mapM_eq_some.2 (.inr ⟨graphs, g, hgraphs, rfl, hg⟩)
  have hk := option_mapM_eq_some.2 (.inr ⟨condition, k, hcondition, rfl, hk⟩)
  refine ⟨{ c with graphs := some g, condition := some k, having := r }, ?_⟩
  simp only [expand, hg, hk, hr, bind, Option.bind, pure]

end Clauses

/-! ### Queries -/

/-- There are columns after the expansion exactly if there are columns before it. -/
theorem Column.Phrase.expandAll_eq_nil {columns expanded : List Column.Phrase}
    (h : expandAll prefixes columns = some expanded) : expanded = [] ↔ columns = [] := by
  cases columns with
  | nil =>
    cases h
    exact Iff.rfl
  | cons column rest =>
    cases column <;>
    · rw [expandAll] at h
      obtain ⟨column, -, h⟩ := Option.bind_eq_some_iff.1 h
      obtain ⟨rest, -, h⟩ := Option.bind_eq_some_iff.1 h
      cases h
      simp

mutual

theorem Query.Phrase.resolve_expand : (w expanded : Query.Phrase) →
    w.expand prefixes = some expanded → expanded.resolve .empty = w.resolve prefixes
  | ⟨none, clauses⟩, expanded, h => by
    rw [Query.Phrase.expand] at h
    obtain ⟨clauses', hclauses, rfl⟩ := Option.map_eq_some_iff.1 h
    rw [Query.Phrase.resolve, Query.Phrase.resolve, Clauses.assemble_expand hclauses]
  | ⟨some columns, clauses⟩, expanded, h => by
    rw [Query.Phrase.expand] at h
    obtain ⟨columns', hcolumns, h⟩ := Option.bind_eq_some_iff.1 h
    obtain ⟨clauses', hclauses, h⟩ := Option.bind_eq_some_iff.1 h
    cases h
    have hread := Column.Phrase.resolveAll_expand columns columns' hcolumns [] 0
    have hnil := Column.Phrase.expandAll_eq_nil hcolumns
    have hcolumns : Query.Phrase.readColumns .empty ⟨some columns', clauses'⟩
        = Query.Phrase.readColumns prefixes ⟨some columns, clauses⟩ := by
      by_cases hempty : columns = []
      · rw [hempty, hnil.2 hempty]
        rfl
      · rw [Query.Phrase.readColumns_eq_resolveAll hempty,
          Query.Phrase.readColumns_eq_resolveAll (mt hnil.1 hempty), hread]
    rw [Query.Phrase.resolve_eq_assemble, Query.Phrase.resolve_eq_assemble, hcolumns,
      Clauses.assemble_expand hclauses]

theorem Column.Phrase.resolveAll_expand : (columns expanded : List Column.Phrase) →
    Column.Phrase.expandAll prefixes columns = some expanded → ∀ seen next,
      Column.Phrase.resolveAll .empty seen next expanded
        = Column.Phrase.resolveAll prefixes seen next columns
  | [], expanded, h => by
    cases h
    intro seen next
    rw [Column.Phrase.resolveAll, Column.Phrase.resolveAll]
  | .term t :: rest, expanded, h => by
    rw [Column.Phrase.expandAll] at h
    obtain ⟨t', ht, h⟩ := Option.bind_eq_some_iff.1 h
    obtain ⟨rest', hrest, h⟩ := Option.bind_eq_some_iff.1 h
    cases h
    intro seen next
    have hread := Column.Phrase.resolveAll_expand rest rest' hrest
    cases t with
    | var name =>
      cases ht
      simp only [Column.Phrase.resolveAll, hread]
    | const value =>
      obtain ⟨value', hvalue, rfl⟩ := Option.map_eq_some_iff.1 ht
      rw [Column.Phrase.resolveAll, Column.Phrase.resolveAll,
        Constant.Phrase.resolve_expand hvalue, hread]
  | .count query :: rest, expanded, h | .subquery query :: rest, expanded, h => by
    rw [Column.Phrase.expandAll] at h
    obtain ⟨query', hquery, h⟩ := Option.bind_eq_some_iff.1 h
    obtain ⟨rest', hrest, h⟩ := Option.bind_eq_some_iff.1 h
    cases h
    intro seen next
    rw [Column.Phrase.resolveAll, Column.Phrase.resolveAll,
      Query.Phrase.resolve_expand query query' hquery,
      Column.Phrase.resolveAll_expand rest rest' hrest]

end

mutual

theorem Query.Phrase.exists_expand : (w : Query.Phrase) → {q : Query} →
    w.resolve prefixes = .ok q → ∃ expanded, w.expand prefixes = some expanded
  | ⟨none, clauses⟩, q, h => by
    rw [Query.Phrase.resolve] at h
    obtain ⟨clauses', hclauses⟩ := Clauses.exists_expand h
    rw [Query.Phrase.expand, hclauses]
    exact ⟨_, rfl⟩
  | ⟨some columns, clauses⟩, q, h => by
    rw [Query.Phrase.resolve_eq_assemble] at h
    obtain ⟨clauses', hclauses⟩ := Clauses.exists_expand h
    obtain ⟨-, -, -, -, hcolumns, -⟩ := Clauses.assemble_eq_ok.1 h
    have hlisted : ∃ cs, Column.Phrase.resolveAll prefixes [] 0 columns = .ok cs := by
      by_cases hempty : columns = []
      · rw [hempty] at hcolumns
        cases hcolumns
      · rw [Query.Phrase.readColumns_eq_resolveAll hempty] at hcolumns
        obtain ⟨cs, hcs, -⟩ := bind_eq_ok.1 hcolumns
        exact ⟨cs, hcs⟩
    obtain ⟨cs, hcs⟩ := hlisted
    obtain ⟨columns', hcolumns⟩ := Column.Phrase.exists_expandAll columns hcs
    rw [Query.Phrase.expand, hcolumns, hclauses]
    exact ⟨_, rfl⟩

theorem Column.Phrase.exists_expandAll : (columns : List Column.Phrase) → {seen : List String} →
    {next : Nat} → {cs : List Column} →
    Column.Phrase.resolveAll prefixes seen next columns = .ok cs →
      ∃ expanded, Column.Phrase.expandAll prefixes columns = some expanded
  | [], seen, next, cs, h => ⟨[], rfl⟩
  | .term (.var name) :: rest, seen, next, cs, h => by
    rw [Column.Phrase.resolveAll] at h
    obtain ⟨name', -, h⟩ := bind_eq_ok.1 h
    -- the rest was read after one variable more or after the same ones
    have hlisted : ∃ seen cs, Column.Phrase.resolveAll prefixes seen next rest = .ok cs := by
      split at h
      · exact ⟨_, _, h⟩
      · obtain ⟨cs, hcs, -⟩ := bind_eq_ok.1 h
        exact ⟨_, _, hcs⟩
    obtain ⟨seen, cs, hcs⟩ := hlisted
    obtain ⟨rest', hrest⟩ := Column.Phrase.exists_expandAll rest hcs
    rw [Column.Phrase.expandAll, hrest]
    exact ⟨_, rfl⟩
  | .term (.const value) :: rest, seen, next, cs, h => by
    rw [Column.Phrase.resolveAll] at h
    obtain ⟨constant, hconstant, h⟩ := bind_eq_ok.1 h
    obtain ⟨cs, hcs, -⟩ := bind_eq_ok.1 h
    obtain ⟨value', hvalue⟩ := Constant.Phrase.exists_expand hconstant
    obtain ⟨rest', hrest⟩ := Column.Phrase.exists_expandAll rest hcs
    rw [Column.Phrase.expandAll, Term.Phrase.expand, hvalue, hrest]
    exact ⟨_, rfl⟩
  | .count query :: rest, seen, next, cs, h | .subquery query :: rest, seen, next, cs, h => by
    rw [Column.Phrase.resolveAll] at h
    obtain ⟨q, hq, h⟩ := bind_eq_ok.1 h
    obtain ⟨cs, hcs, -⟩ := bind_eq_ok.1 h
    obtain ⟨query', hquery⟩ := Query.Phrase.exists_expand query hq
    obtain ⟨rest', hrest⟩ := Column.Phrase.exists_expandAll rest hcs
    rw [Column.Phrase.expandAll, hquery, hrest]
    exact ⟨_, rfl⟩

end

theorem StatementQuery.expand_toQuery (q : StatementQuery) :
    q.toQuery.expand prefixes = (q.expand prefixes).map toQuery := by
  obtain ⟨subject, predicate, object, clauses⟩ := q
  simp only [toQuery, expand, Query.Phrase.expand, Column.Phrase.expandAll]
  cases subject.expand prefixes with
  | none => rfl
  | some subject =>
    cases predicate.expand prefixes with
    | none => rfl
    | some predicate =>
      cases object.expand prefixes with
      | none => rfl
      | some object => cases clauses.expand prefixes <;> rfl

theorem Select.expand_toQuery (written : Select) :
    written.toQuery.expand prefixes = (written.expand prefixes).map toQuery := by
  cases written with
  | query q =>
    rw [expand, Option.map_map]
    exact Option.map_id'.symm
  | statements q =>
    rw [expand, Option.map_map]
    exact q.expand_toQuery

theorem Select.resolve_expand {written expanded : Select}
    (h : written.expand prefixes = some expanded) :
    expanded.resolve .empty = written.resolve prefixes := by
  have hquery : written.toQuery.expand prefixes = some expanded.toQuery := by
    rw [expand_toQuery, h, Option.map_some]
  exact Query.Phrase.resolve_expand _ _ hquery

theorem Select.exists_expand {written : Select} {q : Query} (h : written.resolve prefixes = .ok q) :
    ∃ expanded, written.expand prefixes = some expanded := by
  obtain ⟨query, hquery⟩ := Query.Phrase.exists_expand written.toQuery h
  rw [expand_toQuery] at hquery
  obtain ⟨expanded, hexpanded, -⟩ := Option.map_eq_some_iff.1 hquery
  exact ⟨expanded, hexpanded⟩

/-- What is written gives a query under prefixes exactly if it has an expansion, and this gives the
same query under none. -/
theorem Select.resolve_iff_expand (prefixes : Prefixes) (written : Select) (q : Query) :
    written.resolve prefixes = .ok q ↔
      ∃ expanded, written.expand prefixes = some expanded ∧ expanded.resolve .empty = .ok q := by
  constructor
  · intro h
    obtain ⟨expanded, hexpanded⟩ := exists_expand h
    have hread := resolve_expand hexpanded
    exact ⟨expanded, hexpanded, hread.trans h⟩
  · rintro ⟨expanded, hexpanded, h⟩
    have hread := resolve_expand hexpanded
    exact hread.symm.trans h

end TripleQuery
