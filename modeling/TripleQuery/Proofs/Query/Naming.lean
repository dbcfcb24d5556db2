import TripleQuery.Proofs.Names
import TripleQuery.Proofs.Phrases
import TripleQuery.Proofs.Query.Columns

/-!
# The names of columns

A column that is no variable is known by a generated name. The generated names of one list of
columns are `k0`, `k1` and so on without a gap, whatever names the query uses itself. So they are
told apart from each other, and they are told apart from the variables of the query exactly if the
condition mentions none of them (`freshNames_iff_of_within`).
-/

namespace TripleQuery

namespace Column

theorem map_name_unnamed {next : Nat} {columns : List Column} (h : Numbered next columns) :
    (unnamed columns).map name
      = (List.range' next (unnamed columns).length).map Variable.generated := by
  induction columns generalizing next with
  | nil => rfl
  | cons column rest ih =>
    cases hvar : column.var? with
    | some x =>
      simp only [Numbered, hvar] at h
      simpa [unnamed, hvar] using ih h
    | none =>
      simp only [Numbered, hvar] at h
      have hrest := ih h.2
      simp only [unnamed] at hrest ⊢
      simp [hvar, h.1, hrest, List.range'_succ]

theorem perm_names (columns : List Column) :
    (columns.map name).Perm (columns.filterMap var? ++ (unnamed columns).map name) := by
  induction columns with
  | nil => exact List.Perm.nil
  | cons column rest ih =>
    cases column with
    | var x => exact ih.cons x
    | constant x _ | count x _ | subquery x _ =>
      exact (ih.cons x).trans List.perm_middle.symm

end Column

namespace Query

/-- The names of the columns tell them apart, and no generated name is that of a variable among the
columns or in the condition. -/
def FreshNames (q : Query) : Prop :=
  (q.columns.map Column.name).Nodup ∧
    ∀ column ∈ Column.unnamed q.columns,
      column.name ∉ q.columns.filterMap Column.var? ∧ column.name ∉ q.condition.varNames

theorem map_name_unnamed_of_resolve {prefixes : Prefixes} {w : Query.Phrase} {q : Query}
    (h : w.resolve prefixes = .ok q) :
    (Column.unnamed q.columns).map Column.name
      = Variable.generatedNames (Column.unnamed q.columns).length := by
  rcases listed_of_resolve h with ⟨_, hnil⟩ | ⟨_, _, hlisted⟩
  · rw [hnil]
    rfl
  · rw [Column.map_name_unnamed (Column.Phrase.numbered_of_listed hlisted),
      Variable.generatedNames, List.range_eq_range']

theorem nodup_variables_of_resolve {prefixes : Prefixes} {w : Query.Phrase} {q : Query}
    (h : w.resolve prefixes = .ok q) : (q.columns.filterMap Column.var?).Nodup := by
  rcases listed_of_resolve h with ⟨_, hnil⟩ | ⟨_, _, hlisted⟩
  · simp [hnil]
  · exact (Column.Phrase.variables_of_listed hlisted).1

theorem constrained_of_resolve {prefixes : Prefixes} {w : Query.Phrase} {q : Query}
    (h : w.resolve prefixes = .ok q) :
    ∀ name ∈ q.columns.filterMap Column.var?, name ∈ q.condition.varNames := by
  rw [Query.Phrase.resolve_eq_assemble] at h
  obtain ⟨_, _, _, _, _, _, _, hvars, _⟩ := Clauses.assemble_eq_ok.1 h
  exact hvars

/-- The names of the columns are told apart exactly if no generated one is that of a variable among
them. -/
theorem nodup_names_iff_of_resolve {prefixes : Prefixes} {w : Query.Phrase} {q : Query}
    (h : w.resolve prefixes = .ok q) :
    (q.columns.map Column.name).Nodup ↔
      ∀ name ∈ Variable.generatedNames (Column.unnamed q.columns).length,
        name ∉ q.columns.filterMap Column.var? := by
  have hvars := nodup_variables_of_resolve h
  have hgenerated := Variable.nodup_generatedNames (Column.unnamed q.columns).length
  rw [(Column.perm_names q.columns).nodup_iff, map_name_unnamed_of_resolve h, List.nodup_append]
  constructor
  · rintro ⟨-, -, hdisjoint⟩ name hname hvar
    exact hdisjoint name hvar name hname rfl
  · intro hfree
    refine ⟨hvars, hgenerated, fun x hx y hy hxy => ?_⟩
    exact hfree y hy (hxy ▸ hx)

/-- The names are fresh exactly if none of the generated ones stands in the condition. -/
theorem freshNames_iff_of_resolve {prefixes : Prefixes} {w : Query.Phrase} {q : Query}
    (h : w.resolve prefixes = .ok q) :
    q.FreshNames ↔
      ∀ name ∈ Variable.generatedNames (Column.unnamed q.columns).length,
        name ∉ q.condition.varNames := by
  have hmem : ∀ name, (∃ column ∈ Column.unnamed q.columns, column.name = name) ↔
      name ∈ Variable.generatedNames (Column.unnamed q.columns).length := by
    intro name
    rw [← map_name_unnamed_of_resolve h, List.mem_map]
  constructor
  · rintro ⟨-, hfresh⟩ name hname
    obtain ⟨column, hcolumn, rfl⟩ := (hmem name).2 hname
    exact (hfresh column hcolumn).2
  · intro hfree
    -- a variable among the columns stands in the condition, so being apart from that is enough
    have hapart : ∀ name ∈ Variable.generatedNames (Column.unnamed q.columns).length,
        name ∉ q.columns.filterMap Column.var? :=
      fun name hname hvar => hfree name hname (constrained_of_resolve h name hvar)
    refine ⟨(nodup_names_iff_of_resolve h).2 hapart, fun column hcolumn => ?_⟩
    have hname := (hmem column.name).1 ⟨column, hcolumn, rfl⟩
    exact ⟨hapart _ hname, hfree _ hname⟩

/-- At every level of a query, the columns that are no variables are named `k0`, `k1` and so on, and
no variable is there twice. The names of all columns are told apart exactly if no variable among the
columns is called by a generated one, and they are fresh exactly if the condition mentions none. -/
theorem freshNames_iff_of_within {prefixes : Prefixes} {written : Select} {q r : Query}
    (h : written.resolve prefixes = .ok q) (hr : r.Within q) :
    (Column.unnamed r.columns).map Column.name
        = Variable.generatedNames (Column.unnamed r.columns).length ∧
      ((Column.unnamed r.columns).map Column.name).Nodup ∧
      (r.columns.filterMap Column.var?).Nodup ∧
      ((r.columns.map Column.name).Nodup ↔
        ∀ name ∈ Variable.generatedNames (Column.unnamed r.columns).length,
          name ∉ r.columns.filterMap Column.var?) ∧
      (r.FreshNames ↔
        ∀ name ∈ Variable.generatedNames (Column.unnamed r.columns).length,
          name ∉ r.condition.varNames) := by
  obtain ⟨w, hw⟩ := exists_resolve_of_within hr ⟨written.toQuery, h⟩
  have hgenerated := map_name_unnamed_of_resolve hw
  have hnodup : ((Column.unnamed r.columns).map Column.name).Nodup := by
    rw [hgenerated]
    exact Variable.nodup_generatedNames _
  exact ⟨hgenerated, hnodup, nodup_variables_of_resolve hw, nodup_names_iff_of_resolve hw,
    freshNames_iff_of_resolve hw⟩

/-! ### Two queries with generated names -/

def aboutVariable (name : String) : Pattern.Phrase :=
  ⟨.var name, .const (.resource "urn:p"), .const (.literal ⟨[.plain "o"], none⟩), none⟩

/-- A query of the variables `x`, with the number of rows of a query of `y` and a constant. -/
def countedInside : Select :=
  .query ⟨some [.term (.var "x"),
    .count ⟨some [.term (.var "y"), .term (.const (.resource "urn:r"))],
      Clauses.ofPattern "urn:m" (aboutVariable "y")⟩],
    Clauses.ofPattern "urn:m" (aboutVariable "x")⟩

def aboutVariableRead (name : String) : Condition :=
  .constraint (.pattern
    (.ofTerms (.var name) (.const (.iri "urn:p")) (.const (.literal ⟨"o", none⟩)) none))

def countedInsideInner : Query :=
  ⟨[.var "y", .constant "k0" (.iri "urn:r")], .graph "urn:m", aboutVariableRead "y", none, [],
    none, 0⟩

def countedInsideRead : Query :=
  ⟨[.var "x", .count "k0" countedInsideInner], .graph "urn:m", aboutVariableRead "x", none, [],
    none, 0⟩

theorem freshNames_countedInside :
    countedInside.resolve Prefixes.empty = .ok countedInsideRead ∧
      countedInsideInner.Within countedInsideRead ∧ countedInsideInner.FreshNames := by
  have hread : countedInside.resolve Prefixes.empty = .ok countedInsideRead := rfl
  have hwithin : countedInsideInner.Within countedInsideRead :=
    .column (List.mem_cons_of_mem _ (List.mem_cons_self ..)) rfl .self
  refine ⟨hread, hwithin, ?_⟩
  exact (freshNames_iff_of_within hread hwithin).2.2.2.2.2 (by decide)

/-- A constant and a variable that is called as the constant will be. -/
def borrowedName : Select :=
  .query ⟨some [.term (.const (.resource "urn:r")), .term (.var "k0")],
    Clauses.ofPattern "urn:m" (aboutVariable "k0")⟩

/-- What `borrowedName` stands for: two columns with one name. -/
def borrowedNameRead : Query :=
  ⟨[.constant "k0" (.iri "urn:r"), .var "k0"], .graph "urn:m", aboutVariableRead "k0", none, [],
    none, 0⟩

theorem not_freshNames_borrowedName :
    borrowedName.resolve Prefixes.empty = .ok borrowedNameRead ∧ ¬ borrowedNameRead.FreshNames := by
  refine ⟨rfl, fun hfresh => ?_⟩
  have hnodup : ["k0", "k0"].Nodup := hfresh.1
  simp at hnodup

end Query
end TripleQuery
