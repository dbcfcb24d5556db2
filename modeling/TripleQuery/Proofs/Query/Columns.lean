import TripleQuery.Proofs.Query.Assembly

/-!
# The columns of a query

How a written list of columns becomes columns, as a relation: a variable that was seen before is
left out, any other variable stays, and every other column gets the next generated name.
`resolveAll_eq_ok` ties the relation to the reading. Whatever holds of all queries that are read
holds at every level of such a query, because the inner queries are read in the same way
(`exists_resolve_of_within`).
-/

namespace TripleQuery

namespace Column

def query? : Column → Option Query
  | count _ query | subquery _ query => some query
  | _ => none

/-- The generated names of the columns follow each other, from the given one on. -/
def Numbered : Nat → List Column → Prop
  | _, [] => True
  | next, column :: rest =>
    match column.var? with
    | some _ => Numbered next rest
    | none => column.name = Variable.generated next ∧ Numbered (next + 1) rest

def unnamed (columns : List Column) : List Column := columns.filter fun c => c.var?.isNone

theorem var?_of_query? {column : Column} {q : Query} (h : column.query? = some q) :
    column.var? = none := by
  cases column with
  | var => cases h
  | constant => cases h
  | count => rfl
  | subquery => rfl

namespace Phrase

/-- A written column that is no variable, and a column that it stands for under some name. -/
inductive Gives (prefixes : Prefixes) : Column.Phrase → Column → Prop
  | constant {name : String} {written : Constant.Phrase} {value : Constant} :
      written.resolve prefixes = .ok value →
      Gives prefixes (.term (.const written)) (.constant name value)
  | count {name : String} {written : Query.Phrase} {query : Query} :
      written.resolve prefixes = .ok query → Gives prefixes (.count written) (.count name query)
  | subquery {name : String} {written : Query.Phrase} {query : Query} :
      written.resolve prefixes = .ok query →
      Gives prefixes (.subquery written) (.subquery name query)

/-- A written list, and the columns that it stands for after the variables in a list of names and
a number of generated names. -/
inductive Listed (prefixes : Prefixes) :
    List String → Nat → List Column.Phrase → List Column → Prop
  | nil {seen : List String} {next : Nat} : Listed prefixes seen next [] []
  | again {seen : List String} {next : Nat} {name : String} {rest : List Column.Phrase}
      {columns : List Column} : Variable.isName name = true → name ∈ seen →
      Listed prefixes seen next rest columns →
      Listed prefixes seen next (.term (.var name) :: rest) columns
  | var {seen : List String} {next : Nat} {name : String} {rest : List Column.Phrase}
      {columns : List Column} : Variable.isName name = true → name ∉ seen →
      Listed prefixes (name :: seen) next rest columns →
      Listed prefixes seen next (.term (.var name) :: rest) (.var name :: columns)
  | value {seen : List String} {next : Nat} {written : Column.Phrase} {column : Column}
      {rest : List Column.Phrase} {columns : List Column} : Gives prefixes written column →
      column.name = Variable.generated next → Listed prefixes seen (next + 1) rest columns →
      Listed prefixes seen next (written :: rest) (column :: columns)

theorem var?_of_gives {prefixes : Prefixes} {written : Column.Phrase} {column : Column}
    (h : Gives prefixes written column) : column.var? = none := by
  cases h <;> rfl

theorem exists_resolve_of_gives {prefixes : Prefixes} {written : Column.Phrase} {column : Column}
    {q : Query} (h : Gives prefixes written column) (hq : column.query? = some q) :
    ∃ w : Query.Phrase, w.resolve prefixes = .ok q := by
  cases h with
  | constant => cases hq
  | count hw => cases hq; exact ⟨_, hw⟩
  | subquery hw => cases hq; exact ⟨_, hw⟩

/-! ### The relation and the reading -/

theorem listed_of_resolveAll {prefixes : Prefixes} {written : List Column.Phrase} :
    ∀ {seen : List String} {next : Nat} {columns : List Column},
      resolveAll prefixes seen next written = .ok columns →
      Listed prefixes seen next written columns := by
  induction written with
  | nil =>
    intro seen next columns h
    simp only [resolveAll] at h
    cases h
    exact .nil
  | cons first rest ih =>
    intro seen next columns h
    rcases first with ⟨name | value⟩ | query | query <;> simp only [resolveAll] at h
    · obtain ⟨checked, hcheck, htail⟩ := bind_eq_ok.1 h
      obtain ⟨hname, rfl⟩ := Variable.check_eq_ok.1 hcheck
      split at htail
      · next hseen => exact .again hname hseen (ih htail)
      · next hseen =>
        obtain ⟨more, hmore, htail⟩ := bind_eq_ok.1 htail
        cases htail
        exact .var hname hseen (ih hmore)
    · obtain ⟨value, hvalue, h⟩ := bind_eq_ok.1 h
      obtain ⟨more, hmore, h⟩ := bind_eq_ok.1 h
      cases h
      exact .value (.constant hvalue) rfl (ih hmore)
    · obtain ⟨query, hquery, h⟩ := bind_eq_ok.1 h
      obtain ⟨more, hmore, h⟩ := bind_eq_ok.1 h
      cases h
      exact .value (.count hquery) rfl (ih hmore)
    · obtain ⟨query, hquery, h⟩ := bind_eq_ok.1 h
      obtain ⟨more, hmore, h⟩ := bind_eq_ok.1 h
      cases h
      exact .value (.subquery hquery) rfl (ih hmore)

theorem resolveAll_of_listed {prefixes : Prefixes} {seen : List String} {next : Nat}
    {written : List Column.Phrase} {columns : List Column}
    (h : Listed prefixes seen next written columns) :
    resolveAll prefixes seen next written = .ok columns := by
  induction h with
  | nil => simp only [resolveAll]
  | again hname hseen _ ih =>
    simp [resolveAll, Variable.check, hname, hseen, ih, bind, Except.bind]
  | var hname hseen _ ih =>
    simp [resolveAll, Variable.check, hname, hseen, ih, bind, Except.bind, pure, Except.pure]
  | value hgives hname _ ih =>
    cases hgives with
    | constant hw | count hw | subquery hw =>
      simp only [Column.name] at hname
      subst hname
      simp [resolveAll, hw, ih, bind, Except.bind, pure, Except.pure]

theorem resolveAll_eq_ok {prefixes : Prefixes} {seen : List String} {next : Nat}
    {written : List Column.Phrase} {columns : List Column} :
    resolveAll prefixes seen next written = .ok columns ↔
      Listed prefixes seen next written columns :=
  ⟨listed_of_resolveAll, resolveAll_of_listed⟩

/-! ### What the relation gives -/

theorem numbered_of_listed {prefixes : Prefixes} {seen : List String} {next : Nat}
    {written : List Column.Phrase} {columns : List Column}
    (h : Listed prefixes seen next written columns) : Numbered next columns := by
  induction h with
  | nil => trivial
  | again _ _ _ ih => exact ih
  | var _ _ _ ih => exact ih
  | value hgives hname _ ih =>
    simp only [Numbered, var?_of_gives hgives]
    exact ⟨hname, ih⟩

/-- The variables among the columns are names of variables, and none is there twice or was seen
before. -/
theorem variables_of_listed {prefixes : Prefixes} {seen : List String} {next : Nat}
    {written : List Column.Phrase} {columns : List Column}
    (h : Listed prefixes seen next written columns) :
    (columns.filterMap Column.var?).Nodup ∧
      ∀ name ∈ columns.filterMap Column.var?, Variable.isName name = true ∧ name ∉ seen := by
  induction h with
  | nil => simp
  | again _ _ _ ih => exact ih
  | var hname hseen _ ih =>
    simp only [List.filterMap_cons, Column.var?, List.nodup_cons, List.mem_cons, forall_eq_or_imp]
    refine ⟨⟨fun hmem => ?_, ih.1⟩, ⟨hname, hseen⟩, fun x hx => ?_⟩
    · exact (ih.2 _ hmem).2 (List.mem_cons_self ..)
    · exact ⟨(ih.2 x hx).1, fun hmem => (ih.2 x hx).2 (List.mem_cons_of_mem _ hmem)⟩
  | value hgives _ _ ih => simpa only [List.filterMap_cons, var?_of_gives hgives] using ih

theorem gives_of_listed {prefixes : Prefixes} {seen : List String} {next : Nat}
    {written : List Column.Phrase} {columns : List Column}
    (h : Listed prefixes seen next written columns) :
    ∀ column ∈ columns, column.var? = none → ∃ w ∈ written, Gives prefixes w column := by
  induction h with
  | nil => simp
  | again _ _ _ ih =>
    intro column hmem hvar
    obtain ⟨w, hw, hgives⟩ := ih column hmem hvar
    exact ⟨w, List.mem_cons_of_mem _ hw, hgives⟩
  | var _ _ _ ih =>
    intro column hmem hvar
    rcases List.mem_cons.1 hmem with rfl | hmem
    · cases hvar
    · obtain ⟨w, hw, hgives⟩ := ih column hmem hvar
      exact ⟨w, List.mem_cons_of_mem _ hw, hgives⟩
  | value hgives _ _ ih =>
    intro column hmem hvar
    rcases List.mem_cons.1 hmem with rfl | hmem
    · exact ⟨_, List.mem_cons_self .., hgives⟩
    · obtain ⟨w, hw, hgives⟩ := ih column hmem hvar
      exact ⟨w, List.mem_cons_of_mem _ hw, hgives⟩

end Phrase
end Column

/-! ### Levels of a query -/

namespace Query

/-- What holds of a query as soon as it holds of the queries of its columns holds of every query. -/
theorem induction_on_columns {motive : Query → Prop}
    (level : ∀ q : Query,
      (∀ column ∈ q.columns, ∀ inner, column.query? = some inner → motive inner) → motive q)
    (q : Query) : motive q := by
  refine level q fun column hmem inner hinner => ?_
  have hcolumns : sizeOf q.columns < sizeOf q := by
    cases q
    simp only [Query.mk.sizeOf_spec]
    omega
  have hcolumn := List.sizeOf_lt_of_mem hmem
  have hquery : sizeOf inner < sizeOf column := by
    cases column with
    | var | constant => cases hinner
    | count name r | subquery name r =>
      cases hinner
      simp only [Column.count.sizeOf_spec, Column.subquery.sizeOf_spec]
      omega
  exact Query.induction_on_columns level inner
termination_by sizeOf q
decreasing_by omega

/-- The first query is the second one, or a query of one of its columns at any depth. -/
inductive Within (inner : Query) : Query → Prop
  | self : Within inner inner
  | column {q r : Query} {column : Column} : column ∈ q.columns → column.query? = some r →
      Within inner r → Within inner q

/-- The columns of a query that was read are those of a written list, or there is none. -/
theorem listed_of_resolve {prefixes : Prefixes} {w : Query.Phrase} {q : Query}
    (h : w.resolve prefixes = .ok q) :
    w.columns = none ∧ q.columns = [] ∨
      ∃ written, w.columns = some written ∧
        Column.Phrase.Listed prefixes [] 0 written q.columns := by
  rw [Query.Phrase.resolve_eq_assemble] at h
  obtain ⟨_, _, _, _, hcolumns, _⟩ := Clauses.assemble_eq_ok.1 h
  unfold Query.Phrase.readColumns at hcolumns
  split at hcolumns
  · next hnone =>
    exact Or.inl ⟨hnone, (Except.ok.inj hcolumns).symm⟩
  · cases hcolumns
  · next written _ hsome =>
    obtain ⟨columns, hread, hall⟩ := bind_eq_ok.1 hcolumns
    unfold Column.someOf at hall
    split at hall
    · cases hall
    · cases hall
      exact Or.inr ⟨written, hsome, Column.Phrase.listed_of_resolveAll hread⟩

/-- Every level of a query that was read is itself read from some written query. -/
theorem exists_resolve_of_within {prefixes : Prefixes} {r q : Query} (hwithin : r.Within q) :
    (∃ w : Query.Phrase, w.resolve prefixes = .ok q) →
      ∃ w : Query.Phrase, w.resolve prefixes = .ok r := by
  induction hwithin with
  | self => exact id
  | column hmem hquery _ ih =>
    rintro ⟨w, hw⟩
    rcases listed_of_resolve hw with ⟨_, hnil⟩ | ⟨written, _, hlisted⟩
    · simp [hnil] at hmem
    · refine ih ?_
      have hvar := Column.var?_of_query? hquery
      obtain ⟨_, _, hgives⟩ := Column.Phrase.gives_of_listed hlisted _ hmem hvar
      exact Column.Phrase.exists_resolve_of_gives hgives hquery

end Query
end TripleQuery
