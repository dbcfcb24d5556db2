import TripleQuery.Proofs.Shown.Expression

/-!
# Shown columns

A column can be told from what is shown of it, but for a generated name (`Column.Alike`); the
query inside a column is told apart as far as queries are. The generated names follow from the
places of the columns (`Column.eq_of_alike_of_numbered`).
-/

namespace TripleQuery
open Text

theorem Query.WellFormed.inner {q inner : Query} {column : Column} (h : q.WellFormed)
    (hmem : column ∈ q.columns) (hinner : column.query? = some inner) : inner.WellFormed :=
  fun r hr => h r (.column hmem hinner hr)

/-! ### Columns -/

namespace Column

/-- The columns are the same, but for the name of a column that is no variable. -/
inductive Alike : Column → Column → Prop
  | var {name : String} : Alike (var name) (var name)
  | constant {m n : String} {value : Constant} : Alike (constant m value) (constant n value)
  | count {m n : String} {query : Query} : Alike (count m query) (count n query)
  | subquery {m n : String} {query : Query} : Alike (subquery m query) (subquery n query)

/-- The numbering gives back the names that are not shown. -/
theorem eq_of_alike_of_numbered {next : Nat} {l₁ l₂ : List Column} (h₁ : Numbered next l₁)
    (h₂ : Numbered next l₂) (h : List.Forall₂ Alike l₁ l₂) : l₁ = l₂ := by
  induction h generalizing next with
  | nil => rfl
  | cons hhead _ ih =>
    cases hhead with
    | var => rw [ih h₁ h₂]
    | constant | count | subquery =>
      obtain ⟨hname₁, hrest₁⟩ := h₁
      obtain ⟨hname₂, hrest₂⟩ := h₂
      simp only [name] at hname₁ hname₂
      rw [hname₁, hname₂, ih hrest₁ hrest₂]

def opening : Column → Char
  | var _ => '$'
  | constant _ (.iri _) => '<'
  | constant _ (.literal _) => '\''
  | count .. => 'c'
  | subquery .. => 's'

theorem toList_render_count (name : String) (q : Query) :
    (count name q).render.toList
      = 'c' :: 'o' :: 'u' :: 'n' :: 't' :: '(' :: (q.render.toList ++ [')']) := by
  simp [render]

theorem toList_render_subquery (name : String) (q : Query) :
    (subquery name q).render.toList = 's' :: 'u' :: 'b' :: 'q' :: 'u' :: 'e' :: 'r' :: 'y' :: '(' ::
      (q.render.toList ++ [')']) := by
  simp [render]

theorem render_var (name : String) : (var name).render = Variable.render name := by
  simp only [render]

theorem render_constant (name : String) (value : Constant) :
    (constant name value).render = value.render := by
  simp only [render]

theorem exists_opening (c : Column) : ∃ rest, c.render.toList = c.opening :: rest := by
  cases c with
  | var name =>
    rw [render_var]
    exact ⟨_, Variable.toList_render name⟩
  | constant name value =>
    rw [render_constant]
    cases value with
    | iri text => exact ⟨_, toList_renderIri text⟩
    | literal value => exact ⟨_, Literal.toList_render value⟩
  | count name q => exact ⟨_, toList_render_count name q⟩
  | subquery name q => exact ⟨_, toList_render_subquery name q⟩

theorem opening_eq {c d : Column} {s t : List Char}
    (h : c.render.toList ++ s = d.render.toList ++ t) : c.opening = d.opening := by
  obtain ⟨rest, hc⟩ := c.exists_opening
  obtain ⟨rest', hd⟩ := d.exists_opening
  exact first_eq_of_append_eq hc hd h

theorem opening_ne_f (c : Column) : c.opening ≠ 'f' := by
  cases c with
  | constant name value => cases value <;> simp [opening]
  | var | count | subquery => simp [opening]

end Column

/-- The text is empty or begins with the parenthesis that ends a query inside a column. -/
def Closes (text : List Char) : Prop := ∀ c ∈ text.head?, c = ')'

/-- The queries can be told apart by what is shown of them. -/
def Query.Told (q r : Query) : Prop :=
  ∀ s t, Closes s → Closes t → q.render.toList ++ s = r.render.toList ++ t → q = r ∧ s = t

theorem Column.alike_of_render {c d : Column} {s t : List Char} (hc : c.WellFormed)
    (hd : d.WellFormed) (hs : Breaks s) (ht : Breaks t)
    (hquery : ∀ q r, c.query? = some q → d.query? = some r → q.Told r)
    (h : c.render.toList ++ s = d.render.toList ++ t) : c.Alike d ∧ s = t := by
  have hopening := opening_eq h
  have hcloses : ∀ s : List Char, Closes (')' :: s) := by
    intro s c hmem
    exact (Option.mem_some_iff.1 hmem).symm
  cases c with
  | var a =>
    cases d with
    | var b =>
      rw [render_var, render_var] at h
      obtain ⟨rfl, hst⟩ := Variable.render_append_inj hc hd hs ht h
      exact ⟨.var, hst⟩
    | constant _ v => cases v <;> simp [opening] at hopening
    | count | subquery => simp [opening] at hopening
  | constant m v =>
    cases d with
    | constant n w =>
      rw [render_constant, render_constant] at h
      obtain ⟨rfl, hst⟩ := Constant.render_append_inj hc hd hs ht h
      exact ⟨.constant, hst⟩
    | var | count | subquery => cases v <;> simp [opening] at hopening
  | count m q =>
    cases d with
    | count n r =>
      rw [toList_render_count, toList_render_count] at h
      simp only [List.cons_append, List.append_assoc, List.cons.injEq, true_and] at h
      obtain ⟨rfl, hst⟩ := hquery q r rfl rfl _ _ (hcloses _) (hcloses _) h
      exact ⟨.count, (List.cons_eq_cons.1 hst).2⟩
    | constant _ v => cases v <;> simp [opening] at hopening
    | var | subquery => simp [opening] at hopening
  | subquery m q =>
    cases d with
    | subquery n r =>
      rw [toList_render_subquery, toList_render_subquery] at h
      simp only [List.cons_append, List.append_assoc, List.cons.injEq, true_and] at h
      obtain ⟨rfl, hst⟩ := hquery q r rfl rfl _ _ (hcloses _) (hcloses _) h
      exact ⟨.subquery, (List.cons_eq_cons.1 hst).2⟩
    | constant _ v => cases v <;> simp [opening] at hopening
    | var | count => simp [opening] at hopening

end TripleQuery
