import TripleQuery.Proofs.Phrases
import TripleQuery.Proofs.Shown.Column

/-!
# Shown queries

A query that was read can be told from the line that shows it, although the generated names of its
columns are not shown (`Query.eq_of_render_eq`). The columns end at `from`, each optional clause is
announced by words of its own, and a query inside a column ends at a parenthesis.
-/

namespace TripleQuery
open Text

/-! ### Lists with spaces -/

theorem Text.cons_toList_intercalate {α : Type} (f : α → String) {items : List α}
    (h : items ≠ []) :
    ' ' :: (" ".intercalate (items.map f)).toList = spread (fun a => (f a).toList) items := by
  induction items with
  | nil => exact absurd rfl h
  | cons a rest ih =>
    cases rest with
    | nil => simp [spread]
    | cons b rest =>
      have hrest := ih (List.cons_ne_nil b rest)
      rw [List.map_cons, List.map_cons, String.intercalate_cons_cons, ← List.map_cons (f := f)]
      rw [spread, List.flatMap_cons, ← spread, ← hrest]
      simp

/-! ### Optional clauses -/

namespace Query

def mark (word : String) : List Char := ' ' :: (word.toList ++ [' '])

theorem toList_clause_some (word text : String) :
    (clause word (some text)).toList = mark word ++ text.toList := by
  simp [clause, mark]

theorem breaks_clause_append (word : String) (x : Option String) {s : List Char} (hs : Breaks s) :
    Breaks ((clause word x).toList ++ s) := by
  cases x with
  | none => exact hs
  | some text =>
    rw [toList_clause_some]
    exact breaks_cons.2 rfl

/-- A clause is not announced by what announces another one, or by what follows that one. -/
theorem not_mark_prefix_clause {word other : String} {s : List Char} (x : Option String)
    (hother : ∀ rest, ¬ mark word <+: mark other ++ rest) (hs : ¬ mark word <+: s) :
    ¬ mark word <+: (clause other x).toList ++ s := by
  cases x with
  | none => exact hs
  | some text =>
    rw [toList_clause_some, List.append_assoc]
    exact hother _

theorem clause_append_inj {α : Type} {word : String} {f : α → String} {x y : Option α}
    {s t : List Char} (hs : ¬ mark word <+: s) (ht : ¬ mark word <+: t)
    (hvalue : ∀ a ∈ x, ∀ b ∈ y, (f a).toList ++ s = (f b).toList ++ t → a = b ∧ s = t)
    (h : (clause word (x.map f)).toList ++ s = (clause word (y.map f)).toList ++ t) :
    x = y ∧ s = t := by
  cases x with
  | none =>
    cases y with
    | none => exact ⟨rfl, h⟩
    | some b =>
      refine absurd ?_ hs
      have hshown : s = mark word ++ ((f b).toList ++ t) := by
        rw [← List.append_assoc, ← toList_clause_some]
        exact h
      rw [hshown]
      exact List.prefix_append _ _
  | some a =>
    cases y with
    | none =>
      refine absurd ?_ ht
      have hshown : t = mark word ++ ((f a).toList ++ s) := by
        rw [← List.append_assoc, ← toList_clause_some]
        exact h.symm
      rw [hshown]
      exact List.prefix_append _ _
    | some b =>
      have hshown : mark word ++ ((f a).toList ++ s) = mark word ++ ((f b).toList ++ t) := by
        rw [← List.append_assoc, ← List.append_assoc, ← toList_clause_some, ← toList_clause_some]
        exact h
      obtain ⟨hab, hst⟩ := hvalue a rfl b rfl (List.append_cancel_left hshown)
      exact ⟨by rw [hab], hst⟩

end Query

theorem Query.not_mark_prefix_of_closes {word : String} {s : List Char} (hs : Closes s) :
    ¬ mark word <+: s := by
  rintro ⟨rest, rfl⟩
  exact absurd (hs ' ' rfl) (by decide)

theorem breaks_of_closes {s : List Char} (hs : Closes s) : Breaks s := by
  intro c hc
  obtain rfl := hs c hc
  rfl

theorem endsList_of_closes {starts : Char → Prop} {s : List Char} (hs : Closes s) :
    EndsList starts s := by
  refine ⟨breaks_of_closes hs, ?_⟩
  rintro c rest rfl
  exact absurd (hs ' ' rfl) (by decide)

theorem Query.endsList_clause_append {starts : Char → Prop} {word : String} {first : Char}
    {more s : List Char} (hword : word.toList = first :: more) (hfirst : ¬ starts first)
    (x : Option String) (hs : EndsList starts s) :
    EndsList starts ((clause word x).toList ++ s) := by
  refine ⟨breaks_clause_append word x hs.1, ?_⟩
  cases x with
  | none => exact hs.2
  | some text =>
    intro c rest h
    rw [toList_clause_some, mark, hword] at h
    simp only [List.cons_append, List.cons.injEq, true_and] at h
    rw [← h.1]
    exact hfirst

/-! ### Sort keys -/

theorem SortKey.toList_render (key : SortKey) :
    key.render.toList = '$' :: (key.name.toList ++ ' ' ::
      if key.ascending then ['a', 's', 'c'] else ['d', 'e', 's', 'c']) := by
  obtain ⟨name, ascending⟩ := key
  cases ascending <;> simp [render, Variable.render]

theorem SortKey.render_append_inj {a b : SortKey} {s t : List Char}
    (ha : Variable.isName a.name = true) (hb : Variable.isName b.name = true)
    (h : a.render.toList ++ s = b.render.toList ++ t) : a = b ∧ s = t := by
  rw [toList_render, toList_render] at h
  simp only [List.cons_append, List.append_assoc, List.cons.injEq, true_and] at h
  obtain ⟨hname, h⟩ := append_inj_of_breaks (isBreak_of_isName ha) (isBreak_of_isName hb)
    (breaks_cons.2 rfl) (breaks_cons.2 rfl) h
  obtain ⟨name, ascending⟩ := a
  obtain ⟨name', ascending'⟩ := b
  obtain rfl : name = name' := String.toList_inj.1 hname
  cases ascending <;> cases ascending' <;> simp at h ⊢ <;> exact h

def Query.orderKeys? (order : List SortKey) : Option (List SortKey) :=
  if order = [] then none else some order

theorem Query.spaced_order (order : List SortKey) :
    spaced (order.map SortKey.render)
      = (orderKeys? order).map fun keys => " ".intercalate (keys.map SortKey.render) := by
  cases order with
  | nil => rfl
  | cons key rest => rfl

theorem Query.orderKeys?_injective {a b : List SortKey} (h : orderKeys? a = orderKeys? b) :
    a = b := by
  cases a with
  | nil =>
    cases b with
    | nil => rfl
    | cons => cases h
  | cons =>
    cases b with
    | nil => cases h
    | cons => exact Option.some.inj h

theorem Query.mem_orderKeys? {keys order : List SortKey} (h : keys ∈ orderKeys? order) :
    keys = order ∧ keys ≠ [] := by
  unfold orderKeys? at h
  split at h
  · cases h
  · next hne =>
    obtain rfl := Option.mem_some_iff.1 h
    exact ⟨rfl, hne⟩

theorem Query.keys_append_inj {a b : List SortKey} {s t : List Char}
    (ha : ∀ key ∈ a, Variable.isName key.name = true)
    (hb : ∀ key ∈ b, Variable.isName key.name = true) (hane : a ≠ []) (hbne : b ≠ [])
    (hs : EndsList (· = '$') s) (ht : EndsList (· = '$') t)
    (h : (" ".intercalate (a.map SortKey.render)).toList ++ s
      = (" ".intercalate (b.map SortKey.render)).toList ++ t) : a = b ∧ s = t := by
  have hstart : ∀ key : SortKey, ∃ c rest, key.render.toList = c :: rest ∧ c = '$' :=
    fun key => ⟨_, _, key.toList_render, rfl⟩
  have hspread : spread (fun key : SortKey => key.render.toList) a ++ s
      = spread (fun key : SortKey => key.render.toList) b ++ t := by
    rw [← cons_toList_intercalate SortKey.render hane,
      ← cons_toList_intercalate SortKey.render hbne]
    exact congrArg (List.cons ' ') h
  obtain ⟨hall, hst⟩ := spread_append_inj hs ht
    (fun k hk l hl _ _ _ _ => SortKey.render_append_inj (ha k hk) (hb l hl))
    (fun k _ => hstart k) (fun l _ => hstart l) hspread
  rw [List.forall₂_eq_eq_eq] at hall
  exact ⟨hall, hst⟩

/-! ### Clauses of a query -/

namespace Query

def shownClauses (having : Option Having) (order : List SortKey) (limit : Option Nat)
    (offset : Nat) : List Char :=
  (clause "having" (having.map Having.render)).toList ++
    ((clause "order by" (spaced (order.map SortKey.render))).toList ++
      ((clause "limit" (limit.map Nat.repr)).toList ++
        (clause "offset" (if offset = 0 then none else some offset.repr)).toList))

def positive? (offset : Nat) : Option Nat := if offset = 0 then none else some offset

theorem offset_eq_map_positive? (offset : Nat) :
    (if offset = 0 then none else some offset.repr) = (positive? offset).map Nat.repr := by
  unfold positive?
  split <;> rfl

theorem positive?_injective {m n : Nat} (h : positive? m = positive? n) : m = n := by
  unfold positive? at h
  split at h <;> split at h
  · omega
  · cases h
  · cases h
  · exact Option.some.inj h

/-! What may follow a clause does not begin like the clause itself. -/

theorem not_mark_prefix_offset {s : List Char} (hs : Closes s) (offset : Option String) :
    ¬ mark "limit" <+: (clause "offset" offset).toList ++ s :=
  not_mark_prefix_clause offset (by simp [mark]) (not_mark_prefix_of_closes hs)

theorem not_mark_prefix_limit {s : List Char} (hs : Closes s) (limit offset : Option String) :
    ¬ mark "order by" <+:
      (clause "limit" limit).toList ++ ((clause "offset" offset).toList ++ s) := by
  refine not_mark_prefix_clause limit (by simp [mark]) ?_
  exact not_mark_prefix_clause offset (by simp [mark]) (not_mark_prefix_of_closes hs)

theorem not_mark_prefix_order {s : List Char} (hs : Closes s) (order limit offset : Option String) :
    ¬ mark "having" <+: (clause "order by" order).toList ++
      ((clause "limit" limit).toList ++ ((clause "offset" offset).toList ++ s)) := by
  refine not_mark_prefix_clause order (by simp [mark]) ?_
  refine not_mark_prefix_clause limit (by simp [mark]) ?_
  exact not_mark_prefix_clause offset (by simp [mark]) (not_mark_prefix_of_closes hs)

theorem endsList_limit {s : List Char} (hs : Closes s) (limit offset : Option String) :
    EndsList (· = '$')
      ((clause "limit" limit).toList ++ ((clause "offset" offset).toList ++ s)) := by
  refine endsList_clause_append (by rfl) (by decide) limit ?_
  exact endsList_clause_append (by rfl) (by decide) offset (endsList_of_closes hs)

theorem shownClauses_append_inj {q r : Query} {s t : List Char} (hq : q.LevelWellFormed)
    (hr : r.LevelWellFormed) (hs : Closes s) (ht : Closes t)
    (h : shownClauses q.having q.order q.limit q.offset ++ s
      = shownClauses r.having r.order r.limit r.offset ++ t) :
    q.having = r.having ∧ q.order = r.order ∧ q.limit = r.limit ∧ q.offset = r.offset ∧ s = t := by
  have hsb := breaks_of_closes hs
  have htb := breaks_of_closes ht
  unfold shownClauses at h
  simp only [List.append_assoc, offset_eq_map_positive?] at h
  obtain ⟨hhaving, h⟩ := clause_append_inj
    (not_mark_prefix_order hs _ _ _) (not_mark_prefix_order ht _ _ _)
    (fun a ha b hb => Having.render_append_inj (hq.having a ha) (hr.having b hb)) h
  simp only [spaced_order] at h
  obtain ⟨horder, h⟩ := clause_append_inj
    (not_mark_prefix_limit hs _ _) (not_mark_prefix_limit ht _ _)
    (fun a ha b hb => keys_append_inj (by rw [(mem_orderKeys? ha).1]; exact hq.order)
      (by rw [(mem_orderKeys? hb).1]; exact hr.order) (mem_orderKeys? ha).2 (mem_orderKeys? hb).2
      (endsList_limit hs _ _) (endsList_limit ht _ _)) h
  obtain ⟨hlimit, h⟩ := clause_append_inj
    (not_mark_prefix_offset hs _) (not_mark_prefix_offset ht _)
    (fun _ _ _ _ => repr_append_inj (breaks_clause_append _ _ hsb) (breaks_clause_append _ _ htb)) h
  obtain ⟨hoffset, hst⟩ := clause_append_inj (not_mark_prefix_of_closes hs)
    (not_mark_prefix_of_closes ht) (fun _ _ _ _ => repr_append_inj hsb htb) h
  exact ⟨hhaving, orderKeys?_injective horder, hlimit, positive?_injective hoffset, hst⟩

/-! ### Columns and queries -/

def shownColumns (columns : List Column) : List Char :=
  if columns = [] then []
  else ['s', 'e', 'l', 'e', 'c', 't'] ++ (spread (fun c => c.render.toList) columns ++ [' '])

theorem toList_render (q : Query) :
    q.render.toList = shownColumns q.columns ++ (['f', 'r', 'o', 'm', ' '] ++
      (q.graphs.render.toList ++ ([' ', 'w', 'h', 'e', 'r', 'e', ' '] ++
        (q.condition.render.toList ++ shownClauses q.having q.order q.limit q.offset)))) := by
  obtain ⟨columns, graphs, condition, having, order, limit, offset⟩ := q
  cases columns with
  | nil => simp [render, Column.renderAll, spaced, shownColumns, shownClauses]
  | cons column rest =>
    have hne := List.cons_ne_nil column rest
    have hshown := cons_toList_intercalate Column.render hne
    simp [render, Column.renderAll_eq_map, spaced, shownColumns, shownClauses, ← hshown]

theorem shownColumns_append_inj {l₁ l₂ : List Column} {s t : List Char}
    (h₁ : ∀ c ∈ l₁, c.WellFormed) (h₂ : ∀ d ∈ l₂, d.WellFormed) (hn₁ : Column.Numbered 0 l₁)
    (hn₂ : Column.Numbered 0 l₂)
    (hquery : ∀ c ∈ l₁, ∀ d ∈ l₂, ∀ q r, c.query? = some q → d.query? = some r → q.Told r)
    (h : shownColumns l₁ ++ 'f' :: s = shownColumns l₂ ++ 'f' :: t) : l₁ = l₂ ∧ s = t := by
  have hends : ∀ s : List Char, EndsList (· ≠ 'f') (' ' :: 'f' :: s) := by
    intro s
    refine ⟨breaks_cons.2 rfl, fun c rest hc => ?_⟩
    simp only [List.cons.injEq, true_and] at hc
    rw [← hc.1]
    simp
  have hstart : ∀ c : Column, ∃ first rest, c.render.toList = first :: rest ∧ first ≠ 'f' := by
    intro c
    obtain ⟨rest, hc⟩ := c.exists_opening
    exact ⟨c.opening, rest, hc, c.opening_ne_f⟩
  by_cases hnil₁ : l₁ = []
  · by_cases hnil₂ : l₂ = []
    · subst hnil₁ hnil₂
      exact ⟨rfl, (List.cons_eq_cons.1 h).2⟩
    · rw [shownColumns, if_pos hnil₁, shownColumns, if_neg hnil₂] at h
      exact absurd (List.cons_eq_cons.1 h).1 (by decide)
  · by_cases hnil₂ : l₂ = []
    · rw [shownColumns, if_neg hnil₁, shownColumns, if_pos hnil₂] at h
      exact absurd (List.cons_eq_cons.1 h).1 (by decide)
    · rw [shownColumns, if_neg hnil₁, shownColumns, if_neg hnil₂] at h
      simp only [List.append_assoc] at h
      obtain ⟨halike, hst⟩ := spread_append_inj (hends s) (hends t)
        (fun c hc d hd _ _ hs ht => Column.alike_of_render (h₁ c hc) (h₂ d hd) hs ht
          (hquery c hc d hd)) (fun c _ => hstart c) (fun d _ => hstart d)
        (List.append_cancel_left h)
      simp only [List.cons.injEq, true_and] at hst
      exact ⟨Column.eq_of_alike_of_numbered hn₁ hn₂ halike, hst⟩

/-- Well-formed queries are told apart by what is shown of them. -/
theorem told_of_wellFormed {q r : Query} (hq : q.WellFormed) (hr : r.WellFormed) : q.Told r := by
  induction q using Query.induction_on_columns generalizing r with
  | level q ih =>
    intro s t hs ht h
    have hql := hq q .self
    have hrl := hr r .self
    rw [toList_render, toList_render] at h
    simp only [List.append_assoc, List.cons_append] at h
    obtain ⟨hcolumns, h⟩ := shownColumns_append_inj hql.columns hrl.columns hql.numbered
      hrl.numbered (fun c hc d hd x y hx hy => ih c hc x hx (hq.inner hc hx) (hr.inner hd hy)) h
    simp only [List.nil_append, List.cons.injEq, true_and] at h
    obtain ⟨hgraphs, h⟩ := Graphs.render_append_inj hql.graphs hrl.graphs h
    simp only [List.cons.injEq, true_and] at h
    obtain ⟨hcondition, h⟩ := Condition.render_append_inj hql.condition hrl.condition h
    obtain ⟨hhaving, horder, hlimit, hoffset, hst⟩ := shownClauses_append_inj hql hrl hs ht h
    refine ⟨?_, hst⟩
    cases q
    cases r
    cases hcolumns
    cases hgraphs
    cases hcondition
    cases hhaving
    cases horder
    cases hlimit
    cases hoffset
    rfl

/-- Queries that were read, be it with different prefixes, are the same if they are shown alike. -/
theorem eq_of_render_eq {prefixes₁ prefixes₂ : Prefixes} {written₁ written₂ : Select}
    {q₁ q₂ : Query}
    (h₁ : written₁.resolve prefixes₁ = .ok q₁) (h₂ : written₂.resolve prefixes₂ = .ok q₂)
    (h : q₁.render = q₂.render) : q₁ = q₂ := by
  have hclosed : Closes [] := by
    intro c hc
    cases hc
  have htext : q₁.render.toList ++ [] = q₂.render.toList ++ [] := by rw [h]
  have htold := told_of_wellFormed (wellFormed_of_resolve h₁) (wellFormed_of_resolve h₂)
  exact (htold [] [] hclosed hclosed htext).1

/-- A query for what is described by a text, written with a strand of one or the other sort. -/
def described (strand : Strand) : Select :=
  .query ⟨some [.term (.const (.resource "urn:r")), .term (.var "x")],
    Clauses.ofPattern "urn:m"
      ⟨.var "x", .const (.resource "urn:p"), .const (.literal ⟨[strand], none⟩), none⟩⟩

/-- What `described` stands for with the text `it's`. -/
def describedRead : Query :=
  ⟨[.constant "k0" (.iri "urn:r"), .var "x"], .graph "urn:m",
    .constraint (.pattern
      (.ofTerms (.var "x") (.const (.iri "urn:p")) (.const (.literal ⟨"it's", none⟩)) none)),
    none, [], none, 0⟩

theorem eq_of_render_eq_described :
    ∃ q₁ q₂, (described (.plain "it's")).resolve .empty = .ok q₁ ∧
      (described (.escaped "it\\'s")).resolve .empty = .ok q₂ ∧ q₁.render = q₂.render ∧
      q₁ = q₂ := by
  have hplain : (described (.plain "it's")).resolve .empty = .ok describedRead := rfl
  have hescaped : (described (.escaped "it\\'s")).resolve .empty = .ok describedRead := rfl
  exact ⟨_, _, hplain, hescaped, rfl, eq_of_render_eq hplain hescaped rfl⟩

end Query
end TripleQuery
