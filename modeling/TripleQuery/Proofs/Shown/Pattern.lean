import TripleQuery.Proofs.Text.Apart
import TripleQuery.Proofs.WellFormed

/-!
# Shown terms and patterns

A well-formed term can be told from what a query shows of it, as far as a break follows; a pattern
can be told in any case, because it is in brackets. The first character of a term says what it is,
an IRI holds no closing bracket, and a datatype is announced by a character that is no break.
-/

namespace TripleQuery
open Text

/-! ### IRIs and variables -/

theorem toList_renderIri (text : String) :
    (renderIri text).toList = '<' :: (text.toList ++ ['>']) := by
  simp [renderIri]

theorem renderIri_append_inj {a b : String} {s t : List Char} (ha : IsReference a)
    (hb : IsReference b) (h : (renderIri a).toList ++ s = (renderIri b).toList ++ t) :
    a = b ∧ s = t := by
  have hclosed : ∀ {text : String}, IsReference text → ∀ c ∈ text.toList, (c != '>') = true := by
    intro text htext c hc
    have hchar := isIriText_of_isReference htext c hc
    by_contra hclose
    obtain rfl : c = '>' := by simpa using hclose
    exact absurd hchar (by decide)
  rw [toList_renderIri, toList_renderIri, List.cons_append, List.cons_append, List.append_assoc,
    List.append_assoc] at h
  have htail := (List.cons_eq_cons.1 h).2
  obtain ⟨hab, hst⟩ := append_inj_of_stop (hclosed ha) (hclosed hb) (by simp) (by simp) htail
  exact ⟨String.toList_inj.1 hab, (List.cons_eq_cons.1 hst).2⟩

theorem Variable.toList_render (name : String) : (render name).toList = '$' :: name.toList := by
  simp [render]

theorem Variable.render_append_inj {a b : String} {s t : List Char} (ha : isName a = true)
    (hb : isName b = true) (hs : Breaks s) (ht : Breaks t)
    (h : (render a).toList ++ s = (render b).toList ++ t) : a = b ∧ s = t := by
  rw [toList_render, toList_render, List.cons_append, List.cons_append] at h
  have htail := (List.cons_eq_cons.1 h).2
  obtain ⟨hab, hst⟩ :=
    append_inj_of_breaks (isBreak_of_isName ha) (isBreak_of_isName hb) hs ht htail
  exact ⟨String.toList_inj.1 hab, hst⟩

/-! ### Literals and constants -/

def Literal.shownDatatype : Option String → List Char
  | none => []
  | some datatype => '^' :: '^' :: (renderIri datatype).toList

theorem Literal.toList_render (l : Literal) :
    l.render.toList
      = '\'' :: (Quoted.escape l.lexical.toList ++ '\'' :: shownDatatype l.datatype) := by
  obtain ⟨lexical, datatype⟩ := l
  cases datatype with
  | none => simp [render, shownDatatype]
  | some datatype => simp [render, shownDatatype]

theorem Literal.shownDatatype_append_inj {a b : Option String} {s t : List Char}
    (ha : ∀ datatype ∈ a, IsReference datatype) (hb : ∀ datatype ∈ b, IsReference datatype)
    (hs : Breaks s) (ht : Breaks t) (h : shownDatatype a ++ s = shownDatatype b ++ t) :
    a = b ∧ s = t := by
  have hapart : ∀ {text rest : List Char}, Breaks text → text ≠ '^' :: rest := by
    rintro text rest hbreaks rfl
    exact absurd (breaks_cons.1 hbreaks) (by decide)
  cases a with
  | none =>
    cases b with
    | none => exact ⟨rfl, h⟩
    | some b => exact absurd h (hapart hs)
  | some a =>
    cases b with
    | none => exact absurd h.symm (hapart ht)
    | some b =>
      have htail := (List.cons_eq_cons.1 (List.cons_eq_cons.1 h).2).2
      obtain ⟨hab, hst⟩ := renderIri_append_inj (ha a rfl) (hb b rfl) htail
      exact ⟨by rw [hab], hst⟩

theorem Literal.render_append_inj {a b : Literal} {s t : List Char}
    (ha : (Constant.literal a).WellFormed) (hb : (Constant.literal b).WellFormed) (hs : Breaks s)
    (ht : Breaks t) (h : a.render.toList ++ s = b.render.toList ++ t) : a = b ∧ s = t := by
  rw [toList_render, toList_render, List.cons_append, List.cons_append, List.append_assoc,
    List.append_assoc] at h
  obtain ⟨hlexical, htail⟩ := escape_append_inj (List.cons_eq_cons.1 h).2
  obtain ⟨hdatatype, hst⟩ := shownDatatype_append_inj ha hb hs ht htail
  obtain ⟨lexical, datatype⟩ := a
  obtain ⟨lexical', datatype'⟩ := b
  obtain rfl : lexical = lexical' := String.toList_inj.1 hlexical
  obtain rfl : datatype = datatype' := hdatatype
  exact ⟨rfl, hst⟩

theorem Constant.exists_cons_render (c : Constant) :
    ∃ first rest, c.render.toList = first :: rest ∧ (first = '<' ∨ first = '\'') := by
  cases c with
  | iri text => exact ⟨_, _, toList_renderIri text, Or.inl rfl⟩
  | literal value => exact ⟨_, _, Literal.toList_render value, Or.inr rfl⟩

theorem Constant.render_append_inj {a b : Constant} {s t : List Char} (ha : a.WellFormed)
    (hb : b.WellFormed) (hs : Breaks s) (ht : Breaks t)
    (h : a.render.toList ++ s = b.render.toList ++ t) : a = b ∧ s = t := by
  have hapart : ∀ (text : String) (value : Literal) (s t : List Char),
      (renderIri text).toList ++ s ≠ value.render.toList ++ t := by
    intro text value s t h
    have hfirst := first_eq_of_append_eq (toList_renderIri text) (Literal.toList_render value) h
    exact absurd hfirst (by decide)
  cases a with
  | iri a =>
    cases b with
    | iri b =>
      obtain ⟨hab, hst⟩ := renderIri_append_inj ha hb h
      exact ⟨by rw [hab], hst⟩
    | literal b => exact absurd h (hapart _ _ _ _)
  | literal a =>
    cases b with
    | iri b => exact absurd h.symm (hapart _ _ _ _)
    | literal b =>
      obtain ⟨hab, hst⟩ := Literal.render_append_inj ha hb hs ht h
      exact ⟨by rw [hab], hst⟩

/-! ### Terms and patterns -/

theorem Term.render_append_inj {a b : Term} {s t : List Char} (ha : a.WellFormed)
    (hb : b.WellFormed) (hs : Breaks s) (ht : Breaks t)
    (h : a.render.toList ++ s = b.render.toList ++ t) : a = b ∧ s = t := by
  have hapart : ∀ (name : String) (value : Constant) (s t : List Char),
      (Variable.render name).toList ++ s ≠ value.render.toList ++ t := by
    intro name value s t h
    obtain ⟨first, rest, hfirst, hcases⟩ := value.exists_cons_render
    have hdollar := first_eq_of_append_eq (Variable.toList_render name) hfirst h
    rcases hcases with rfl | rfl <;> exact absurd hdollar (by decide)
  cases a with
  | var a =>
    cases b with
    | var b =>
      obtain ⟨hab, hst⟩ := Variable.render_append_inj ha hb hs ht h
      exact ⟨by rw [hab], hst⟩
    | const b => exact absurd h (hapart _ _ _ _)
  | const a =>
    cases b with
    | var b => exact absurd h.symm (hapart _ _ _ _)
    | const b =>
      obtain ⟨hab, hst⟩ := Constant.render_append_inj ha hb hs ht h
      exact ⟨by rw [hab], hst⟩

def Pattern.shownGraph : Option Term → List Char
  | none => [']']
  | some graph => [' ', 'i', 'n', ' '] ++ (graph.render.toList ++ [']'])

theorem Pattern.toList_render (p : Pattern) :
    p.render.toList = '[' :: (p.subject.render.toList ++ ' ' :: (p.predicate.render.toList ++
      ' ' :: (p.object.render.toList ++ shownGraph p.graph))) := by
  unfold render
  cases p.graph with
  | none => simp [shownGraph]
  | some graph => simp [shownGraph]

theorem Pattern.breaks_shownGraph (graph : Option Term) (s : List Char) :
    Breaks (shownGraph graph ++ s) := by
  cases graph with
  | none => exact breaks_cons.2 rfl
  | some graph => exact breaks_cons.2 rfl

theorem Pattern.shownGraph_append_inj {a b : Option Term} {s t : List Char}
    (ha : ∀ graph ∈ a, graph.WellFormed) (hb : ∀ graph ∈ b, graph.WellFormed)
    (h : shownGraph a ++ s = shownGraph b ++ t) : a = b ∧ s = t := by
  cases a with
  | none =>
    cases b with
    | none => exact ⟨rfl, (List.cons_eq_cons.1 h).2⟩
    | some b => exact absurd (List.cons_eq_cons.1 h).1 (by decide)
  | some a =>
    cases b with
    | none => exact absurd (List.cons_eq_cons.1 h).1 (by decide)
    | some b =>
      rw [shownGraph, shownGraph, List.append_assoc, List.append_assoc, List.append_assoc,
        List.append_assoc] at h
      have htail := List.append_cancel_left h
      obtain ⟨hab, hst⟩ := Term.render_append_inj (ha a rfl) (hb b rfl) (breaks_cons.2 rfl)
        (breaks_cons.2 rfl) htail
      exact ⟨by rw [hab], (List.cons_eq_cons.1 hst).2⟩

theorem Pattern.WellFormed.graph {p : Pattern} (h : p.WellFormed) :
    ∀ graph ∈ p.graph, graph.WellFormed := by
  intro graph hgraph
  exact h.terms graph (List.mem_append_right _ (Option.mem_toList.2 hgraph))

theorem Pattern.render_append_inj {a b : Pattern} {s t : List Char} (ha : a.WellFormed)
    (hb : b.WellFormed) (h : a.render.toList ++ s = b.render.toList ++ t) : a = b ∧ s = t := by
  have hspace : ∀ rest : List Char, Breaks (' ' :: rest) := fun _ => breaks_cons.2 rfl
  have hterm : ∀ {p : Pattern}, p.WellFormed →
      p.subject.WellFormed ∧ p.predicate.WellFormed ∧ p.object.WellFormed := by
    intro p hp
    exact ⟨hp.terms _ (by simp [terms]), hp.terms _ (by simp [terms]), hp.terms _ (by simp [terms])⟩
  rw [toList_render, toList_render] at h
  simp only [List.cons_append, List.append_assoc] at h
  obtain ⟨hsubject, h⟩ := Term.render_append_inj (hterm ha).1 (hterm hb).1 (hspace _) (hspace _)
    (List.cons_eq_cons.1 h).2
  obtain ⟨hpredicate, h⟩ := Term.render_append_inj (hterm ha).2.1 (hterm hb).2.1 (hspace _)
    (hspace _) (List.cons_eq_cons.1 h).2
  obtain ⟨hobject, h⟩ := Term.render_append_inj (hterm ha).2.2 (hterm hb).2.2
    (breaks_shownGraph _ s) (breaks_shownGraph _ t) (List.cons_eq_cons.1 h).2
  obtain ⟨hgraph, hst⟩ := shownGraph_append_inj ha.graph hb.graph h
  exact ⟨eq_of_terms hsubject hpredicate hobject hgraph, hst⟩

theorem Having.render_append_inj {a b : Having} {s t : List Char} (ha : a.pattern.WellFormed)
    (hb : b.pattern.WellFormed) (h : a.render.toList ++ s = b.render.toList ++ t) :
    a = b ∧ s = t := by
  obtain ⟨hpattern, hst⟩ := Pattern.render_append_inj ha hb h
  refine ⟨?_, hst⟩
  cases a
  cases b
  cases hpattern
  rfl

end TripleQuery
