import TripleQuery.Proofs.Iri.Characters
import TripleQuery.Proofs.Query.Columns

/-!
# Well-formed queries

What is true of a query because it was read: its variables have names that a query may use, its
graphs, resources and datatypes are absolute IRIs, nothing is said of a literal, and a pattern that
is followed step by step asks for no graph. All of it holds at every level of the query
(`Query.wellFormed_of_resolve`).
-/

namespace TripleQuery

def IsReference (text : String) : Prop := ∃ iri : Iri, iri.text = text

theorem Iri.isReference (iri : Iri) : IsReference iri.text := ⟨iri, rfl⟩

theorem isIriText_of_isReference {text : String} (h : IsReference text) :
    Iri.IsIriText text.toList := by
  obtain ⟨iri, rfl⟩ := h
  exact Iri.isIriText_of_read iri.reads

theorem isReference_iff_parse {text : String} :
    IsReference text ↔ ∃ iri, Iri.parse text = .ok iri := by
  constructor
  · rintro ⟨iri, rfl⟩
    exact ⟨iri, iri.parse_text⟩
  · rintro ⟨iri, hparse⟩
    exact ⟨iri, Iri.text_of_parse hparse⟩

theorem isReference_iff_isSome {text : String} :
    IsReference text ↔ (Iri.parse text).toOption.isSome = true := by
  rw [isReference_iff_parse]
  cases Iri.parse text with
  | error fault => simp [Except.toOption]
  | ok iri => simp [Except.toOption]

instance : DecidablePred IsReference := fun _ => decidable_of_iff _ isReference_iff_isSome.symm

def IsReference.iri {text : String} (h : IsReference text) : Iri :=
  (Iri.parse text).toOption.get (isReference_iff_isSome.1 h)

/-! ### What is well formed -/

def Constant.WellFormed : Constant → Prop
  | .iri text => IsReference text
  | .literal value => ∀ datatype ∈ value.datatype, IsReference datatype

def Term.WellFormed : Term → Prop
  | .var name => Variable.isName name = true
  | .const value => value.WellFormed

structure Pattern.WellFormed (p : Pattern) : Prop where
  terms : ∀ term ∈ p.terms, term.WellFormed
  subject : p.subject.isLiteral = false
  predicate : p.predicate.isLiteral = false

def Pattern.IsStep (p : Pattern) : Prop := p.WellFormed ∧ p.graph = none

def Condition.WellFormed : Condition → Prop
  | constraint c => c.innermost.WellFormed
  | join _ left right => left.WellFormed ∧ right.WellFormed
  | closure p => p.IsStep
  | closureFrom anchor p | walk anchor p => anchor.IsStep ∧ p.IsStep

theorem Condition.WellFormed.forall_patterns {c : Condition} (h : c.WellFormed) :
    ∀ p ∈ c.patterns, p.WellFormed := by
  induction c with
  | constraint c =>
    intro p hmem
    obtain rfl := List.mem_singleton.1 hmem
    exact h
  | join operator left right ihl ihr =>
    intro p hmem
    rcases List.mem_append.1 hmem with hmem | hmem
    · exact ihl h.1 p hmem
    · exact ihr h.2 p hmem
  | closure p =>
    intro q hmem
    obtain rfl := List.mem_singleton.1 hmem
    exact h.1
  | closureFrom anchor p | walk anchor p =>
    intro q hmem
    rcases List.mem_cons.1 hmem with rfl | hmem
    · exact h.1.1
    · obtain rfl := List.mem_singleton.1 hmem
      exact h.2.1

def Graphs.WellFormed (g : Graphs) : Prop := ∀ iri ∈ g.leaves, IsReference iri

/-- What a column shows itself is well formed; nothing is said of a query that it holds. -/
def Column.WellFormed : Column → Prop
  | .var name => Variable.isName name = true
  | .constant _ value => value.WellFormed
  | .count .. | .subquery .. => True

/-- What a query holds itself is well formed; nothing is said of the queries of its columns. -/
structure Query.LevelWellFormed (q : Query) : Prop where
  columns : ∀ column ∈ q.columns, column.WellFormed
  numbered : Column.Numbered 0 q.columns
  graphs : q.graphs.WellFormed
  condition : q.condition.WellFormed
  having : ∀ restriction ∈ q.having, restriction.pattern.WellFormed
  order : ∀ key ∈ q.order, Variable.isName key.name = true

def Query.WellFormed (q : Query) : Prop := ∀ r : Query, r.Within q → r.LevelWellFormed

/-! ### What is read is well formed -/

variable {prefixes : Prefixes}

theorem Literal.Phrase.wellFormed_of_resolve {l : Literal.Phrase} {value : Literal}
    (h : l.resolve prefixes = .ok value) : (Constant.literal value).WellFormed := by
  unfold Literal.Phrase.resolve at h
  split at h
  · cases h
    intro datatype hdatatype
    cases hdatatype
  · obtain ⟨iri, _, rfl⟩ := map_eq_ok.1 h
    intro datatype hdatatype
    cases hdatatype
    exact iri.isReference

/-- Without prefixes, a literal is what its text and its datatype say, if the latter is
an address. -/
theorem Literal.Phrase.resolve_empty_iff {l : Literal.Phrase} {v : Literal}
    (htext : l.text = v.lexical) (hdatatype : l.datatype = v.datatype) :
    l.resolve .empty = .ok v ↔ (Constant.literal v).WellFormed := by
  refine ⟨wellFormed_of_resolve, fun h => ?_⟩
  obtain ⟨lexical, datatype⟩ := v
  obtain rfl : l.text = lexical := htext
  cases datatype with
  | none => rw [resolve, hdatatype]
  | some text =>
    obtain ⟨iri, rfl⟩ := h text rfl
    rw [resolve, hdatatype]
    exact map_eq_ok.2 ⟨iri, Prefixes.resolve_empty_text iri, rfl⟩

theorem Constant.Phrase.wellFormed_of_resolve {c : Constant.Phrase} {value : Constant}
    (h : c.resolve prefixes = .ok value) : value.WellFormed := by
  cases c with
  | resource token =>
    obtain ⟨iri, _, rfl⟩ := map_eq_ok.1 h
    exact iri.isReference
  | literal l =>
    obtain ⟨literal, hliteral, rfl⟩ := map_eq_ok.1 h
    exact Literal.Phrase.wellFormed_of_resolve hliteral

theorem Term.Phrase.wellFormed_of_resolve {t : Term.Phrase} {term : Term}
    (h : t.resolve prefixes = .ok term) : term.WellFormed := by
  cases t with
  | var name =>
    obtain ⟨checked, hcheck, rfl⟩ := map_eq_ok.1 h
    obtain ⟨hname, rfl⟩ := Variable.check_eq_ok.1 hcheck
    exact hname
  | const c =>
    obtain ⟨value, hvalue, rfl⟩ := map_eq_ok.1 h
    exact Constant.Phrase.wellFormed_of_resolve hvalue

theorem Pattern.Phrase.wellFormed_of_resolve {p : Pattern.Phrase} {pattern : Pattern}
    (h : p.resolve prefixes = .ok pattern) : pattern.WellFormed := by
  obtain ⟨hsubject, hpredicate, hobject, hgraph, hs, hp⟩ := resolve_eq_ok.1 h
  have hgraphs : ∀ g ∈ pattern.graph, g.WellFormed := by
    intro g hmem
    rcases option_mapM_eq_ok.1 hgraph with ⟨-, hnone⟩ | ⟨t, g', -, hsome, hg⟩
    · rw [hnone] at hmem
      cases hmem
    · rw [hsome] at hmem
      cases hmem
      exact Term.Phrase.wellFormed_of_resolve hg
  refine ⟨fun term hterm => ?_, hs, hp⟩
  simp only [Pattern.terms, List.mem_append, List.mem_cons, List.not_mem_nil, or_false,
    Option.mem_toList] at hterm
  rcases hterm with (rfl | rfl | rfl) | hterm
  · exact Term.Phrase.wellFormed_of_resolve hsubject
  · exact Term.Phrase.wellFormed_of_resolve hpredicate
  · exact Term.Phrase.wellFormed_of_resolve hobject
  · exact hgraphs term hterm

theorem Pattern.Phrase.graph_of_resolve {p : Pattern.Phrase} {pattern : Pattern}
    (h : p.resolve prefixes = .ok pattern) : pattern.graph.isSome = p.graph.isSome := by
  obtain ⟨-, -, -, hgraph, -, -⟩ := resolve_eq_ok.1 h
  rcases option_mapM_eq_ok.1 hgraph with ⟨hnone, hnone'⟩ | ⟨t, g, hsome, hsome', -⟩
  · rw [hnone, hnone']
    rfl
  · rw [hsome, hsome']
    rfl

theorem Pattern.Phrase.isStep_of_resolveStep {p : Pattern.Phrase} {pattern : Pattern}
    (h : p.resolveStep prefixes = .ok pattern) : pattern.IsStep := by
  unfold Pattern.Phrase.resolveStep at h
  split at h
  · cases h
  · next hgraph =>
    refine ⟨Pattern.Phrase.wellFormed_of_resolve h, ?_⟩
    rw [← Option.not_isSome_iff_eq_none, Pattern.Phrase.graph_of_resolve h]
    exact hgraph

theorem Condition.wellFormed_of_negateIf {negated : Bool} {c d : Condition} (hc : c.WellFormed)
    (h : negateIf negated c = .ok d) : d.WellFormed := by
  unfold negateIf at h
  split at h
  · cases c with
    | constraint c =>
      cases h
      exact hc
    | join | closure | closureFrom | walk => cases h
  · cases h
    exact hc

theorem Condition.Phrase.wellFormed_of_resolve {level : Condition.Level}
    {phrase : Condition.Phrase level} {c : Condition} (h : phrase.resolve prefixes = .ok c) :
    c.WellFormed := by
  induction phrase generalizing c with
  | join operator left right ihl ihr =>
    obtain ⟨l, hl, h⟩ := bind_eq_ok.1 h
    obtain ⟨r, hr, h⟩ := bind_eq_ok.1 h
    cases h
    exact ⟨ihl hl, ihr hr⟩
  | tight operator inner ih => exact ih h
  | constraint negated pattern =>
    obtain ⟨p, hp, h⟩ := bind_eq_ok.1 h
    have hp : (Condition.constraint (.pattern p)).WellFormed :=
      Pattern.Phrase.wellFormed_of_resolve hp
    exact wellFormed_of_negateIf hp h
  | group negated inner ih =>
    obtain ⟨c, hc, h⟩ := bind_eq_ok.1 h
    exact wellFormed_of_negateIf (ih hc) h
  | closure pattern =>
    obtain ⟨p, hp, h⟩ := bind_eq_ok.1 h
    cases h
    exact Pattern.Phrase.isStep_of_resolveStep hp
  | closureFrom anchor pattern | walk anchor pattern =>
    obtain ⟨a, ha, h⟩ := bind_eq_ok.1 h
    obtain ⟨p, hp, h⟩ := bind_eq_ok.1 h
    cases h
    exact ⟨Pattern.Phrase.isStep_of_resolveStep ha, Pattern.Phrase.isStep_of_resolveStep hp⟩

theorem Condition.Phrase.wellFormed_of_resolveHaving {level : Condition.Level}
    {phrase : Condition.Phrase level} {restriction : Having}
    (h : phrase.resolveHaving prefixes = .ok restriction) : restriction.pattern.WellFormed := by
  obtain ⟨c, hc, h⟩ := bind_eq_ok.1 h
  have hwell := wellFormed_of_resolve hc
  have hhaving := mapError_eq_ok.1 h
  unfold Condition.having at hhaving
  split at hhaving
  · rw [Having.pattern_of_ofPattern hhaving]
    exact hwell
  · cases hhaving
  · cases hhaving

theorem Graphs.Phrase.wellFormed_of_resolve {level : Graphs.Level} {phrase : Graphs.Phrase level}
    {g : Graphs} (h : phrase.resolve prefixes = .ok g) : g.WellFormed := by
  induction phrase generalizing g with
  | join operator left right ihl ihr =>
    obtain ⟨l, hl, h⟩ := bind_eq_ok.1 h
    obtain ⟨r, hr, h⟩ := bind_eq_ok.1 h
    cases h
    intro iri hmem
    rcases List.mem_append.1 hmem with hmem | hmem
    · exact ihl hl iri hmem
    · exact ihr hr iri hmem
  | tight operator inner ih => exact ih h
  | graph token =>
    obtain ⟨iri, _, h⟩ := bind_eq_ok.1 h
    cases h
    intro text hmem
    cases List.mem_singleton.1 hmem
    exact iri.isReference
  | group inner ih => exact ih h

theorem Column.Phrase.wellFormed_of_listed {seen : List String} {next : Nat}
    {written : List Column.Phrase} {columns : List Column}
    (h : Listed prefixes seen next written columns) : ∀ column ∈ columns, column.WellFormed := by
  induction h with
  | nil =>
    intro column hmem
    cases hmem
  | again _ _ _ ih => exact ih
  | var hname _ _ ih =>
    intro column hmem
    rcases List.mem_cons.1 hmem with rfl | hmem
    · exact hname
    · exact ih column hmem
  | value hgives _ _ ih =>
    intro column hmem
    rcases List.mem_cons.1 hmem with rfl | hmem
    · cases hgives with
      | constant hvalue => exact Constant.Phrase.wellFormed_of_resolve hvalue
      | count | subquery => trivial
    · exact ih column hmem

theorem Clauses.isName_of_sortKeys {c : Clauses} {keys : List SortKey}
    (h : c.sortKeys = .ok keys) : ∀ key ∈ keys, Variable.isName key.name = true := by
  unfold Clauses.sortKeys at h
  split at h
  · cases h
    intro key hmem
    cases hmem
  · cases h
  · intro key hmem
    obtain ⟨written, _, hkey⟩ := exists_of_mem_mapM h key hmem
    obtain ⟨name, hcheck, hkey⟩ := bind_eq_ok.1 hkey
    obtain ⟨hname, rfl⟩ := Variable.check_eq_ok.1 hcheck
    cases hkey
    exact hname

theorem Query.levelWellFormed_of_resolve {w : Query.Phrase} {q : Query}
    (h : w.resolve prefixes = .ok q) : q.LevelWellFormed := by
  have hcolumns : (∀ column ∈ q.columns, column.WellFormed) ∧ Column.Numbered 0 q.columns := by
    rcases listed_of_resolve h with ⟨_, hnil⟩ | ⟨written, _, hlisted⟩
    · rw [hnil]
      exact ⟨by simp, trivial⟩
    · exact ⟨Column.Phrase.wellFormed_of_listed hlisted, Column.Phrase.numbered_of_listed hlisted⟩
  rw [Query.Phrase.resolve_eq_assemble] at h
  obtain ⟨graphs, condition, _, _, _, hgraphs, hcondition, _, horder, hhaving, _, _⟩ :=
    Clauses.assemble_eq_ok.1 h
  refine ⟨hcolumns.1, hcolumns.2, Graphs.Phrase.wellFormed_of_resolve hgraphs,
    Condition.Phrase.wellFormed_of_resolve hcondition, ?_, Clauses.isName_of_sortKeys horder⟩
  intro restriction hmem
  rcases option_mapM_eq_ok.1 hhaving with ⟨-, hnone⟩ | ⟨written, read, -, hsome, hread⟩
  · rw [hnone] at hmem
    cases hmem
  · rw [hsome] at hmem
    cases hmem
    exact Condition.Phrase.wellFormed_of_resolveHaving hread

theorem Query.wellFormed_of_resolve {written : Select} {q : Query}
    (h : written.resolve prefixes = .ok q) : q.WellFormed := by
  intro r hr
  obtain ⟨w, hw⟩ := exists_resolve_of_within hr ⟨written.toQuery, h⟩
  exact levelWellFormed_of_resolve hw

end TripleQuery
