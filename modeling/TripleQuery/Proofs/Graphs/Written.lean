import TripleQuery.Proofs.Errors.Condition
import TripleQuery.Proofs.WellFormed

/-!
# Graph expressions written out

Without the levels of the grammar and without parentheses, a written graph expression is a tree of
operators over tokens, its outline. It is read if every token is, as the tree with what the tokens
stand for in their places; else the first token that stands for nothing is what is wrong. On the
other hand every expression over addresses can be written, each operand in parentheses, and is read
again as what it was (`Graphs.Phrase.resolve_iff_alike`).
-/

namespace TripleQuery

def Prefixes.StandsFor (prefixes : Prefixes) (token text : String) : Prop :=
  ∃ iri, prefixes.resolve token = .ok iri ∧ iri.text = text

theorem Prefixes.standsFor_empty_iff {token text : String} :
    empty.StandsFor token text ↔ token = text ∧ IsReference text := by
  constructor
  · rintro ⟨iri, hread, rfl⟩
    rw [resolve_empty] at hread
    exact ⟨(Iri.text_of_parse (mapError_eq_ok.1 hread)).symm, iri.isReference⟩
  · rintro ⟨rfl, iri, rfl⟩
    exact ⟨iri, resolve_empty_text iri, rfl⟩

namespace Graphs

/-! ### Outlines -/

/-- Two expressions of one shape, with related graphs at the same places. -/
inductive Alike (R : String → String → Prop) : Graphs → Graphs → Prop
  | graph {a b : String} : R a b → Alike R (.graph a) (.graph b)
  | join {operator : Operator} {a a' b b' : Graphs} : Alike R a b → Alike R a' b' →
      Alike R (.join operator a a') (.join operator b b')

/-- The tree of what is written, with the tokens in the places of graphs. -/
def Phrase.outline : {level : Level} → Phrase level → Graphs
  | _, join operator left right => .join operator left.outline right.outline
  | _, tight _ inner => inner.outline
  | _, graph token => .graph token
  | _, group inner => inner.outline

variable {prefixes : Prefixes} {level : Level}

theorem Phrase.leaves_outline (phrase : Phrase level) : phrase.outline.leaves = phrase.tokens := by
  induction phrase with
  | join operator left right ihl ihr => simp only [outline, leaves, tokens, ihl, ihr]
  | tight operator inner ih => exact ih
  | graph token => rfl
  | group inner ih => exact ih

theorem Phrase.alike_of_resolve {phrase : Phrase level} {g : Graphs}
    (h : phrase.resolve prefixes = .ok g) : phrase.outline.Alike prefixes.StandsFor g := by
  induction phrase generalizing g with
  | join operator left right ihl ihr =>
    obtain ⟨l, hl, h⟩ := bind_eq_ok.1 h
    obtain ⟨r, hr, h⟩ := bind_eq_ok.1 h
    cases h
    exact .join (ihl hl) (ihr hr)
  | tight operator inner ih => exact ih h
  | graph token =>
    obtain ⟨iri, hiri, h⟩ := bind_eq_ok.1 h
    cases h
    exact .graph ⟨iri, hiri, rfl⟩
  | group inner ih => exact ih h

theorem Phrase.resolve_of_alike {phrase : Phrase level} {g : Graphs}
    (h : phrase.outline.Alike prefixes.StandsFor g) : phrase.resolve prefixes = .ok g := by
  induction phrase generalizing g with
  | join operator left right ihl ihr =>
    cases h with
    | join hl hr => exact bind_eq_ok.2 ⟨_, ihl hl, bind_eq_ok.2 ⟨_, ihr hr, rfl⟩⟩
  | tight operator inner ih => exact ih h
  | graph token =>
    cases h with
    | graph hstands =>
      obtain ⟨iri, hiri, rfl⟩ := hstands
      exact bind_eq_ok.2 ⟨iri, hiri, rfl⟩
  | group inner ih => exact ih h

theorem Phrase.exists_resolve_iff (phrase : Phrase level) :
    (∃ g, phrase.resolve prefixes = .ok g) ↔
      ∀ token ∈ phrase.tokens, ∃ iri, prefixes.resolve token = .ok iri := by
  rw [(phrase.reports_errors prefixes).eq_ok_iff, errors, List.flatMap_eq_nil_iff]
  exact forall₂_congr fun token _ => (prefixes.reports_errors token).eq_ok_iff.symm

/-! ### Written expressions -/

def Phrase.joined : Operator → Phrase .factor → Phrase .factor → Written
  | .or, left, right => .join .or (.ofFactor left) (.tight .and (.tight .par right))
  | .and, left, right =>
    .tight .or (.join .and (.tight .and (.tight .par left)) (.tight .par right))
  | .par, left, right => .tight .or (.tight .and (.join .par (.tight .par left) right))

/-- The expression in writing: each operand in parentheses, each address as its own token. -/
def written : Graphs → Written
  | graph iri => .ofFactor (.graph iri)
  | join operator left right => .joined operator (.group left.written) (.group right.written)

theorem outline_written (g : Graphs) : g.written.outline = g := by
  induction g with
  | graph iri => rfl
  | join operator left right ihl ihr =>
    cases operator <;>
      simp only [written, Phrase.joined, Phrase.ofFactor, Phrase.outline, ihl, ihr]

theorem alike_self_iff (g : Graphs) : g.Alike Prefixes.empty.StandsFor g ↔ g.WellFormed := by
  induction g with
  | graph iri =>
    constructor
    · intro h
      cases h with
      | graph hstands =>
        exact List.forall_mem_singleton.2 (Prefixes.standsFor_empty_iff.1 hstands).2
    · intro h
      exact .graph (Prefixes.standsFor_empty_iff.2 ⟨rfl, List.forall_mem_singleton.1 h⟩)
  | join operator left right ihl ihr =>
    constructor
    · intro h
      cases h with
      | join hl hr => exact List.forall_mem_append.2 ⟨ihl.1 hl, ihr.1 hr⟩
    · intro h
      obtain ⟨hl, hr⟩ := List.forall_mem_append.1 h
      exact .join (ihl.2 hl) (ihr.2 hr)

/-- Whether what is written is read is a matter of its tokens alone, the first of which that stands
for nothing is reported. What is read has the outline of what is written. An expression can be
read back from its written form exactly if its graphs are addresses. -/
theorem Phrase.resolve_iff_alike (prefixes : Prefixes) (phrase : Phrase level) :
    ((∃ g, phrase.resolve prefixes = .ok g) ↔
      ∀ token ∈ phrase.outline.leaves, ∃ iri, prefixes.resolve token = .ok iri) ∧
    (∀ e, phrase.resolve prefixes = .error e ↔
      ∃ before token after, phrase.outline.leaves = before ++ token :: after ∧
        (∀ t ∈ before, ∃ iri, prefixes.resolve t = .ok iri) ∧ prefixes.resolve token = .error e) ∧
    (∀ g, phrase.resolve prefixes = .ok g ↔ phrase.outline.Alike prefixes.StandsFor g) ∧
    ∀ g : Graphs, g.written.resolve .empty = .ok g ↔ ∀ iri ∈ g.leaves, IsReference iri := by
  rw [leaves_outline]
  refine ⟨phrase.exists_resolve_iff, fun e => ?_, fun g => ?_, fun g => ?_⟩
  · exact (phrase.reports_errors prefixes).eq_error_iff_first prefixes.reports_errors e
  · exact ⟨alike_of_resolve, resolve_of_alike⟩
  · calc g.written.resolve .empty = .ok g
        ↔ g.written.outline.Alike Prefixes.empty.StandsFor g := ⟨alike_of_resolve, resolve_of_alike⟩
      _ ↔ g.Alike Prefixes.empty.StandsFor g := by rw [outline_written]
      _ ↔ g.WellFormed := g.alike_self_iff

/-- `(<urn:b> or <urn:a>) and <urn:c> par <urn:a>`. -/
def grouped : Written :=
  .tight .or (.join .and
    (.tight .and (.tight .par (.group (.joined .or (.graph "urn:b") (.graph "urn:a")))))
    (.join .par (.tight .par (.graph "urn:c")) (.graph "urn:a")))

example : grouped.resolve .empty = .ok (.join .and
    (.join .or (.graph "urn:b") (.graph "urn:a"))
    (.join .par (.graph "urn:c") (.graph "urn:a"))) := by decide +kernel

end Graphs
end TripleQuery
