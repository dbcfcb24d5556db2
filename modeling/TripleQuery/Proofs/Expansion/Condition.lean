import TripleQuery.Condition.Phrase
import TripleQuery.Graphs.Phrase

/-!
# Expansion of conditions and graphs

To expand what is written is to put in place of each token the address for which it stands; where a
token stands for none, there is no expansion. What is expanded is read without prefixes as it was
read with them (`resolve_expand`), and whatever can be read can be expanded (`exists_expand`).
-/

namespace TripleQuery

variable (prefixes : Prefixes)

/-! ### Terms -/

def Prefixes.expand (token : String) : Option String :=
  match prefixes.resolve token with
  | .ok iri => some iri.text
  | .error _ => none

def Literal.Phrase.expand (l : Literal.Phrase) : Option Literal.Phrase :=
  match l.datatype with
  | none => some l
  | some token => (prefixes.expand token).map fun text => ⟨l.strands, some text⟩

def Constant.Phrase.expand : Constant.Phrase → Option Constant.Phrase
  | resource token => (prefixes.expand token).map .resource
  | literal value => (value.expand prefixes).map .literal

def Term.Phrase.expand : Term.Phrase → Option Term.Phrase
  | var name => some (.var name)
  | const value => (value.expand prefixes).map .const

variable {prefixes}

theorem Prefixes.resolve_expand {token text : String} (h : prefixes.expand token = some text) :
    empty.resolve text = prefixes.resolve token := by
  unfold expand at h
  split at h
  · next iri hiri =>
    cases h
    rw [resolve_empty_text, hiri]
  · cases h

theorem Prefixes.expand_of_resolve {token : String} {iri : Iri}
    (h : prefixes.resolve token = .ok iri) : prefixes.expand token = some iri.text := by
  rw [expand, h]

theorem Literal.Phrase.resolve_expand {l expanded : Literal.Phrase}
    (h : l.expand prefixes = some expanded) :
    expanded.resolve .empty = l.resolve prefixes := by
  obtain ⟨strands, datatype⟩ := l
  cases datatype with
  | none =>
    cases h
    rfl
  | some token =>
    obtain ⟨text, htoken, rfl⟩ := Option.map_eq_some_iff.1 h
    show (Prefixes.empty.resolve text).map _ = (prefixes.resolve token).map _
    rw [Prefixes.resolve_expand htoken]
    rfl

theorem Constant.Phrase.resolve_expand {c expanded : Constant.Phrase}
    (h : c.expand prefixes = some expanded) :
    expanded.resolve .empty = c.resolve prefixes := by
  cases c with
  | resource token =>
    obtain ⟨text, htext, rfl⟩ := Option.map_eq_some_iff.1 h
    rw [resolve, resolve, Prefixes.resolve_expand htext]
  | literal l =>
    obtain ⟨l', hl, rfl⟩ := Option.map_eq_some_iff.1 h
    rw [resolve, resolve, Literal.Phrase.resolve_expand hl]

theorem Term.Phrase.resolve_expand {t expanded : Term.Phrase}
    (h : t.expand prefixes = some expanded) :
    expanded.resolve .empty = t.resolve prefixes := by
  cases t with
  | var name =>
    cases h
    rfl
  | const c =>
    obtain ⟨c', hc, rfl⟩ := Option.map_eq_some_iff.1 h
    rw [resolve, resolve, Constant.Phrase.resolve_expand hc]

theorem Literal.Phrase.exists_expand {l : Literal.Phrase} {literal : Literal}
    (h : l.resolve prefixes = .ok literal) : ∃ expanded, l.expand prefixes = some expanded := by
  obtain ⟨strands, datatype⟩ := l
  cases datatype with
  | none => exact ⟨_, rfl⟩
  | some token =>
    obtain ⟨iri, hiri, _⟩ := map_eq_ok.1 h
    exact ⟨_, Option.map_eq_some_iff.2 ⟨_, Prefixes.expand_of_resolve hiri, rfl⟩⟩

theorem Constant.Phrase.exists_expand {c : Constant.Phrase} {constant : Constant}
    (h : c.resolve prefixes = .ok constant) : ∃ expanded, c.expand prefixes = some expanded := by
  cases c with
  | resource token =>
    obtain ⟨iri, hiri, _⟩ := map_eq_ok.1 h
    exact ⟨_, Option.map_eq_some_iff.2 ⟨_, Prefixes.expand_of_resolve hiri, rfl⟩⟩
  | literal l =>
    obtain ⟨value, hvalue, _⟩ := map_eq_ok.1 h
    obtain ⟨expanded, hl⟩ := Literal.Phrase.exists_expand hvalue
    exact ⟨_, Option.map_eq_some_iff.2 ⟨_, hl, rfl⟩⟩

theorem Term.Phrase.exists_expand {t : Term.Phrase} {term : Term}
    (h : t.resolve prefixes = .ok term) : ∃ expanded, t.expand prefixes = some expanded := by
  cases t with
  | var name => exact ⟨_, rfl⟩
  | const c =>
    obtain ⟨value, hvalue, _⟩ := map_eq_ok.1 h
    obtain ⟨expanded, hc⟩ := Constant.Phrase.exists_expand hvalue
    exact ⟨_, Option.map_eq_some_iff.2 ⟨_, hc, rfl⟩⟩

/-! ### Parts that may be absent -/

theorem option_mapM_eq_some {α β : Type} {f : α → Option β} {x : Option α} {y : Option β} :
    x.mapM f = some y ↔ (x = none ∧ y = none) ∨ ∃ a b, x = some a ∧ y = some b ∧ f a = some b := by
  cases x with
  | none => simp [eq_comm]
  | some a =>
    have hmap : (some a).mapM f = (f a).map some := rfl
    rw [hmap, Option.map_eq_some_iff]
    constructor
    · rintro ⟨b, hb, rfl⟩
      exact .inr ⟨a, b, rfl, rfl, hb⟩
    · rintro (⟨h, -⟩ | ⟨a', b, h, rfl, hb⟩)
      · cases h
      · cases h
        exact ⟨b, hb, rfl⟩

section Optional

variable {α β : Type} {expand : α → Option α} {x : Option α}

theorem option_mapM_expand {read read' : α → Except Error β}
    (hread : ∀ {a expanded}, expand a = some expanded → read' expanded = read a)
    {expanded : Option α} (h : x.mapM expand = some expanded) :
    expanded.mapM read' = x.mapM read := by
  rcases option_mapM_eq_some.1 h with ⟨rfl, rfl⟩ | ⟨a, b, rfl, rfl, hab⟩
  · rfl
  · have hmap : (some b).mapM read' = read' b >>= fun v => .ok (some v) := rfl
    rw [hmap, hread hab]
    rfl

theorem exists_option_mapM_expand {read : α → Except Error β}
    (hread : ∀ {a v}, read a = .ok v → ∃ expanded, expand a = some expanded) {y : Option β}
    (h : x.mapM read = .ok y) : ∃ expanded, x.mapM expand = some expanded := by
  rcases option_mapM_eq_ok.1 h with ⟨rfl, rfl⟩ | ⟨a, v, rfl, rfl, hv⟩
  · exact ⟨none, rfl⟩
  · obtain ⟨expanded, ha⟩ := hread hv
    exact ⟨some expanded, option_mapM_eq_some.2 (.inr ⟨a, expanded, rfl, rfl, ha⟩)⟩

end Optional

/-! ### Patterns -/

namespace Pattern.Phrase

def expand (prefixes : Prefixes) (p : Pattern.Phrase) : Option Pattern.Phrase := do
  let subject ← p.subject.expand prefixes
  let predicate ← p.predicate.expand prefixes
  let object ← p.object.expand prefixes
  let graph ← p.graph.mapM (Term.Phrase.expand prefixes)
  return ⟨subject, predicate, object, graph⟩

theorem expand_eq_some {p expanded : Pattern.Phrase} :
    p.expand prefixes = some expanded ↔
      p.subject.expand prefixes = some expanded.subject ∧
        p.predicate.expand prefixes = some expanded.predicate ∧
        p.object.expand prefixes = some expanded.object ∧
        p.graph.mapM (Term.Phrase.expand prefixes) = some expanded.graph := by
  constructor
  · intro h
    obtain ⟨subject, hsubject, h⟩ := Option.bind_eq_some_iff.1 h
    obtain ⟨predicate, hpredicate, h⟩ := Option.bind_eq_some_iff.1 h
    obtain ⟨object, hobject, h⟩ := Option.bind_eq_some_iff.1 h
    obtain ⟨graph, hgraph, h⟩ := Option.bind_eq_some_iff.1 h
    cases h
    exact ⟨hsubject, hpredicate, hobject, hgraph⟩
  · rintro ⟨hsubject, hpredicate, hobject, hgraph⟩
    simp only [expand, hsubject, hpredicate, hobject, hgraph, bind, Option.bind, pure]

theorem resolve_expand {p expanded : Pattern.Phrase} (h : p.expand prefixes = some expanded) :
    expanded.resolve .empty = p.resolve prefixes := by
  obtain ⟨hsubject, hpredicate, hobject, hgraph⟩ := expand_eq_some.1 h
  rw [resolve, resolve, Term.Phrase.resolve_expand hsubject, Term.Phrase.resolve_expand hpredicate,
    Term.Phrase.resolve_expand hobject, option_mapM_expand Term.Phrase.resolve_expand hgraph]

/-- An expanded pattern asks for a graph exactly if it did so before. -/
theorem resolveStep_expand {p expanded : Pattern.Phrase} (h : p.expand prefixes = some expanded) :
    expanded.resolveStep .empty = p.resolveStep prefixes := by
  have hread := resolve_expand h
  obtain ⟨-, -, -, hgraph⟩ := expand_eq_some.1 h
  have hsome : expanded.graph.isSome = p.graph.isSome := by
    rcases option_mapM_eq_some.1 hgraph with ⟨hp, hnone⟩ | ⟨t, t', hp, hgraph, -⟩
    · rw [hp, hnone]
    · rw [hp, hgraph]
      rfl
  rw [resolveStep, resolveStep, hread, hsome]

theorem exists_expand {p : Pattern.Phrase} {pattern : Pattern}
    (h : p.resolve prefixes = .ok pattern) : ∃ expanded, p.expand prefixes = some expanded := by
  obtain ⟨hsubject, hpredicate, hobject, hgraph, -⟩ := resolve_eq_ok.1 h
  obtain ⟨subject, hsubject⟩ := Term.Phrase.exists_expand hsubject
  obtain ⟨predicate, hpredicate⟩ := Term.Phrase.exists_expand hpredicate
  obtain ⟨object, hobject⟩ := Term.Phrase.exists_expand hobject
  obtain ⟨graph, hgraph⟩ := exists_option_mapM_expand Term.Phrase.exists_expand hgraph
  exact ⟨⟨subject, predicate, object, graph⟩,
    expand_eq_some.2 ⟨hsubject, hpredicate, hobject, hgraph⟩⟩

theorem exists_expand_of_resolveStep {p : Pattern.Phrase} {pattern : Pattern}
    (h : p.resolveStep prefixes = .ok pattern) :
    ∃ expanded, p.expand prefixes = some expanded := by
  unfold resolveStep at h
  split at h
  · cases h
  · exact exists_expand h

end Pattern.Phrase

/-! ### Conditions and graphs -/

namespace Condition.Phrase

def expand (prefixes : Prefixes) : {level : Level} → Phrase level → Option (Phrase level)
  | _, join operator left right => do
    let left ← left.expand prefixes
    let right ← right.expand prefixes
    return .join operator left right
  | _, tight operator inner => (inner.expand prefixes).map (.tight operator)
  | _, constraint negated p => (p.expand prefixes).map (.constraint negated)
  | _, group negated inner => (inner.expand prefixes).map (.group negated)
  | _, closure p => (p.expand prefixes).map .closure
  | _, closureFrom anchor p => do
    let anchor ← anchor.expand prefixes
    let p ← p.expand prefixes
    return .closureFrom anchor p
  | _, walk anchor p => do
    let anchor ← anchor.expand prefixes
    let p ← p.expand prefixes
    return .walk anchor p

theorem resolve_expand {level : Level} {phrase expanded : Phrase level}
    (h : phrase.expand prefixes = some expanded) :
    expanded.resolve .empty = phrase.resolve prefixes := by
  induction phrase with
  | join operator left right ihl ihr =>
    obtain ⟨l, hl, h⟩ := Option.bind_eq_some_iff.1 h
    obtain ⟨r, hr, h⟩ := Option.bind_eq_some_iff.1 h
    cases h
    rw [resolve, resolve, ihl hl, ihr hr]
  | tight operator inner ih =>
    obtain ⟨i, hi, rfl⟩ := Option.map_eq_some_iff.1 h
    rw [resolve, resolve, ih hi]
  | constraint negated p =>
    obtain ⟨q, hq, rfl⟩ := Option.map_eq_some_iff.1 h
    rw [resolve, resolve, Pattern.Phrase.resolve_expand hq]
  | group negated inner ih =>
    obtain ⟨i, hi, rfl⟩ := Option.map_eq_some_iff.1 h
    rw [resolve, resolve, ih hi]
  | closure p =>
    obtain ⟨q, hq, rfl⟩ := Option.map_eq_some_iff.1 h
    rw [resolve, resolve, Pattern.Phrase.resolveStep_expand hq]
  | closureFrom anchor p | walk anchor p =>
    obtain ⟨a, ha, h⟩ := Option.bind_eq_some_iff.1 h
    obtain ⟨q, hq, h⟩ := Option.bind_eq_some_iff.1 h
    cases h
    rw [resolve, resolve, Pattern.Phrase.resolveStep_expand ha,
      Pattern.Phrase.resolveStep_expand hq]

theorem exists_expand {level : Level} {phrase : Phrase level} {c : Condition}
    (h : phrase.resolve prefixes = .ok c) : ∃ expanded, phrase.expand prefixes = some expanded := by
  induction phrase generalizing c with
  | join operator left right ihl ihr =>
    obtain ⟨l, hl, h⟩ := bind_eq_ok.1 h
    obtain ⟨r, hr, -⟩ := bind_eq_ok.1 h
    obtain ⟨left', hl⟩ := ihl hl
    obtain ⟨right', hr⟩ := ihr hr
    exact ⟨_, Option.bind_eq_some_iff.2 ⟨_, hl, Option.bind_eq_some_iff.2 ⟨_, hr, rfl⟩⟩⟩
  | tight operator inner ih =>
    obtain ⟨inner', hi⟩ := ih h
    exact ⟨_, Option.map_eq_some_iff.2 ⟨_, hi, rfl⟩⟩
  | constraint negated p =>
    obtain ⟨pattern, hp, -⟩ := bind_eq_ok.1 h
    obtain ⟨q, hq⟩ := Pattern.Phrase.exists_expand hp
    exact ⟨_, Option.map_eq_some_iff.2 ⟨_, hq, rfl⟩⟩
  | group negated inner ih =>
    obtain ⟨c, hc, -⟩ := bind_eq_ok.1 h
    obtain ⟨inner', hi⟩ := ih hc
    exact ⟨_, Option.map_eq_some_iff.2 ⟨_, hi, rfl⟩⟩
  | closure p =>
    obtain ⟨pattern, hp, -⟩ := bind_eq_ok.1 h
    obtain ⟨q, hq⟩ := Pattern.Phrase.exists_expand_of_resolveStep hp
    exact ⟨_, Option.map_eq_some_iff.2 ⟨_, hq, rfl⟩⟩
  | closureFrom anchor p | walk anchor p =>
    obtain ⟨first, ha, h⟩ := bind_eq_ok.1 h
    obtain ⟨pattern, hp, -⟩ := bind_eq_ok.1 h
    obtain ⟨a, ha⟩ := Pattern.Phrase.exists_expand_of_resolveStep ha
    obtain ⟨q, hq⟩ := Pattern.Phrase.exists_expand_of_resolveStep hp
    exact ⟨_, Option.bind_eq_some_iff.2 ⟨_, ha, Option.bind_eq_some_iff.2 ⟨_, hq, rfl⟩⟩⟩

end Condition.Phrase

namespace Graphs.Phrase

def expand (prefixes : Prefixes) : {level : Level} → Phrase level → Option (Phrase level)
  | _, join operator left right => do
    let left ← left.expand prefixes
    let right ← right.expand prefixes
    return .join operator left right
  | _, tight operator inner => (inner.expand prefixes).map (.tight operator)
  | _, graph token => (prefixes.expand token).map .graph
  | _, group inner => (inner.expand prefixes).map .group

theorem resolve_expand {level : Level} {phrase expanded : Phrase level}
    (h : phrase.expand prefixes = some expanded) :
    expanded.resolve .empty = phrase.resolve prefixes := by
  induction phrase with
  | join operator left right ihl ihr =>
    obtain ⟨l, hl, h⟩ := Option.bind_eq_some_iff.1 h
    obtain ⟨r, hr, h⟩ := Option.bind_eq_some_iff.1 h
    cases h
    rw [resolve, resolve, ihl hl, ihr hr]
  | tight operator inner ih =>
    obtain ⟨i, hi, rfl⟩ := Option.map_eq_some_iff.1 h
    rw [resolve, resolve, ih hi]
  | graph token =>
    obtain ⟨text, htext, rfl⟩ := Option.map_eq_some_iff.1 h
    rw [resolve, resolve, Prefixes.resolve_expand htext]
  | group inner ih =>
    obtain ⟨i, hi, rfl⟩ := Option.map_eq_some_iff.1 h
    rw [resolve, resolve, ih hi]

theorem exists_expand {level : Level} {phrase : Phrase level} {g : Graphs}
    (h : phrase.resolve prefixes = .ok g) : ∃ expanded, phrase.expand prefixes = some expanded := by
  induction phrase generalizing g with
  | join operator left right ihl ihr =>
    obtain ⟨l, hl, h⟩ := bind_eq_ok.1 h
    obtain ⟨r, hr, -⟩ := bind_eq_ok.1 h
    obtain ⟨left', hl⟩ := ihl hl
    obtain ⟨right', hr⟩ := ihr hr
    exact ⟨_, Option.bind_eq_some_iff.2 ⟨_, hl, Option.bind_eq_some_iff.2 ⟨_, hr, rfl⟩⟩⟩
  | tight operator inner ih =>
    obtain ⟨inner', hi⟩ := ih h
    exact ⟨_, Option.map_eq_some_iff.2 ⟨_, hi, rfl⟩⟩
  | graph token =>
    obtain ⟨iri, hiri, -⟩ := bind_eq_ok.1 h
    exact ⟨_, Option.map_eq_some_iff.2 ⟨_, Prefixes.expand_of_resolve hiri, rfl⟩⟩
  | group inner ih =>
    obtain ⟨inner', hi⟩ := ih h
    exact ⟨_, Option.map_eq_some_iff.2 ⟨_, hi, rfl⟩⟩

end Graphs.Phrase
end TripleQuery
