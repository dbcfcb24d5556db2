import TripleQuery.Proofs.Condition.Outline

/-!
# Which conditions are accepted

A written condition has a meaning exactly if all its terms have one, no pattern says something of a
literal or with one, no closure and no walk asks for a graph, and only single constraints are
negated. The meaning then has the outline that was written, with what each pattern stands for in its
place (`Condition.Phrase.resolve_iff_outline`).
-/

namespace TripleQuery

variable {prefixes : Prefixes}

/-! ### Patterns -/

def Term.Phrase.isLiteral : Term.Phrase → Bool
  | const (.literal _) => true
  | _ => false

theorem Term.Phrase.isLiteral_of_resolve {t : Term.Phrase} {term : Term}
    (h : t.resolve prefixes = .ok term) : term.isLiteral = t.isLiteral := by
  rcases t with name | token | value
  · obtain ⟨checked, _, rfl⟩ := map_eq_ok.1 h
    rfl
  · obtain ⟨value, hvalue, rfl⟩ := map_eq_ok.1 h
    obtain ⟨iri, _, rfl⟩ := map_eq_ok.1 hvalue
    rfl
  · obtain ⟨value, hvalue, rfl⟩ := map_eq_ok.1 h
    obtain ⟨literal, _, rfl⟩ := map_eq_ok.1 hvalue
    rfl

namespace Pattern.Phrase

def terms (p : Pattern.Phrase) : List Term.Phrase :=
  [p.subject, p.predicate, p.object] ++ p.graph.toList

/-- Each term that is written stands for the term at its place in the pattern. -/
structure Reads (prefixes : Prefixes) (p : Pattern.Phrase) (pattern : Pattern) : Prop where
  subject : p.subject.resolve prefixes = .ok pattern.subject
  predicate : p.predicate.resolve prefixes = .ok pattern.predicate
  object : p.object.resolve prefixes = .ok pattern.object
  graph : p.graph.mapM (Term.Phrase.resolve prefixes) = .ok pattern.graph

/-- Every term has a meaning, and nothing is said of a literal or with one. -/
structure Accepted (prefixes : Prefixes) (p : Pattern.Phrase) : Prop where
  terms : ∀ t ∈ p.terms, ∃ term, t.resolve prefixes = .ok term
  subject : p.subject.isLiteral = false
  predicate : p.predicate.isLiteral = false

theorem Reads.unique {p : Pattern.Phrase} {a b : Pattern} (ha : p.Reads prefixes a)
    (hb : p.Reads prefixes b) : a = b := by
  have hsubject := Except.ok.inj (ha.subject.symm.trans hb.subject)
  have hpredicate := Except.ok.inj (ha.predicate.symm.trans hb.predicate)
  have hobject := Except.ok.inj (ha.object.symm.trans hb.object)
  have hgraph := Except.ok.inj (ha.graph.symm.trans hb.graph)
  exact Pattern.eq_of_terms hsubject hpredicate hobject hgraph

theorem exists_resolve_of_reads {p : Pattern.Phrase} {pattern : Pattern}
    (h : p.Reads prefixes pattern) : ∀ t ∈ p.terms, ∃ term, t.resolve prefixes = .ok term := by
  intro t ht
  simp only [terms, List.mem_append, List.mem_cons, List.not_mem_nil, or_false,
    Option.mem_toList] at ht
  rcases ht with (rfl | rfl | rfl) | ht
  · exact ⟨_, h.subject⟩
  · exact ⟨_, h.predicate⟩
  · exact ⟨_, h.object⟩
  · rcases option_mapM_eq_ok.1 h.graph with ⟨hnone, -⟩ | ⟨graph, term, hsome, -, hterm⟩
    · rw [hnone] at ht
      cases ht
    · rw [hsome] at ht
      cases ht
      exact ⟨term, hterm⟩

theorem exists_reads_of_accepted {p : Pattern.Phrase} (h : p.Accepted prefixes) :
    ∃ pattern, p.Reads prefixes pattern := by
  obtain ⟨subject, hsubject⟩ := h.terms p.subject (by simp [terms])
  obtain ⟨predicate, hpredicate⟩ := h.terms p.predicate (by simp [terms])
  obtain ⟨object, hobject⟩ := h.terms p.object (by simp [terms])
  cases hgraph : p.graph with
  | none =>
    refine ⟨.ofTerms subject predicate object none, hsubject, hpredicate, hobject, ?_⟩
    exact option_mapM_eq_ok.2 (.inl ⟨hgraph, rfl⟩)
  | some t =>
    obtain ⟨graph, ht⟩ := h.terms t (by simp [terms, hgraph])
    refine ⟨.ofTerms subject predicate object (some graph), hsubject, hpredicate, hobject, ?_⟩
    exact option_mapM_eq_ok.2 (.inr ⟨t, graph, hgraph, rfl, ht⟩)

theorem resolve_iff_reads {p : Pattern.Phrase} {pattern : Pattern} :
    p.resolve prefixes = .ok pattern ↔ p.Accepted prefixes ∧ p.Reads prefixes pattern := by
  rw [resolve_eq_ok]
  constructor
  · rintro ⟨hsubject, hpredicate, hobject, hgraph, hs, hp⟩
    have hreads : p.Reads prefixes pattern := ⟨hsubject, hpredicate, hobject, hgraph⟩
    refine ⟨⟨exists_resolve_of_reads hreads, ?_, ?_⟩, hreads⟩
    · rw [← Term.Phrase.isLiteral_of_resolve hsubject, hs]
    · rw [← Term.Phrase.isLiteral_of_resolve hpredicate, hp]
  · rintro ⟨haccepted, hreads⟩
    refine ⟨hreads.subject, hreads.predicate, hreads.object, hreads.graph, ?_, ?_⟩
    · rw [Term.Phrase.isLiteral_of_resolve hreads.subject, haccepted.subject]
    · rw [Term.Phrase.isLiteral_of_resolve hreads.predicate, haccepted.predicate]

/-- What a closure or a walk may follow: an accepted pattern that asks for no graph. -/
structure AcceptedStep (prefixes : Prefixes) (p : Pattern.Phrase) : Prop where
  graph : p.graph = none
  accepted : p.Accepted prefixes

theorem resolveStep_iff_reads {p : Pattern.Phrase} {pattern : Pattern} :
    p.resolveStep prefixes = .ok pattern ↔
      p.AcceptedStep prefixes ∧ p.Reads prefixes pattern := by
  unfold resolveStep
  constructor
  · intro h
    split at h
    · cases h
    · next hgraph =>
      obtain ⟨haccepted, hreads⟩ := resolve_iff_reads.1 h
      exact ⟨⟨by simpa using hgraph, haccepted⟩, hreads⟩
  · rintro ⟨hstep, hreads⟩
    rw [if_neg (by simp [hstep.graph])]
    exact resolve_iff_reads.2 ⟨hstep.accepted, hreads⟩

theorem exists_resolveStep {p : Pattern.Phrase} (h : p.AcceptedStep prefixes) :
    ∃ pattern, p.resolveStep prefixes = .ok pattern := by
  obtain ⟨pattern, hreads⟩ := exists_reads_of_accepted h.accepted
  exact ⟨pattern, resolveStep_iff_reads.2 ⟨h, hreads⟩⟩

section Anchored

variable {α : Type} {anchor p : Pattern.Phrase} {f : Pattern → Pattern → α}

/-- A closure from an anchor and a walk are read alike: the anchor, and then the pattern. -/
theorem reads_of_anchored {c : α}
    (h : (do
      let first ← anchor.resolveStep prefixes
      let pattern ← p.resolveStep prefixes
      return f first pattern) = Except.ok c) :
    (anchor.AcceptedStep prefixes ∧ p.AcceptedStep prefixes) ∧
      ∃ first pattern, anchor.Reads prefixes first ∧ p.Reads prefixes pattern ∧
        c = f first pattern := by
  obtain ⟨first, hfirst, h⟩ := bind_eq_ok.1 h
  obtain ⟨pattern, hpattern, h⟩ := bind_eq_ok.1 h
  cases h
  obtain ⟨hanchor, hreads⟩ := resolveStep_iff_reads.1 hfirst
  obtain ⟨hstep, hreads'⟩ := resolveStep_iff_reads.1 hpattern
  exact ⟨⟨hanchor, hstep⟩, first, pattern, hreads, hreads', rfl⟩

theorem exists_of_anchored
    (h : anchor.AcceptedStep prefixes ∧ p.AcceptedStep prefixes) :
    ∃ c, (do
      let first ← anchor.resolveStep prefixes
      let pattern ← p.resolveStep prefixes
      return f first pattern) = Except.ok c := by
  obtain ⟨first, hfirst⟩ := exists_resolveStep h.1
  obtain ⟨pattern, hpattern⟩ := exists_resolveStep h.2
  exact ⟨_, bind_eq_ok.2 ⟨first, hfirst, bind_eq_ok.2 ⟨pattern, hpattern, rfl⟩⟩⟩

end Anchored

end Pattern.Phrase

namespace Condition

theorem negate_eq_ok {c d : Condition} :
    c.negate = .ok d ↔ ∃ k : Constraint, c = .constraint k ∧ d = .constraint (.not k) := by
  cases c <;> simp [negate, eq_comm]

/-! ### Outlines -/

namespace Outline

/-- What has to be true of an outline so that it has a meaning. -/
structure Accepted (prefixes : Prefixes) (o : Outline Pattern.Phrase) : Prop where
  leaves : ∀ p ∈ o.leaves, p.Accepted prefixes
  steps : ∀ p ∈ o.steps, p.graph = none
  negations : o.NegatesConstraints

theorem accepted_not {inner : Outline Pattern.Phrase} :
    (not inner).Accepted prefixes ↔ inner.isConstraint = true ∧ inner.Accepted prefixes :=
  ⟨fun h => ⟨h.negations.1, h.leaves, h.steps, h.negations.2⟩,
    fun h => ⟨h.2.leaves, h.2.steps, h.1, h.2.negations⟩⟩

theorem accepted_join {operator : Operator} {left right : Outline Pattern.Phrase} :
    (join operator left right).Accepted prefixes ↔
      left.Accepted prefixes ∧ right.Accepted prefixes := by
  constructor
  · intro h
    refine ⟨⟨fun p hp => ?_, fun p hp => ?_, h.negations.1⟩,
      ⟨fun p hp => ?_, fun p hp => ?_, h.negations.2⟩⟩
    · exact h.leaves p (List.mem_append_left _ hp)
    · exact h.steps p (List.mem_append_left _ hp)
    · exact h.leaves p (List.mem_append_right _ hp)
    · exact h.steps p (List.mem_append_right _ hp)
  · rintro ⟨hl, hr⟩
    refine ⟨fun p hp => ?_, fun p hp => ?_, hl.negations, hr.negations⟩
    · exact (List.mem_append.1 hp).elim (hl.leaves p) (hr.leaves p)
    · exact (List.mem_append.1 hp).elim (hl.steps p) (hr.steps p)

theorem accepted_leaf {p : Pattern.Phrase} :
    (leaf p).Accepted prefixes ↔ p.Accepted prefixes := by
  constructor
  · intro h
    exact h.leaves p (List.mem_singleton_self p)
  · intro h
    exact ⟨by simpa [leaves] using h, by simp [steps], trivial⟩

theorem accepted_of_steps {o : Outline Pattern.Phrase} (hsteps : o.steps = o.leaves)
    (hnegations : o.NegatesConstraints) :
    o.Accepted prefixes ↔ ∀ p ∈ o.leaves, p.AcceptedStep prefixes := by
  constructor
  · intro h p hp
    exact ⟨h.steps p (hsteps ▸ hp), h.leaves p hp⟩
  · intro h
    exact ⟨fun p hp => (h p hp).accepted, fun p hp => (h p (hsteps ▸ hp)).graph, hnegations⟩

theorem accepted_closure {p : Pattern.Phrase} :
    (closure p).Accepted prefixes ↔ p.AcceptedStep prefixes := by
  have hsteps : (closure p).steps = (closure p).leaves := rfl
  rw [accepted_of_steps hsteps trivial]
  simp [leaves]

theorem accepted_closureFrom {anchor p : Pattern.Phrase} :
    (closureFrom anchor p).Accepted prefixes ↔
      anchor.AcceptedStep prefixes ∧ p.AcceptedStep prefixes := by
  have hsteps : (closureFrom anchor p).steps = (closureFrom anchor p).leaves := rfl
  rw [accepted_of_steps hsteps trivial]
  simp [leaves]

theorem accepted_walk {anchor p : Pattern.Phrase} :
    (walk anchor p).Accepted prefixes ↔
      anchor.AcceptedStep prefixes ∧ p.AcceptedStep prefixes := by
  have hsteps : (walk anchor p).steps = (walk anchor p).leaves := rfl
  rw [accepted_of_steps hsteps trivial]
  simp [leaves]

/-- An outline that is read is accepted, and what is read has its shape. -/
theorem alike_of_resolve {o : Outline Pattern.Phrase} {c : Condition}
    (h : o.resolve prefixes = .ok c) :
    o.Accepted prefixes ∧ o.Alike (Pattern.Phrase.Reads prefixes) c.outline := by
  induction o generalizing c with
  | leaf p =>
    obtain ⟨pattern, hpattern, h⟩ := bind_eq_ok.1 h
    cases h
    obtain ⟨haccepted, hreads⟩ := Pattern.Phrase.resolve_iff_reads.1 hpattern
    exact ⟨accepted_leaf.2 haccepted, .leaf hreads⟩
  | not inner ih =>
    obtain ⟨d, hd, h⟩ := bind_eq_ok.1 h
    obtain ⟨k, rfl, rfl⟩ := negate_eq_ok.1 h
    obtain ⟨haccepted, halike⟩ := ih hd
    have hinner : inner.isConstraint = true := by
      rw [isConstraint_eq_of_alike halike]
      exact k.isConstraint_outline
    exact ⟨accepted_not.2 ⟨hinner, haccepted⟩, .not halike⟩
  | join operator left right ihl ihr =>
    obtain ⟨l, hl, h⟩ := bind_eq_ok.1 h
    obtain ⟨r, hr, h⟩ := bind_eq_ok.1 h
    cases h
    obtain ⟨hleft, hl⟩ := ihl hl
    obtain ⟨hright, hr⟩ := ihr hr
    exact ⟨accepted_join.2 ⟨hleft, hright⟩, .join hl hr⟩
  | closure p =>
    obtain ⟨pattern, hpattern, h⟩ := bind_eq_ok.1 h
    cases h
    obtain ⟨hstep, hreads⟩ := Pattern.Phrase.resolveStep_iff_reads.1 hpattern
    exact ⟨accepted_closure.2 hstep, .closure hreads⟩
  | closureFrom anchor p =>
    obtain ⟨hsteps, first, pattern, hfirst, hpattern, rfl⟩ := Pattern.Phrase.reads_of_anchored h
    exact ⟨accepted_closureFrom.2 hsteps, .closureFrom hfirst hpattern⟩
  | walk anchor p =>
    obtain ⟨hsteps, first, pattern, hfirst, hpattern, rfl⟩ := Pattern.Phrase.reads_of_anchored h
    exact ⟨accepted_walk.2 hsteps, .walk hfirst hpattern⟩

theorem exists_resolve_of_accepted {o : Outline Pattern.Phrase} (h : o.Accepted prefixes) :
    ∃ c, o.resolve prefixes = .ok c := by
  induction o with
  | leaf p =>
    obtain ⟨pattern, hreads⟩ := Pattern.Phrase.exists_reads_of_accepted (accepted_leaf.1 h)
    have hpattern := Pattern.Phrase.resolve_iff_reads.2 ⟨accepted_leaf.1 h, hreads⟩
    exact ⟨_, bind_eq_ok.2 ⟨pattern, hpattern, rfl⟩⟩
  | not inner ih =>
    -- the operand is read as a condition of its own shape, so as a constraint
    obtain ⟨hinner, haccepted⟩ := accepted_not.1 h
    obtain ⟨c, hc⟩ := ih haccepted
    have hshape := isConstraint_eq_of_alike (alike_of_resolve hc).2
    obtain ⟨k, rfl⟩ := constraint_of_isConstraint (hshape.symm.trans hinner)
    exact ⟨_, bind_eq_ok.2 ⟨_, hc, rfl⟩⟩
  | join operator left right ihl ihr =>
    obtain ⟨hleft, hright⟩ := accepted_join.1 h
    obtain ⟨l, hl⟩ := ihl hleft
    obtain ⟨r, hr⟩ := ihr hright
    exact ⟨_, bind_eq_ok.2 ⟨l, hl, bind_eq_ok.2 ⟨r, hr, rfl⟩⟩⟩
  | closure p =>
    obtain ⟨pattern, hpattern⟩ := Pattern.Phrase.exists_resolveStep (accepted_closure.1 h)
    exact ⟨_, bind_eq_ok.2 ⟨pattern, hpattern, rfl⟩⟩
  | closureFrom anchor p => exact Pattern.Phrase.exists_of_anchored (accepted_closureFrom.1 h)
  | walk anchor p => exact Pattern.Phrase.exists_of_anchored (accepted_walk.1 h)

theorem resolve_eq_ok {o : Outline Pattern.Phrase} {c : Condition} :
    o.resolve prefixes = .ok c ↔
      o.Accepted prefixes ∧ o.Alike (Pattern.Phrase.Reads prefixes) c.outline := by
  constructor
  · exact alike_of_resolve
  · rintro ⟨haccepted, halike⟩
    obtain ⟨d, hd⟩ := exists_resolve_of_accepted haccepted
    have hunique : ∀ (p : Pattern.Phrase) (a b : Pattern), p.Reads prefixes a →
        p.Reads prefixes b → a = b := fun _ _ _ => Pattern.Phrase.Reads.unique
    have houtline : d.outline = c.outline := (alike_of_resolve hd).2.unique hunique halike
    rw [hd, outline_injective houtline]

/-- A single constraint is read with as many negations as it has in the outline. -/
theorem negated_of_resolve {o : Outline Pattern.Phrase} {c : Condition}
    (h : o.resolve prefixes = .ok c) (hconstraint : o.isConstraint = true) :
    ∃ pattern, c.patterns = [pattern] ∧ c = .constraint (.negated pattern o.negations) := by
  have halike := (alike_of_resolve h).2
  have hshape := isConstraint_eq_of_alike halike
  obtain ⟨k, rfl⟩ := constraint_of_isConstraint (hshape.symm.trans hconstraint)
  refine ⟨k.innermost, rfl, ?_⟩
  rw [negations_eq_of_alike halike]
  exact congrArg constraint k.negated_negations.symm

end Outline

/-! ### Written conditions -/

/-- A written condition has a meaning exactly if its outline is accepted, and it means the one
condition that has this outline with the patterns that were written in their places. So the patterns
keep their order, a single constraint is negated as often as this was written, and parentheses
around factors change nothing, be it the meaning or the error. -/
theorem Phrase.resolve_iff_outline (prefixes : Prefixes) {level : Level} (phrase : Phrase level) :
    ((∃ c, phrase.resolve prefixes = .ok c) ↔ phrase.outline.Accepted prefixes) ∧
    (∀ c, phrase.resolve prefixes = .ok c ↔
      phrase.outline.Accepted prefixes ∧
        phrase.outline.Alike (Pattern.Phrase.Reads prefixes) c.outline) ∧
    (∀ c, phrase.resolve prefixes = .ok c →
      List.Forall₂ (Pattern.Phrase.Reads prefixes) phrase.outline.leaves c.patterns ∧
        (phrase.outline.isConstraint = true → ∃ pattern, c.patterns = [pattern] ∧
          c = .constraint (.negated pattern phrase.negations))) ∧
    ∀ wrapped, phrase.Wrapped wrapped → wrapped.resolve prefixes = phrase.resolve prefixes := by
  rw [← phrase.resolve_outline prefixes]
  refine ⟨⟨?_, Outline.exists_resolve_of_accepted⟩, fun c => Outline.resolve_eq_ok, ?_, ?_⟩
  · rintro ⟨c, h⟩
    exact (Outline.alike_of_resolve h).1
  · intro c h
    have hleaves := Outline.forall₂_leaves_of_alike (Outline.alike_of_resolve h).2
    rw [leaves_outline] at hleaves
    rw [← phrase.negations_outline]
    exact ⟨hleaves, Outline.negated_of_resolve h⟩
  · intro wrapped h
    rw [← wrapped.resolve_outline prefixes, Phrase.outline_eq_of_wrapped h]

/-- `not (not $x <urn:p> $y)`. -/
def deniedTwice : Phrase .factor :=
  .group true (.ofFactor
    (.constraint true ⟨.var "x", .const (.resource "urn:p"), .var "y", none⟩))

def deniedTwicePattern : Pattern := .ofTerms (.var "x") (.const (.iri "urn:p")) (.var "y") none

theorem resolve_iff_outline_deniedTwice :
    deniedTwice.resolve .empty = .ok (.constraint (.negated deniedTwicePattern 2)) ∧
      deniedTwice.outline.Accepted .empty ∧
      List.Forall₂ (Pattern.Phrase.Reads .empty) deniedTwice.outline.leaves [deniedTwicePattern] ∧
      (∃ pattern, [deniedTwicePattern] = [pattern] ∧
        Condition.constraint (.negated deniedTwicePattern 2)
          = .constraint (.negated pattern deniedTwice.negations)) ∧
      (Phrase.group false (.ofFactor deniedTwice)).resolve .empty = deniedTwice.resolve .empty := by
  have hlaw := Phrase.resolve_iff_outline .empty deniedTwice
  have hread : deniedTwice.resolve .empty = .ok (.constraint (.negated deniedTwicePattern 2)) := rfl
  obtain ⟨hleaves, hnegated⟩ := hlaw.2.2.1 _ hread
  have hwrapped : deniedTwice.Wrapped (.group false (.ofFactor deniedTwice)) := .wrap (.same _)
  exact ⟨hread, hlaw.1.1 ⟨_, hread⟩, hleaves, hnegated rfl, hlaw.2.2.2 _ hwrapped⟩

end Condition
end TripleQuery
