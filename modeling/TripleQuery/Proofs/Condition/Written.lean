import TripleQuery.Proofs.Phrases
import TripleQuery.Proofs.WellFormed

/-!
# Conditions written out

Every condition can be written: each operand in parentheses, each negation as one `not`, each
address as its own token and each literal as one strand. If the condition is well formed, then what
is written is read as that condition, without any prefixes (`Condition.resolve_written`). As only
well-formed conditions are ever read, these are exactly the conditions that can be read
(`Condition.exists_resolve_iff_wellFormed`).
-/

namespace TripleQuery

/-! ### Terms and patterns -/

def Literal.written (l : Literal) : Literal.Phrase := ⟨[.plain l.lexical], l.datatype⟩

def Constant.written : Constant → Constant.Phrase
  | iri text => .resource text
  | literal value => .literal value.written

def Term.written : Term → Term.Phrase
  | var name => .var name
  | const value => .const value.written

def Pattern.written (p : Pattern) : Pattern.Phrase :=
  ⟨p.subject.written, p.predicate.written, p.object.written, p.graph.map Term.written⟩

theorem Literal.text_written (l : Literal) : l.written.text = l.lexical := by
  simp [written, Phrase.text, Strand.meaning]

theorem Literal.resolve_written {l : Literal} (h : (Constant.literal l).WellFormed) :
    l.written.resolve .empty = .ok l :=
  (Phrase.resolve_empty_iff l.text_written rfl).2 h

theorem Constant.resolve_written {c : Constant} (h : c.WellFormed) :
    c.written.resolve .empty = .ok c := by
  cases c with
  | iri text =>
    obtain ⟨iri, rfl⟩ := h
    exact map_eq_ok.2 ⟨iri, Prefixes.resolve_empty_text iri, rfl⟩
  | literal l => exact map_eq_ok.2 ⟨l, Literal.resolve_written h, rfl⟩

theorem Term.resolve_written {t : Term} (h : t.WellFormed) : t.written.resolve .empty = .ok t := by
  cases t with
  | var name => exact map_eq_ok.2 ⟨name, Variable.check_eq_ok.2 ⟨h, rfl⟩, rfl⟩
  | const c => exact map_eq_ok.2 ⟨c, Constant.resolve_written h, rfl⟩

theorem Pattern.resolve_written {p : Pattern} (h : p.WellFormed) :
    p.written.resolve .empty = .ok p := by
  have hread : ∀ t ∈ p.terms, t.written.resolve .empty = .ok t :=
    fun t ht => Term.resolve_written (h.terms t ht)
  have hgraph : (p.graph.map Term.written).mapM (Term.Phrase.resolve .empty) = .ok p.graph := by
    cases hp : p.graph with
    | none => rfl
    | some graph =>
      have hmem : graph ∈ p.terms := by simp [terms, hp]
      exact option_mapM_eq_ok.2 (.inr ⟨_, graph, rfl, rfl, hread graph hmem⟩)
  refine Pattern.Phrase.resolve_eq_ok.2 ⟨?_, ?_, ?_, hgraph, h.subject, h.predicate⟩
  · exact hread p.subject (by simp [terms])
  · exact hread p.predicate (by simp [terms])
  · exact hread p.object (by simp [terms])

theorem Pattern.resolveStep_written {p : Pattern} (h : p.IsStep) :
    p.written.resolveStep .empty = .ok p := by
  have hgraph : p.written.graph.isSome = false := by simp [written, h.2]
  rw [Pattern.Phrase.resolveStep, hgraph]
  exact Pattern.resolve_written h.1

/-! ### Conditions -/

def Condition.Phrase.joined : Operator → Phrase .factor → Phrase .factor → Written
  | .or, left, right => .join .or (.ofFactor left) (.tight .and (.tight .minus right))
  | .and, left, right =>
    .tight .or (.join .and (.tight .and (.tight .minus left)) (.tight .minus right))
  | .minus, left, right => .tight .or (.tight .and (.join .minus (.tight .minus left) right))

def Constraint.written : Constraint → Condition.Phrase .factor
  | pattern p => .constraint false p.written
  | not (pattern p) => .constraint true p.written
  -- a factor takes one `not`, so what is negated once already needs parentheses
  | not (not inner) => .group true (.ofFactor (written (not inner)))

def Condition.written : Condition → Written
  | constraint k => .ofFactor k.written
  | join operator left right =>
    .joined operator (.group false left.written) (.group false right.written)
  | closure p => .ofFactor (.closure p.written)
  | closureFrom anchor p => .ofFactor (.closureFrom anchor.written p.written)
  | walk anchor p => .ofFactor (.walk anchor.written p.written)

theorem Condition.Phrase.resolve_joined (prefixes : Prefixes) (operator : Operator)
    (left right : Phrase .factor) :
    (joined operator left right).resolve prefixes = do
      let left ← left.resolve prefixes
      let right ← right.resolve prefixes
      return .join operator left right := by
  cases operator <;> simp only [joined, ofFactor, resolve] <;> rfl

theorem Constraint.resolve_written {k : Constraint} (h : k.innermost.WellFormed) :
    k.written.resolve .empty = .ok (.constraint k) := by
  induction k with
  | pattern p => exact bind_eq_ok.2 ⟨p, Pattern.resolve_written h, rfl⟩
  | not k ih =>
    cases k with
    | pattern p => exact bind_eq_ok.2 ⟨p, Pattern.resolve_written h, rfl⟩
    | not inner =>
      refine bind_eq_ok.2 ⟨.constraint (.not inner), ?_, rfl⟩
      rw [Condition.Phrase.resolve_ofFactor]
      exact ih h

theorem Condition.resolve_written {c : Condition} (h : c.WellFormed) :
    c.written.resolve .empty = .ok c := by
  have hgroup : ∀ {c : Condition}, c.written.resolve .empty = .ok c →
      (Phrase.group false c.written).resolve .empty = .ok c :=
    fun hc => bind_eq_ok.2 ⟨_, hc, rfl⟩
  induction c with
  | constraint k =>
    rw [written, Phrase.resolve_ofFactor]
    exact Constraint.resolve_written h
  | join operator left right ihl ihr =>
    rw [written, Phrase.resolve_joined]
    exact bind_eq_ok.2 ⟨left, hgroup (ihl h.1), bind_eq_ok.2 ⟨right, hgroup (ihr h.2), rfl⟩⟩
  | closure p =>
    rw [written, Phrase.resolve_ofFactor]
    exact bind_eq_ok.2 ⟨p, Pattern.resolveStep_written h, rfl⟩
  | closureFrom anchor p | walk anchor p =>
    rw [written, Phrase.resolve_ofFactor]
    have hanchor := Pattern.resolveStep_written h.1
    have hpattern := Pattern.resolveStep_written h.2
    exact bind_eq_ok.2 ⟨anchor, hanchor, bind_eq_ok.2 ⟨p, hpattern, rfl⟩⟩

/-- The conditions that are read, with whatever prefixes, are those that are well formed; and each
of these is what it is written as, read without prefixes. The kind of a pattern always is that of
its predicate. -/
theorem Condition.exists_resolve_iff_wellFormed (c : Condition) :
    ((∃ (prefixes : Prefixes) (phrase : Written), phrase.resolve prefixes = .ok c) ↔
      c.WellFormed ∧ ∀ p ∈ c.patterns, p.kind = Kind.ofPredicate p.predicate) ∧
    (c.WellFormed ↔ c.written.resolve .empty = .ok c) := by
  have hwritten : c.WellFormed ↔ c.written.resolve .empty = .ok c :=
    ⟨resolve_written, Phrase.wellFormed_of_resolve⟩
  refine ⟨⟨?_, fun h => ⟨.empty, c.written, resolve_written h.1⟩⟩, hwritten⟩
  rintro ⟨prefixes, phrase, h⟩
  exact ⟨Phrase.wellFormed_of_resolve h, fun p _ => p.kind_eq⟩

end TripleQuery
