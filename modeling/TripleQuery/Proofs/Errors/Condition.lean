import TripleQuery.Proofs.Condition.Acceptance
import TripleQuery.Proofs.Errors.Order

/-!
# Errors of conditions and graphs

All errors of a written term, pattern, condition or graph expression, listed as they stand in the
text, and that reading reports this list (`Condition.Phrase.reports_errors`,
`Graphs.Phrase.reports_errors`). A pattern has the errors of its terms before that of a literal as
subject or predicate; a closure has the error of its graph before those of its terms; a negation
has the error of its place after those of its operand.
-/

namespace TripleQuery

variable (prefixes : Prefixes)

/-! ### Terms -/

def Variable.errors (name : String) : List Error :=
  if isName name then [] else [.grammar (.variableName name)]

def Prefixes.errors (token : String) : List Error := failure (prefixes.resolve token)

def Literal.Phrase.errors (l : Literal.Phrase) : List Error :=
  l.datatype.toList.flatMap prefixes.errors

def Constant.Phrase.errors : Constant.Phrase → List Error
  | resource token => prefixes.errors token
  | literal value => value.errors prefixes

def Term.Phrase.errors : Term.Phrase → List Error
  | var name => Variable.errors name
  | const value => value.errors prefixes

theorem Variable.reports_errors (name : String) : Reports (check name) (errors name) := by
  unfold check errors
  split
  · exact .ok name
  · exact .error _ []

theorem Prefixes.reports_errors (token : String) :
    Reports (prefixes.resolve token) (prefixes.errors token) :=
  reports_failure _

theorem Literal.Phrase.reports_errors (l : Literal.Phrase) :
    Reports (l.resolve prefixes) (l.errors prefixes) := by
  obtain ⟨strands, datatype⟩ := l
  cases datatype with
  | none => exact .ok _
  | some token =>
    rw [errors, Option.toList_some, List.flatMap_singleton]
    exact (prefixes.reports_errors token).map _

theorem Constant.Phrase.reports_errors (c : Constant.Phrase) :
    Reports (c.resolve prefixes) (c.errors prefixes) := by
  cases c with
  | resource token => exact (prefixes.reports_errors token).map _
  | literal value => exact (value.reports_errors prefixes).map _

theorem Term.Phrase.reports_errors (t : Term.Phrase) :
    Reports (t.resolve prefixes) (t.errors prefixes) := by
  cases t with
  | var name => exact (Variable.reports_errors name).map _
  | const value => exact (value.reports_errors prefixes).map _

/-! ### Patterns -/

namespace Pattern.Phrase

def literalErrors (p : Pattern.Phrase) : List Error :=
  if p.subject.isLiteral || p.predicate.isLiteral then [.query .literalSubjectOrPredicate] else []

def errors (p : Pattern.Phrase) : List Error :=
  p.terms.flatMap (Term.Phrase.errors prefixes) ++ p.literalErrors

def stepErrors (p : Pattern.Phrase) : List Error :=
  (if p.graph.isSome then [.query .graphOnClosure] else []) ++ p.errors prefixes

theorem reports_literalErrors {p : Pattern.Phrase} {subject predicate : Term}
    (hsubject : p.subject.resolve prefixes = .ok subject)
    (hpredicate : p.predicate.resolve prefixes = .ok predicate) (object : Term)
    (graph : Option Term) :
    Reports ((Pattern.create subject predicate object graph).mapError Error.query)
      p.literalErrors := by
  rw [Pattern.create, Term.Phrase.isLiteral_of_resolve hsubject,
    Term.Phrase.isLiteral_of_resolve hpredicate, literalErrors]
  split
  · exact .error _ []
  · exact .ok _

theorem errors_eq (p : Pattern.Phrase) :
    p.errors prefixes = p.subject.errors prefixes ++ (p.predicate.errors prefixes ++
      (p.object.errors prefixes ++ (p.graph.toList.flatMap (Term.Phrase.errors prefixes) ++
        p.literalErrors))) := by
  simp [errors, terms]

theorem reports_errors (p : Pattern.Phrase) :
    Reports (p.resolve prefixes) (p.errors prefixes) := by
  rw [errors_eq]
  refine (p.subject.reports_errors prefixes).bind fun subject hsubject => ?_
  refine (p.predicate.reports_errors prefixes).bind fun predicate hpredicate => ?_
  refine (p.object.reports_errors prefixes).bind fun object _ => ?_
  refine (Reports.option_mapM p.graph (Term.Phrase.reports_errors prefixes)).bind fun graph _ => ?_
  exact reports_literalErrors prefixes hsubject hpredicate object graph

theorem reports_stepErrors (p : Pattern.Phrase) :
    Reports (p.resolveStep prefixes) (p.stepErrors prefixes) := by
  unfold resolveStep stepErrors
  split
  · exact .error _ _
  · exact p.reports_errors prefixes

end Pattern.Phrase

/-! ### Conditions -/

namespace Condition

/-- The error of a negation whose operand can be read, but is no single constraint. -/
def Outline.negationErrors (operand : Outline Pattern.Phrase) : List Error :=
  match operand.resolve prefixes with
  | .ok c => if operand.isConstraint then [] else [.grammar (.negatedCondition c)]
  | .error _ => []

def Outline.errors : Outline Pattern.Phrase → List Error
  | leaf p => p.errors prefixes
  | not inner => inner.errors ++ inner.negationErrors prefixes
  | join _ left right => left.errors ++ right.errors
  | closure p => p.stepErrors prefixes
  | closureFrom anchor p | walk anchor p => anchor.stepErrors prefixes ++ p.stepErrors prefixes

theorem Outline.reports_negationErrors {operand : Outline Pattern.Phrase} {c : Condition}
    (h : operand.resolve prefixes = .ok c) :
    Reports c.negate (operand.negationErrors prefixes) := by
  have hshape := isConstraint_eq_of_alike (alike_of_resolve h).2
  rw [negationErrors, h, hshape]
  cases c with
  | constraint k =>
    have hk : (constraint k).outline.isConstraint = true := k.isConstraint_outline
    simp only [hk]
    exact .ok _
  | join | closure | closureFrom | walk => exact .error _ []

theorem Outline.reports_errors (o : Outline Pattern.Phrase) :
    Reports (o.resolve prefixes) (o.errors prefixes) := by
  induction o with
  | leaf p => exact (p.reports_errors prefixes).bind_ok fun pattern _ => .ok _
  | not inner ih => exact ih.bind fun c hc => reports_negationErrors prefixes hc
  | join operator left right ihl ihr =>
    exact ihl.bind fun l _ => ihr.bind_ok fun r _ => .ok _
  | closure p => exact (p.reports_stepErrors prefixes).bind_ok fun pattern _ => .ok _
  | closureFrom anchor p | walk anchor p =>
    refine (anchor.reports_stepErrors prefixes).bind fun first _ => ?_
    exact (p.reports_stepErrors prefixes).bind_ok fun pattern _ => .ok _

def Phrase.errors {level : Level} (phrase : Phrase level) : List Error :=
  phrase.outline.errors prefixes

theorem Phrase.reports_errors {level : Level} (phrase : Phrase level) :
    Reports (phrase.resolve prefixes) (phrase.errors prefixes) := by
  rw [← phrase.resolve_outline prefixes]
  exact phrase.outline.reports_errors prefixes

end Condition

/-! ### Restrictions -/

/-- The predicate of the pattern is one that counts occurrences. -/
def Pattern.Phrase.countsRows (p : Pattern.Phrase) : Bool :=
  match p.predicate.resolve prefixes with
  | .ok predicate => (Kind.ofPredicate predicate).isHaving
  | .error _ => false

namespace Condition

/-- The error of a condition that can be read, but restricts no rows. -/
def Outline.restrictionErrors : Outline Pattern.Phrase → List Error
  | leaf p => if p.countsRows prefixes then [] else [.query .notOccursHaving]
  | join .. => [.query .severalHaving]
  | not _ | closure _ | closureFrom .. | walk .. => [.query .notOccursHaving]

def Phrase.havingErrors {level : Level} (phrase : Phrase level) : List Error :=
  phrase.errors prefixes ++ phrase.outline.restrictionErrors prefixes

theorem Outline.reports_restrictionErrors {o : Outline Pattern.Phrase} {c : Condition}
    (h : o.resolve prefixes = .ok c) :
    Reports (c.having.mapError Error.query) (o.restrictionErrors prefixes) := by
  cases o with
  | leaf p =>
    obtain ⟨pattern, hpattern, h⟩ := bind_eq_ok.1 h
    cases h
    have hreads := (Pattern.Phrase.resolve_iff_reads.1 hpattern).2
    have hcounts : p.countsRows prefixes = pattern.kind.isHaving := by
      rw [Pattern.Phrase.countsRows, hreads.predicate, pattern.kind_eq]
    rw [restrictionErrors, hcounts, having, Having.ofPattern]
    split
    · exact .ok _
    · exact .error _ []
  | not inner =>
    obtain ⟨d, _, h⟩ := bind_eq_ok.1 h
    obtain ⟨k, _, rfl⟩ := negate_eq_ok.1 h
    exact .error _ []
  | join operator left right =>
    obtain ⟨l, _, h⟩ := bind_eq_ok.1 h
    obtain ⟨r, _, h⟩ := bind_eq_ok.1 h
    cases h
    exact .error _ []
  | closure p =>
    obtain ⟨pattern, _, h⟩ := bind_eq_ok.1 h
    cases h
    exact .error _ []
  | closureFrom anchor p | walk anchor p =>
    obtain ⟨first, _, h⟩ := bind_eq_ok.1 h
    obtain ⟨pattern, _, h⟩ := bind_eq_ok.1 h
    cases h
    exact .error _ []

theorem Phrase.reports_havingErrors {level : Level} (phrase : Phrase level) :
    Reports (phrase.resolveHaving prefixes) (phrase.havingErrors prefixes) := by
  refine (phrase.reports_errors prefixes).bind fun c hc => ?_
  rw [← phrase.resolve_outline prefixes] at hc
  exact Outline.reports_restrictionErrors prefixes hc

end Condition

/-! ### Graphs -/

namespace Graphs.Phrase

def tokens : {level : Level} → Phrase level → List String
  | _, join _ left right => left.tokens ++ right.tokens
  | _, tight _ inner => inner.tokens
  | _, graph token => [token]
  | _, group inner => inner.tokens

def errors {level : Level} (phrase : Phrase level) : List Error :=
  phrase.tokens.flatMap prefixes.errors

theorem reports_errors {level : Level} (phrase : Phrase level) :
    Reports (phrase.resolve prefixes) (phrase.errors prefixes) := by
  induction phrase with
  | join operator left right ihl ihr =>
    rw [errors, tokens, List.flatMap_append]
    exact ihl.bind fun l _ => ihr.bind_ok fun r _ => .ok _
  | tight operator inner ih => exact ih
  | graph token =>
    rw [errors, tokens, List.flatMap_singleton]
    exact (prefixes.reports_errors token).bind_ok fun iri _ => .ok _
  | group inner ih => exact ih

end Graphs.Phrase
end TripleQuery
