import TripleQuery.Proofs.Errors.Query

/-!
# No list of columns is without a column

The first column of a written list is never left out, so a list that is not empty gives a column.
The error that there is none is therefore not among the errors of any query, at any level
(`Select.noVariables_notMem_errors`), and is never reported.
-/

namespace TripleQuery

variable (prefixes : Prefixes)

/-! ### Terms and patterns -/

theorem Prefixes.malformed_of_resolve {token : String} {e : Error}
    (h : prefixes.resolve token = .error e) : ∃ text fault, e = .malformed text fault := by
  unfold resolve at h
  cases hread : readReference token with
  | error e' =>
    rw [hread] at h
    cases h
    exact ⟨token, readReference_eq_error hread⟩
  | ok iri =>
    rw [hread] at h
    simp only [bind, Except.bind] at h
    split at h
    · cases h
    · split at h
      · cases h
      · exact ⟨_, readReference_eq_error h⟩

theorem Variable.noVariables_notMem_errors (name : String) :
    Error.query .noVariables ∉ errors name := by
  unfold errors
  split <;> simp

theorem Prefixes.noVariables_notMem_errors (token : String) :
    Error.query .noVariables ∉ prefixes.errors token := by
  unfold errors failure
  split
  · simp
  · next e h =>
    obtain ⟨text, fault, rfl⟩ := prefixes.malformed_of_resolve h
    simp

theorem Constant.Phrase.noVariables_notMem_errors (c : Constant.Phrase) :
    Error.query .noVariables ∉ c.errors prefixes := by
  cases c with
  | resource token => exact prefixes.noVariables_notMem_errors token
  | literal value =>
    intro h
    obtain ⟨token, -, h⟩ := List.mem_flatMap.1 h
    exact prefixes.noVariables_notMem_errors token h

theorem Term.Phrase.noVariables_notMem_errors (t : Term.Phrase) :
    Error.query .noVariables ∉ t.errors prefixes := by
  cases t with
  | var name => exact Variable.noVariables_notMem_errors name
  | const value => exact value.noVariables_notMem_errors prefixes

namespace Pattern.Phrase

theorem noVariables_notMem_errors (p : Pattern.Phrase) :
    Error.query .noVariables ∉ p.errors prefixes := by
  intro h
  rcases List.mem_append.1 h with h | h
  · obtain ⟨t, -, h⟩ := List.mem_flatMap.1 h
    exact t.noVariables_notMem_errors prefixes h
  · unfold literalErrors at h
    split at h <;> simp at h

theorem noVariables_notMem_stepErrors (p : Pattern.Phrase) :
    Error.query .noVariables ∉ p.stepErrors prefixes := by
  intro h
  rcases List.mem_append.1 h with h | h
  · split at h <;> simp at h
  · exact p.noVariables_notMem_errors prefixes h

end Pattern.Phrase

/-! ### Conditions and graphs -/

namespace Condition

theorem Outline.noVariables_notMem_errors (o : Outline Pattern.Phrase) :
    Error.query .noVariables ∉ o.errors prefixes := by
  induction o with
  | leaf p => exact p.noVariables_notMem_errors prefixes
  | not inner ih =>
    intro h
    rcases List.mem_append.1 h with h | h
    · exact ih h
    · unfold negationErrors at h
      split at h
      · split at h <;> simp at h
      · cases h
  | join operator left right ihl ihr =>
    intro h
    exact (List.mem_append.1 h).elim ihl ihr
  | closure p => exact p.noVariables_notMem_stepErrors prefixes
  | closureFrom anchor p | walk anchor p =>
    intro h
    exact (List.mem_append.1 h).elim (anchor.noVariables_notMem_stepErrors prefixes)
      (p.noVariables_notMem_stepErrors prefixes)

theorem Outline.noVariables_notMem_restrictionErrors (o : Outline Pattern.Phrase) :
    Error.query .noVariables ∉ o.restrictionErrors prefixes := by
  cases o with
  | leaf p =>
    unfold restrictionErrors
    split <;> simp
  | not | join | closure | closureFrom | walk => simp [restrictionErrors]

end Condition

theorem Graphs.Phrase.noVariables_notMem_errors {level : Graphs.Level} (g : Graphs.Phrase level) :
    Error.query .noVariables ∉ g.errors prefixes := by
  intro h
  obtain ⟨token, -, h⟩ := List.mem_flatMap.1 h
  exact prefixes.noVariables_notMem_errors token h

/-! ### Queries -/

namespace Clauses

theorem noVariables_notMem_orderErrors (c : Clauses) :
    Error.query .noVariables ∉ c.orderErrors := by
  unfold orderErrors
  split
  · simp
  · simp
  · intro h
    obtain ⟨key, -, h⟩ := List.mem_flatMap.1 h
    exact Variable.noVariables_notMem_errors key.name h

theorem noVariables_notMem_countErrors (fault : String → GrammarFault) (text : Option String) :
    Error.query .noVariables ∉ text.toList.flatMap (countErrors fault) := by
  intro h
  obtain ⟨text, -, h⟩ := List.mem_flatMap.1 h
  unfold countErrors at h
  split at h <;> simp at h

/-- The clauses add the error to none that the columns have. -/
theorem noVariables_notMem_errors {c : Clauses} {columnErrors : List Error}
    (h : Error.query .noVariables ∉ columnErrors) (names : List String) :
    Error.query .noVariables ∉ c.errors prefixes columnErrors names := by
  have hmissing : Error.query .noVariables ∉ c.missingErrors := by
    unfold missingErrors
    split <;> split <;> simp
  have hgraphs : Error.query .noVariables ∉
      c.graphs.toList.flatMap fun graphs => graphs.errors prefixes := by
    intro h
    obtain ⟨graphs, -, h⟩ := List.mem_flatMap.1 h
    exact graphs.noVariables_notMem_errors prefixes h
  have hcondition : Error.query .noVariables ∉
      c.condition.toList.flatMap fun condition => condition.errors prefixes := by
    intro h
    obtain ⟨condition, -, h⟩ := List.mem_flatMap.1 h
    exact condition.outline.noVariables_notMem_errors prefixes h
  have hunconstrained : Error.query .noVariables ∉ c.unconstrainedErrors names := by
    simp [unconstrainedErrors]
  have hhaving : Error.query .noVariables ∉
      c.having.toList.flatMap fun restriction => restriction.havingErrors prefixes := by
    intro h
    obtain ⟨restriction, -, h⟩ := List.mem_flatMap.1 h
    exact (List.mem_append.1 h).elim (restriction.outline.noVariables_notMem_errors prefixes)
      (restriction.outline.noVariables_notMem_restrictionErrors prefixes)
  simp only [errors, List.mem_append, not_or]
  exact ⟨⟨⟨⟨⟨⟨⟨⟨hmissing, h⟩, hgraphs⟩, hcondition⟩, hunconstrained⟩,
    c.noVariables_notMem_orderErrors⟩, hhaving⟩, noVariables_notMem_countErrors _ _⟩,
    noVariables_notMem_countErrors _ _⟩

end Clauses

mutual

theorem Query.Phrase.noVariables_notMem_errors : (w : Query.Phrase) →
    Error.query .noVariables ∉ w.errors prefixes
  | ⟨none, clauses⟩ => by
    rw [Query.Phrase.errors]
    exact Clauses.noVariables_notMem_errors prefixes List.not_mem_nil []
  | ⟨some columns, clauses⟩ => by
    rw [Query.Phrase.errors]
    refine Clauses.noVariables_notMem_errors prefixes ?_ _
    intro h
    rcases List.mem_append.1 h with h | h
    · unfold Query.Phrase.emptyErrors at h
      split at h <;> simp at h
    · exact Column.Phrase.noVariables_notMem_errorsAll columns h

theorem Column.Phrase.noVariables_notMem_errorsAll : (columns : List Column.Phrase) →
    Error.query .noVariables ∉ Column.Phrase.errorsAll prefixes columns
  | [] => by
    rw [Column.Phrase.errorsAll]
    exact List.not_mem_nil
  | .term t :: rest => by
    rw [Column.Phrase.errorsAll]
    intro h
    exact (List.mem_append.1 h).elim (t.noVariables_notMem_errors prefixes)
      (Column.Phrase.noVariables_notMem_errorsAll rest)
  | .count query :: rest | .subquery query :: rest => by
    rw [Column.Phrase.errorsAll]
    intro h
    exact (List.mem_append.1 h).elim (Query.Phrase.noVariables_notMem_errors query)
      (Column.Phrase.noVariables_notMem_errorsAll rest)

end

theorem Select.noVariables_notMem_errors (written : Select) :
    Error.query .noVariables ∉ written.errors prefixes :=
  written.toQuery.noVariables_notMem_errors prefixes

theorem Select.resolve_ne_noVariables (written : Select) :
    written.resolve prefixes ≠ .error (.query .noVariables) := by
  intro h
  have hreports := written.toQuery.reports_errors prefixes
  have hfirst := (hreports.eq_error_iff _).1 h
  exact written.noVariables_notMem_errors prefixes (List.mem_of_head? hfirst)

end TripleQuery
