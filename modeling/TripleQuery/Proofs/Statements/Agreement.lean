import TripleQuery.Proofs.Errors.Query
import TripleQuery.Proofs.Errors.Statements

/-!
# Statements agree with conditions

Three terms can be written as a statement or as a pattern of a condition. The statement is checked
in another order than the pattern: the predicate comes before the subject, and a variable is no
predicate of a statement, but may have any name. Where names are valid and the predicate is no
variable, both are accepted or both fail with the same error, and the triple of the statement is
what the pattern has at each position (`Statements.gather_agrees`).
-/

namespace TripleQuery

variable {prefixes : Prefixes}

namespace Statement.Phrase

def terms (w : Statement.Phrase) : List Term.Phrase := [w.subject, w.predicate, w.object]

def pattern (w : Statement.Phrase) : Pattern.Phrase := ⟨w.subject, w.predicate, w.object, none⟩

/-- The condition that is the pattern of the three terms alone. -/
def condition (w : Statement.Phrase) : Condition.Written :=
  .ofFactor (.constraint false w.pattern)

theorem exists_pattern_of_resolve {w : Statement.Phrase} {c : Condition}
    (h : w.condition.resolve prefixes = .ok c) :
    ∃ p, c = .constraint (.pattern p) ∧ w.pattern.Reads prefixes p := by
  rw [condition, Condition.Phrase.resolve_ofFactor] at h
  obtain ⟨p, hp, h⟩ := bind_eq_ok.1 h
  obtain rfl := Except.ok.inj h
  exact ⟨p, rfl, (Pattern.Phrase.resolve_iff_reads.1 hp).2⟩

end Statement.Phrase

/-! ### Errors -/

theorem Term.Phrase.nodeErrors_eq_errors {t : Term.Phrase}
    (h : ∀ name ∈ t.varNames, Variable.isName name = true) :
    t.nodeErrors prefixes = t.errors prefixes := by
  cases t with
  | var name =>
    have hname : Variable.isName name = true := h name (List.mem_singleton_self _)
    simp [nodeErrors, errors, Variable.errors, hname]
  | const value => rfl

namespace Statement.Phrase

variable {w : Statement.Phrase}

theorem head?_kindErrors (h : ∀ name, w.predicate ≠ .var name) :
    (w.predicateErrors ++ w.subjectErrors).head? = w.pattern.literalErrors.head? := by
  obtain ⟨subject, predicate, object⟩ := w
  -- a literal is refused as a predicate on both sides, so the subject matters for a token only
  rcases predicate with name | token | l
  · exact absurd rfl (h name)
  · have hno : (Term.Phrase.const (.resource token)).isLiteral = false := rfl
    simp only [predicateErrors, subjectErrors, pattern, Pattern.Phrase.literalErrors, hno,
      Bool.or_false, List.nil_append]
  · have hyes : (Term.Phrase.const (.literal l)).isLiteral = true := rfl
    simp only [predicateErrors, pattern, Pattern.Phrase.literalErrors, hyes, Bool.or_true,
      if_true, List.cons_append, List.head?_cons]

theorem errors_eq (w : Statement.Phrase) :
    w.errors prefixes = w.terms.flatMap (Term.Phrase.nodeErrors prefixes) ++
      (w.predicateErrors ++ w.subjectErrors) := by
  simp [errors, terms]

theorem head?_errors (hnames : ∀ name ∈ w.pattern.varNames, Variable.isName name = true)
    (hpredicate : ∀ name, w.predicate ≠ .var name) :
    (w.errors prefixes).head? = (w.pattern.errors prefixes).head? := by
  have hterms : w.terms.flatMap (Term.Phrase.nodeErrors prefixes)
      = w.pattern.terms.flatMap (Term.Phrase.errors prefixes) := by
    refine List.flatMap_congr fun t ht => Term.Phrase.nodeErrors_eq_errors fun name hname => ?_
    exact hnames name (List.mem_flatMap.2 ⟨t, ht, hname⟩)
  rw [errors_eq, hterms, List.head?_append, head?_kindErrors hpredicate, ← List.head?_append,
    Pattern.Phrase.errors]

/-- With constants that can be read, a variable as predicate is the first error. -/
theorem head?_errors_of_var {name : String} (hpredicate : w.predicate = .var name)
    (hconstants : ∀ value, .const value ∈ w.terms → ∃ c, value.resolve prefixes = .ok c) :
    (w.errors prefixes).head? = some (.query .placeholderPredicate) := by
  have hterms : w.terms.flatMap (Term.Phrase.nodeErrors prefixes) = [] := by
    refine List.flatMap_eq_nil_iff.2 fun t ht => ?_
    cases t with
    | var other => rfl
    | const value => exact (value.reports_errors prefixes).eq_ok_iff.1 (hconstants value ht)
  rw [errors_eq, hterms, predicateErrors, hpredicate]
  rfl

end Statement.Phrase

/-! ### Triples -/

/-- What a term of a pattern is in statements, where a variable is the blank node that is known by
its name. -/
inductive Term.Yields (table : Placeholders) : Term → Rdf.Node → Prop
  | var {name : String} {blank : Rdf.Blank} : table.lookup name = some blank →
      Yields table (.var name) (.resource (.blank blank))
  | iri (text : String) : Yields table (.const (.iri text)) (.resource (.iri text))
  | literal (value : Literal) : Yields table (.const (.literal value)) (.literal value.toRdf)

structure Pattern.Yields (table : Placeholders) (p : Pattern) (t : Rdf.Triple) : Prop where
  subject : p.subject.Yields table (.resource t.subject)
  predicate : p.predicate.Yields table (.resource (.iri t.predicate))
  object : p.object.Yields table t.object
  graph : p.graph = none

theorem Term.Phrase.Denotes.yields {table : Placeholders} {t : Term.Phrase} {term : Term}
    {node : Rdf.Node} (h : t.Denotes prefixes table node) (hterm : t.resolve prefixes = .ok term) :
    term.Yields table node := by
  cases h with
  | placeholder hlookup =>
    obtain ⟨checked, hcheck, rfl⟩ := map_eq_ok.1 hterm
    obtain ⟨-, rfl⟩ := Variable.check_eq_ok.1 hcheck
    exact .var hlookup
  | constant hvalue =>
    obtain ⟨value, hread, rfl⟩ := map_eq_ok.1 hterm
    obtain rfl := Except.ok.inj (hread.symm.trans hvalue)
    cases value with
    | iri text => exact .iri text
    | literal l => exact .literal l

theorem Statement.Phrase.Denotes.yields {table : Placeholders} {w : Statement.Phrase}
    {t : Rdf.Triple} {p : Pattern} (h : w.Denotes prefixes table t)
    (hp : w.pattern.Reads prefixes p) : p.Yields table t := by
  refine ⟨h.subject.yields hp.subject, ?_, ?_, ?_⟩
  · exact h.predicate.yields hp.predicate
  · exact h.object.yields hp.object
  · exact (Except.ok.inj hp.graph).symm

namespace Statements

theorem gather_singleton (prefixes : Prefixes) (w : Statement.Phrase) :
    gather prefixes [w] = add prefixes empty w := by
  rw [gather, List.foldlM_cons]
  cases add prefixes empty w <;> rfl

theorem exists_triple_of_gather {w : Statement.Phrase} {s : Statements}
    (h : gather prefixes [w] = .ok s) :
    ∃ t, s.triples = [t] ∧ w.Denotes prefixes s.placeholders t := by
  rw [gather_singleton] at h
  obtain ⟨-, t, hdenotes, htriples⟩ := denotes_of_add h
  exact ⟨t, htriples, hdenotes⟩

theorem reports_gather_singleton (w : Statement.Phrase) :
    Reports (gather prefixes [w]) (w.errors prefixes) := by
  rw [gather_singleton]
  exact reports_add prefixes empty w

theorem gather_eq_error_iff {written : List Statement.Phrase} {e : Error} :
    gather prefixes written = .error e ↔ ∃ before w after, written = before ++ w :: after ∧
      (∀ v ∈ before, ∃ s, gather prefixes [v] = .ok s) ∧ gather prefixes [w] = .error e :=
  (reports_gather prefixes written).eq_error_iff_first reports_gather_singleton e

/-- Three terms with valid names, the second of which is no variable, are accepted as a statement
exactly if they are as a condition, with the same error if they are not, and the triple is what the
pattern has at each position. A variable as predicate is refused whenever the constants can be read,
be the subject a literal or not. Of several statements the first that is not accepted on its own is
reported. -/
theorem gather_agrees (prefixes : Prefixes) :
    (∀ w : Statement.Phrase, (∀ name ∈ w.pattern.varNames, Variable.isName name = true) →
      (∀ name, w.predicate ≠ .var name) →
      ((∃ s, gather prefixes [w] = .ok s) ↔ ∃ c, w.condition.resolve prefixes = .ok c) ∧
      (∀ e, gather prefixes [w] = .error e ↔ w.condition.resolve prefixes = .error e) ∧
      ∀ s c, gather prefixes [w] = .ok s → w.condition.resolve prefixes = .ok c →
        ∃ t p, s.triples = [t] ∧ c = .constraint (.pattern p) ∧ p.Yields s.placeholders t) ∧
    (∀ (w : Statement.Phrase) (name : String), w.predicate = .var name →
      (∀ value, .const value ∈ w.terms → ∃ c, value.resolve prefixes = .ok c) →
      gather prefixes [w] = .error (.query .placeholderPredicate)) ∧
    ∀ (written : List Statement.Phrase) (e : Error), gather prefixes written = .error e ↔
      ∃ before w after, written = before ++ w :: after ∧
        (∀ v ∈ before, ∃ s, gather prefixes [v] = .ok s) ∧ gather prefixes [w] = .error e := by
  refine ⟨fun w hnames hpredicate => ?_, fun w name hpredicate hconstants => ?_,
    fun written e => gather_eq_error_iff⟩
  · have hcondition : Reports (w.condition.resolve prefixes) (w.pattern.errors prefixes) :=
      w.condition.reports_errors prefixes
    have hagree := (reports_gather_singleton w).agree hcondition
      (Statement.Phrase.head?_errors hnames hpredicate)
    refine ⟨hagree.1, hagree.2, fun s c hs hc => ?_⟩
    obtain ⟨t, htriples, hdenotes⟩ := exists_triple_of_gather hs
    obtain ⟨p, rfl, hreads⟩ := Statement.Phrase.exists_pattern_of_resolve hc
    exact ⟨t, p, htriples, rfl, hdenotes.yields hreads⟩
  · exact ((reports_gather_singleton w).eq_error_iff _).2
      (Statement.Phrase.head?_errors_of_var hpredicate hconstants)

/-! ### Terms that are written both ways -/

def ann : Literal.Phrase := ⟨[.plain "Ann"], none⟩

def called : Statement.Phrase :=
  ⟨.var "who", .const (.resource "urn:name"), .const (.literal ann)⟩

/-- Subject and predicate are literals, and neither the datatype nor the object is an address. -/
def garbled : Statement.Phrase :=
  ⟨.const (.literal ann), .const (.literal ⟨[], some "string"⟩), .const (.resource "")⟩

def related : Statement.Phrase := ⟨.const (.literal ann), .var "how", .var "whom"⟩

theorem gather_agrees_called :
    (∀ name ∈ called.pattern.varNames, Variable.isName name = true) ∧
      (∀ name ∈ garbled.pattern.varNames, Variable.isName name = true) ∧
      (∀ name, called.predicate ≠ .var name) ∧ (∀ name, garbled.predicate ≠ .var name) ∧
      (∀ value, .const value ∈ related.terms → ∃ c, value.resolve .empty = .ok c) ∧
      (∃ t p, gather .empty [called] = .ok ⟨[t], [("who", ⟨0⟩)]⟩ ∧
        called.condition.resolve .empty = .ok (.constraint (.pattern p)) ∧
        p.Yields [("who", ⟨0⟩)] t) ∧
      gather .empty [garbled] = .error (.malformed "string" .noScheme) ∧
      garbled.condition.resolve .empty = .error (.malformed "string" .noScheme) ∧
      gather .empty [related] = .error (.query .placeholderPredicate) ∧
      gather .empty [called, garbled, related] = .error (.malformed "string" .noScheme) := by
  have hnames : ∀ name ∈ called.pattern.varNames, Variable.isName name = true := by decide
  have hnone : ∀ name ∈ garbled.pattern.varNames, Variable.isName name = true := by decide
  have hcalled : ∀ name, called.predicate ≠ .var name := fun name => Term.Phrase.noConfusion
  have hgarbled : ∀ name, garbled.predicate ≠ .var name := fun name => Term.Phrase.noConfusion
  have hconstants : ∀ value, .const value ∈ related.terms → ∃ c, value.resolve .empty = .ok c := by
    intro value hmem
    obtain rfl : value = .literal ann := by simpa [related, Statement.Phrase.terms] using hmem
    exact ⟨_, rfl⟩
  have hok : gather .empty [called]
      = .ok ⟨[⟨.blank ⟨0⟩, "urn:name", .literal ⟨"Ann", Vocabulary.xsdString⟩⟩],
        [("who", ⟨0⟩)]⟩ := by decide +kernel
  have hcondition : called.condition.resolve .empty
      = .ok (.constraint (.pattern (.ofTerms (.var "who") (.const (.iri "urn:name"))
        (.const (.literal ⟨"Ann", none⟩)) none))) := by decide +kernel
  have hfails : gather .empty [garbled] = .error (.malformed "string" .noScheme) := by
    decide +kernel
  obtain ⟨hagree, hvar, hlist⟩ := gather_agrees .empty
  obtain ⟨t, p, htriples, hp, hyields⟩ := (hagree called hnames hcalled).2.2 _ _ hok hcondition
  refine ⟨hnames, hnone, hcalled, hgarbled, hconstants, ⟨t, p, ?_, hp ▸ hcondition, hyields⟩,
    hfails, ((hagree garbled hnone hgarbled).2.1 _).1 hfails, hvar related "how" rfl hconstants,
    (hlist _ _).2 ⟨[called], garbled, [related], rfl, ?_, hfails⟩⟩
  · rw [hok, ← htriples]
  · exact List.forall_mem_singleton.2 ⟨_, hok⟩

end Statements
end TripleQuery
