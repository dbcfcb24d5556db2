import TripleQuery.Proofs.Errors.Condition

/-!
# Conditions that restrict an answer

Which written conditions restrict the rows of an answer. Parentheses around a single constraint do
not matter, a negation does: rows are restricted by a constraint that stands bare, if its predicate
is one of the three addresses that count occurrences, in either of two name spaces. Of all other
conditions that can be read, the operations are refused as several conditions, the rest for what
they ask (`Condition.Phrase.resolveHaving_iff_bare`).
-/

namespace TripleQuery

variable {prefixes : Prefixes}

/-! ### Predicates that count occurrences -/

namespace Kind

/-- The predicates that count occurrences, by their names within a name space. -/
def counting : List (String × Kind) :=
  [("occurs", occurs), ("occursLessThan", occursLessThan), ("occursMoreThan", occursMoreThan)]

/-- The address is that of a predicate that counts occurrences, in one of the two name spaces. -/
def Counts (text : String) (kind : Kind) : Prop :=
  ∃ ns ∈ [Vocabulary.nativeSpace, Vocabulary.legacySpace], ∃ word,
    (word, kind) ∈ counting ∧ text = ns ++ word

theorem mem_counting_iff {entry : String × Kind} :
    entry ∈ counting ↔ entry ∈ special ∧ entry.2.isHaving = true := by
  have hfilter : counting = special.filter (·.2.isHaving) := rfl
  rw [hfilter, List.mem_filter]

theorem ofIri_special :
    ∀ ns ∈ nameSpaces, ∀ entry ∈ special, ofIri (ns ++ entry.1) = entry.2 := by decide

theorem exists_special_of_ofIri {text : String} (h : ofIri text ≠ plain) :
    ∃ ns ∈ nameSpaces, ∃ entry ∈ special, text = ns ++ entry.1 := by
  unfold ofIri at h
  split at h
  · next entry hfind =>
    have hnamed : (nameSpaces.any fun ns => text == ns ++ entry.1) = true := by
      simpa using List.find?_some hfind
    obtain ⟨ns, hns, htext⟩ := List.any_eq_true.1 hnamed
    exact ⟨ns, hns, entry, List.mem_of_find?_eq_some hfind, beq_iff_eq.1 htext⟩
  · exact absurd rfl h

theorem counts_iff {text : String} {kind : Kind} :
    Counts text kind ↔ ofIri text = kind ∧ kind.isHaving = true := by
  constructor
  · rintro ⟨ns, hns, word, hword, rfl⟩
    obtain ⟨hspecial, hhaving⟩ := mem_counting_iff.1 hword
    exact ⟨ofIri_special ns hns _ hspecial, hhaving⟩
  · rintro ⟨rfl, hhaving⟩
    have hne : ofIri text ≠ plain := by
      intro hplain
      rw [hplain] at hhaving
      cases hhaving
    obtain ⟨ns, hns, ⟨word, kind⟩, hspecial, rfl⟩ := exists_special_of_ofIri hne
    have hkind := ofIri_special ns hns _ hspecial
    rw [hkind] at hhaving ⊢
    exact ⟨ns, hns, word, mem_counting_iff.2 ⟨hspecial, hhaving⟩, rfl⟩

theorem exists_iri_of_isHaving {t : Term} (h : (ofPredicate t).isHaving = true) :
    ∃ text, t = .const (.iri text) := by
  rcases t with name | text | l
  · cases h
  · exact ⟨text, rfl⟩
  · cases h

end Kind

theorem Term.Phrase.resolve_eq_iri_iff {t : Term.Phrase} {text : String} :
    t.resolve prefixes = .ok (.const (.iri text)) ↔
      ∃ token iri, t = .const (.resource token) ∧ prefixes.resolve token = .ok iri ∧
        iri.text = text := by
  constructor
  · intro h
    rcases t with name | token | l
    · obtain ⟨checked, -, hterm⟩ := map_eq_ok.1 h
      cases hterm
    · obtain ⟨value, hvalue, hterm⟩ := map_eq_ok.1 h
      obtain ⟨iri, hiri, rfl⟩ := map_eq_ok.1 hvalue
      cases hterm
      exact ⟨token, iri, rfl, hiri, rfl⟩
    · obtain ⟨value, hvalue, hterm⟩ := map_eq_ok.1 h
      obtain ⟨literal, -, rfl⟩ := map_eq_ok.1 hvalue
      cases hterm
  · rintro ⟨token, iri, rfl, hiri, rfl⟩
    exact map_eq_ok.2 ⟨.iri iri.text, map_eq_ok.2 ⟨iri, hiri, rfl⟩, rfl⟩

namespace Pattern.Phrase

def Counts (prefixes : Prefixes) (p : Pattern.Phrase) (kind : Kind) : Prop :=
  ∃ token iri, p.predicate = .const (.resource token) ∧ prefixes.resolve token = .ok iri ∧
    Kind.Counts iri.text kind

theorem counts_iff_of_resolve {p : Pattern.Phrase} {predicate : Term} {kind : Kind}
    (h : p.predicate.resolve prefixes = .ok predicate) :
    p.Counts prefixes kind ↔ Kind.ofPredicate predicate = kind ∧ kind.isHaving = true := by
  constructor
  · rintro ⟨token, iri, htoken, hiri, hcounts⟩
    have hread := Term.Phrase.resolve_eq_iri_iff.2 ⟨token, iri, htoken, hiri, rfl⟩
    obtain rfl := Except.ok.inj (h.symm.trans hread)
    exact Kind.counts_iff.1 hcounts
  · rintro ⟨rfl, hhaving⟩
    obtain ⟨text, rfl⟩ := Kind.exists_iri_of_isHaving hhaving
    obtain ⟨token, iri, htoken, hiri, rfl⟩ := Term.Phrase.resolve_eq_iri_iff.1 h
    exact ⟨token, iri, htoken, hiri, Kind.counts_iff.2 ⟨rfl, hhaving⟩⟩

theorem countsRows_iff {p : Pattern.Phrase} :
    p.countsRows prefixes = true ↔ ∃ kind, p.Counts prefixes kind := by
  unfold countsRows
  split
  · next predicate h => simp [counts_iff_of_resolve h]
  · next e h =>
    constructor
    · intro hfalse
      cases hfalse
    · rintro ⟨kind, token, iri, htoken, hiri, -⟩
      have hread := Term.Phrase.resolve_eq_iri_iff.2 ⟨token, iri, htoken, hiri, rfl⟩
      rw [h] at hread
      cases hread

end Pattern.Phrase

/-! ### Bare constraints -/

namespace Condition

/-- The phrase is a single constraint without a negation, in any number of parentheses that are not
negated either. -/
inductive Phrase.Bare : {level : Level} → Phrase level → Pattern.Phrase → Prop
  | constraint (pattern : Pattern.Phrase) : Bare (.constraint false pattern) pattern
  | group {inner : Written} {pattern : Pattern.Phrase} : Bare inner pattern →
      Bare (.group false inner) pattern
  | tight {operator : Operator} {inner : Phrase operator.tighter} {pattern : Pattern.Phrase} :
      Bare inner pattern → Bare (.tight operator inner) pattern

theorem Phrase.Bare.outline_eq {level : Level} {phrase : Phrase level} {p : Pattern.Phrase}
    (h : phrase.Bare p) : phrase.outline = .leaf p := by
  induction h with
  | constraint pattern => rfl
  | group _ ih => exact ih
  | tight _ ih => exact ih

theorem Phrase.bare_of_outline {level : Level} {phrase : Phrase level} {p : Pattern.Phrase}
    (h : phrase.outline = .leaf p) : phrase.Bare p := by
  induction phrase with
  | join operator left right => cases h
  | tight operator inner ih => exact .tight (ih h)
  | constraint negated pattern =>
    cases negated with
    | false =>
      obtain rfl := Outline.leaf.inj h
      exact .constraint _
    | true => cases h
  | group negated inner ih =>
    cases negated with
    | false => exact .group (ih h)
    | true => cases h
  | closure | closureFrom | walk => cases h

theorem Phrase.outline_eq_leaf_iff {level : Level} {phrase : Phrase level} {p : Pattern.Phrase} :
    phrase.outline = .leaf p ↔ phrase.Bare p :=
  ⟨bare_of_outline, Bare.outline_eq⟩

/-! ### Restrictions -/

theorem having_eq_ok {c : Condition} {restriction : Having} (h : c.having = .ok restriction) :
    c = .constraint (.pattern restriction.pattern) := by
  rcases c with (p | k) | _ | _ | _ | _
  · rw [Having.pattern_of_ofPattern h]
  all_goals cases h

theorem Phrase.reads_of_resolveHaving {level : Level} {phrase : Phrase level}
    {restriction : Having} (h : phrase.resolveHaving prefixes = .ok restriction) :
    ∃ p, phrase.Bare p ∧ p.Reads prefixes restriction.pattern ∧
      p.Counts prefixes restriction.kind := by
  obtain ⟨c, hc, hhaving⟩ := bind_eq_ok.1 h
  obtain rfl := having_eq_ok (mapError_eq_ok.1 hhaving)
  rw [← phrase.resolve_outline prefixes] at hc
  have halike := (Outline.alike_of_resolve hc).2
  generalize houtline : phrase.outline = o at halike
  cases halike with
  | leaf hreads =>
    refine ⟨_, outline_eq_leaf_iff.1 houtline, hreads, ?_⟩
    exact (Pattern.Phrase.counts_iff_of_resolve hreads.predicate).2
      ⟨restriction.pattern.kind_eq.symm, restriction.isHaving⟩

namespace Outline

variable {o : Outline Pattern.Phrase}

theorem restrictionErrors_eq_nil_iff :
    o.restrictionErrors prefixes = [] ↔ ∃ p kind, o = .leaf p ∧ p.Counts prefixes kind := by
  cases o with
  | leaf p =>
    rw [restrictionErrors]
    simp [← Pattern.Phrase.countsRows_iff]
  | not | join | closure | closureFrom | walk => simp [restrictionErrors]

theorem severalHaving_iff :
    (o.restrictionErrors prefixes).head? = some (.query .severalHaving) ↔
      ∃ operator left right, o = .join operator left right := by
  cases o with
  | leaf p =>
    rw [restrictionErrors]
    split <;> simp
  | not | join | closure | closureFrom | walk => simp [restrictionErrors]

theorem notOccursHaving_iff :
    (o.restrictionErrors prefixes).head? = some (.query .notOccursHaving) ↔
      (∀ operator left right, o ≠ .join operator left right) ∧
        ∀ p kind, o = .leaf p → ¬ p.Counts prefixes kind := by
  cases o with
  | leaf p =>
    have hcounts : (∀ q kind, leaf p = leaf q → ¬ q.Counts prefixes kind) ↔
        p.countsRows prefixes = false := by
      rw [← Bool.not_eq_true, Pattern.Phrase.countsRows_iff, not_exists]
      refine ⟨fun h kind => h p kind rfl, ?_⟩
      rintro h q kind ⟨⟩
      exact h kind
    rw [restrictionErrors, hcounts]
    cases p.countsRows prefixes <;> simp
  | not | join | closure | closureFrom | walk => simp [restrictionErrors]

end Outline

/-- A condition that cannot be read keeps its error. One that can restricts rows exactly if it is a
bare constraint that counts occurrences, and then does so by the pattern that is written there. An
operation is refused as several conditions, whatever its parts ask; everything else is refused for
what it asks. -/
theorem Phrase.resolveHaving_iff_bare (prefixes : Prefixes) {level : Level}
    (phrase : Phrase level) :
    (∀ e, phrase.resolve prefixes = .error e → phrase.resolveHaving prefixes = .error e) ∧
    ∀ c, phrase.resolve prefixes = .ok c →
      ((∃ restriction, phrase.resolveHaving prefixes = .ok restriction) ↔
        ∃ p kind, phrase.Bare p ∧ p.Counts prefixes kind) ∧
      (∀ restriction, phrase.resolveHaving prefixes = .ok restriction →
        ∃ p, phrase.Bare p ∧ p.Reads prefixes restriction.pattern ∧
          p.Counts prefixes restriction.kind) ∧
      (phrase.resolveHaving prefixes = .error (.query .severalHaving) ↔
        ∃ operator left right, phrase.outline = .join operator left right) ∧
      (phrase.resolveHaving prefixes = .error (.query .notOccursHaving) ↔
        (∀ operator left right, phrase.outline ≠ .join operator left right) ∧
          ∀ p kind, phrase.Bare p → ¬ p.Counts prefixes kind) := by
  constructor
  · intro e h
    rw [resolveHaving, h]
    rfl
  · intro c h
    have hnone : phrase.errors prefixes = [] :=
      (phrase.reports_errors prefixes).eq_ok_iff.1 ⟨c, h⟩
    have hreports := phrase.reports_havingErrors prefixes
    rw [havingErrors, hnone, List.nil_append] at hreports
    simp only [← outline_eq_leaf_iff]
    refine ⟨?_, fun restriction hread => ?_, ?_, ?_⟩
    · rw [hreports.eq_ok_iff, Outline.restrictionErrors_eq_nil_iff]
    · simp only [outline_eq_leaf_iff]
      exact reads_of_resolveHaving hread
    · rw [hreports.eq_error_iff, Outline.severalHaving_iff]
    · rw [hreports.eq_error_iff, Outline.notOccursHaving_iff]

/-- `($x <http://tucana.org/tucana#occursLessThan> '2' in $g)`. -/
def fewRows : Phrase .factor :=
  .group false (.ofFactor (.constraint false ⟨.var "x",
    .const (.resource "http://tucana.org/tucana#occursLessThan"),
    .const (.literal ⟨[.plain "2"], none⟩), some (.var "g")⟩))

def fewRowsPattern : Pattern :=
  .ofTerms (.var "x") (.const (.iri "http://tucana.org/tucana#occursLessThan"))
    (.const (.literal ⟨"2", none⟩)) (some (.var "g"))

def fewRowsRestriction : Having := ⟨fewRowsPattern, by decide⟩

/-- The phrase on either side of an `or`. -/
def fewRowsTwice : Written := .join .or (.ofFactor fewRows) (.tight .and (.tight .minus fewRows))

theorem resolveHaving_fewRows :
    fewRows.resolve .empty = .ok (.constraint (.pattern fewRowsPattern)) ∧
      fewRows.resolveHaving .empty = .ok fewRowsRestriction ∧
      (∃ p, fewRows.Bare p ∧ p.Reads .empty fewRowsPattern ∧ p.Counts .empty .occursLessThan) ∧
      fewRowsTwice.resolve .empty = .ok (.join .or (.constraint (.pattern fewRowsPattern))
        (.constraint (.pattern fewRowsPattern))) ∧
      fewRowsTwice.resolveHaving .empty = .error (.query .severalHaving) := by
  have hread : fewRows.resolve .empty = .ok (.constraint (.pattern fewRowsPattern)) := by
    decide +kernel
  have hrestricts : fewRows.resolveHaving .empty = .ok fewRowsRestriction := by decide +kernel
  have htwice : fewRowsTwice.resolve .empty = .ok (.join .or
      (.constraint (.pattern fewRowsPattern)) (.constraint (.pattern fewRowsPattern))) := by
    decide +kernel
  have hone := (Phrase.resolveHaving_iff_bare .empty fewRows).2 _ hread
  have hseveral := ((Phrase.resolveHaving_iff_bare .empty fewRowsTwice).2 _ htwice).2.2.1
  have hkind : fewRowsRestriction.kind = .occursLessThan := by decide
  obtain ⟨p, hbare, hreads, hcounts⟩ := hone.2.1 _ hrestricts
  rw [hkind] at hcounts
  exact ⟨hread, hrestricts, ⟨p, hbare, hreads, hcounts⟩, htwice, hseveral.2 ⟨_, _, _, rfl⟩⟩

end Condition
end TripleQuery
