import TripleQuery.Proofs.Errors.Condition
import TripleQuery.Proofs.Expansion.Token
import TripleQuery.Proofs.Query.Assembly
import TripleQuery.Statements.Basic

/-!
# Tables that read alike

A table of prefixes is looked up for tokens only, so two tables that read the tokens of a text alike
read the whole text alike, with the same value or the same error (`Select.resolve_congr` and the
lemmas before it). For a token a table is asked for one label at most, the scheme of the token, and
not even for that if a slash follows (`Prefixes.readAlike_of_agree`).
-/

namespace TripleQuery

namespace Prefixes

variable {a b : Prefixes} {tokens more : List String}

def ReadAlike (a b : Prefixes) (tokens : List String) : Prop :=
  ∀ token ∈ tokens, a.resolve token = b.resolve token

theorem readAlike_append :
    ReadAlike a b (tokens ++ more) ↔ ReadAlike a b tokens ∧ ReadAlike a b more :=
  List.forall_mem_append

theorem readAlike_flatMap {α : Type} {l : List α} {f : α → List String} :
    ReadAlike a b (l.flatMap f) ↔ ∀ x ∈ l, ReadAlike a b (f x) :=
  List.forall_mem_flatMap

/-- A table is asked for the scheme of a token, unless a slash follows it. -/
def Asks (tokens : List String) (label : String) : Prop :=
  ∃ iri : Iri, iri.text ∈ tokens ∧ iri.scheme = label ∧ iri.afterScheme.head? ≠ some '/'

theorem asks_iff {label : String} :
    Asks tokens label ↔ ∃ token ∈ tokens, ∃ iri ∈ (Iri.parse token).toOption,
      iri.scheme = label ∧ iri.afterScheme.head? ≠ some '/' := by
  constructor
  · rintro ⟨iri, hmem, h⟩
    exact ⟨iri.text, hmem, iri, toOption_eq_some.2 iri.parse_text, h⟩
  · rintro ⟨token, hmem, iri, hparse, h⟩
    obtain rfl := Iri.text_of_parse (toOption_eq_some.1 hparse)
    exact ⟨iri, hmem, h⟩

instance (tokens : List String) (label : String) : Decidable (Asks tokens label) :=
  decidable_of_iff _ asks_iff.symm

theorem readAlike_of_agree (h : ∀ label, Asks tokens label → a.find? label = b.find? label) :
    ReadAlike a b tokens := by
  intro token hmem
  cases hread : readReference token with
  | error e => simp only [resolve, hread]; rfl
  | ok iri =>
    obtain rfl := Iri.text_of_parse (mapError_eq_ok.1 hread)
    rw [resolve_text, resolve_text]
    by_cases hslash : iri.afterScheme.head? = some '/'
    · rw [if_pos hslash, if_pos hslash]
    · rw [if_neg hslash, if_neg hslash, h iri.scheme ⟨iri, hmem, rfl, hslash⟩]

end Prefixes

open Prefixes (ReadAlike readAlike_append readAlike_flatMap)

variable {a b : Prefixes}

/-! ### Terms and patterns -/

def Literal.Phrase.tokens (l : Literal.Phrase) : List String := l.datatype.toList

def Constant.Phrase.tokens : Constant.Phrase → List String
  | resource token => [token]
  | literal value => value.tokens

def Term.Phrase.tokens : Term.Phrase → List String
  | var _ => []
  | const value => value.tokens

def Pattern.Phrase.tokens (p : Pattern.Phrase) : List String := p.terms.flatMap Term.Phrase.tokens

theorem Literal.Phrase.resolve_congr {l : Literal.Phrase} (h : ReadAlike a b l.tokens) :
    l.resolve a = l.resolve b := by
  obtain ⟨strands, datatype⟩ := l
  cases datatype with
  | none => rfl
  | some token => simp only [resolve, h token (List.mem_singleton_self token)]

theorem Constant.Phrase.resolve_congr {c : Constant.Phrase} (h : ReadAlike a b c.tokens) :
    c.resolve a = c.resolve b := by
  cases c with
  | resource token => rw [resolve, resolve, h token (List.mem_singleton_self token)]
  | literal value => rw [resolve, resolve, Literal.Phrase.resolve_congr h]

theorem Term.Phrase.resolve_congr {t : Term.Phrase} (h : ReadAlike a b t.tokens) :
    t.resolve a = t.resolve b := by
  cases t with
  | var name => rfl
  | const value => rw [resolve, resolve, Constant.Phrase.resolve_congr h]

theorem option_mapM_congr {α β : Type} {x : Option α} {f g : α → Except Error β}
    (h : ∀ y ∈ x.toList, f y = g y) : x.mapM f = x.mapM g := by
  cases x with
  | none => rfl
  | some y => rw [Option.mapM_some, Option.mapM_some, h y (List.mem_singleton_self y)]

namespace Pattern.Phrase

theorem resolve_congr {p : Pattern.Phrase} (h : ReadAlike a b p.tokens) :
    p.resolve a = p.resolve b := by
  have hterm : ∀ t ∈ p.terms, t.resolve a = t.resolve b :=
    fun t ht => Term.Phrase.resolve_congr (readAlike_flatMap.1 h t ht)
  obtain ⟨hplain, hgraph⟩ := List.forall_mem_append.1 hterm
  rw [resolve, resolve, hplain p.subject (by simp), hplain p.predicate (by simp),
    hplain p.object (by simp), option_mapM_congr hgraph]

theorem resolveStep_congr {p : Pattern.Phrase} (h : ReadAlike a b p.tokens) :
    p.resolveStep a = p.resolveStep b := by
  rw [resolveStep, resolveStep, resolve_congr h]

end Pattern.Phrase

/-! ### Conditions and graphs -/

namespace Condition

def Phrase.tokens {level : Level} (phrase : Phrase level) : List String :=
  phrase.outline.leaves.flatMap Pattern.Phrase.tokens

theorem Outline.resolve_congr {o : Outline Pattern.Phrase}
    (h : ∀ p ∈ o.leaves, ReadAlike a b p.tokens) : o.resolve a = o.resolve b := by
  induction o with
  | leaf p =>
    have hp := Pattern.Phrase.resolve_congr (h p (List.mem_singleton_self p))
    rw [resolve, resolve, hp]
  | not inner ih => rw [resolve, resolve, ih h]
  | join operator left right ihl ihr =>
    obtain ⟨hl, hr⟩ := List.forall_mem_append.1 h
    rw [resolve, resolve, ihl hl, ihr hr]
  | closure p =>
    have hp := Pattern.Phrase.resolveStep_congr (h p (List.mem_singleton_self p))
    rw [resolve, resolve, hp]
  | closureFrom anchor p | walk anchor p =>
    have hanchor := Pattern.Phrase.resolveStep_congr (h anchor (List.mem_cons_self ..))
    have hp := Pattern.Phrase.resolveStep_congr
      (h p (List.mem_cons_of_mem _ (List.mem_singleton_self p)))
    rw [resolve, resolve, hanchor, hp]

variable {level : Level} {phrase : Phrase level}

theorem Phrase.resolve_congr (h : ReadAlike a b phrase.tokens) :
    phrase.resolve a = phrase.resolve b := by
  rw [← resolve_outline, ← resolve_outline, Outline.resolve_congr (readAlike_flatMap.1 h)]

theorem Phrase.resolveHaving_congr (h : ReadAlike a b phrase.tokens) :
    phrase.resolveHaving a = phrase.resolveHaving b := by
  rw [resolveHaving, resolveHaving, resolve_congr h]

end Condition

theorem Graphs.Phrase.resolve_congr {level : Graphs.Level} {phrase : Graphs.Phrase level}
    (h : ReadAlike a b phrase.tokens) : phrase.resolve a = phrase.resolve b := by
  induction phrase with
  | join operator left right ihl ihr =>
    obtain ⟨hl, hr⟩ := readAlike_append.1 h
    rw [resolve, resolve, ihl hl, ihr hr]
  | tight operator inner ih => exact ih h
  | graph token => rw [resolve, resolve, h token (List.mem_singleton_self token)]
  | group inner ih => exact ih h

/-! ### Queries -/

def Clauses.tokens (c : Clauses) : List String :=
  c.graphs.toList.flatMap Graphs.Phrase.tokens ++
    (c.condition.toList.flatMap Condition.Phrase.tokens ++
      c.having.toList.flatMap Condition.Phrase.tokens)

mutual

def Query.Phrase.tokens : Query.Phrase → List String
  | ⟨none, clauses⟩ => clauses.tokens
  | ⟨some columns, clauses⟩ => Column.Phrase.tokensAll columns ++ clauses.tokens

def Column.Phrase.tokensAll : List Column.Phrase → List String
  | [] => []
  | .term t :: rest => t.tokens ++ Column.Phrase.tokensAll rest
  | .count query :: rest => query.tokens ++ Column.Phrase.tokensAll rest
  | .subquery query :: rest => query.tokens ++ Column.Phrase.tokensAll rest

end

def Select.tokens (select : Select) : List String := select.toQuery.tokens

theorem Clauses.assemble_congr {c : Clauses} (h : ReadAlike a b c.tokens)
    (columns : Except Error (List Column)) : c.assemble a columns = c.assemble b columns := by
  obtain ⟨hgraphs, h⟩ := readAlike_append.1 h
  obtain ⟨hcondition, hhaving⟩ := readAlike_append.1 h
  have hrestriction : c.restriction a = c.restriction b := option_mapM_congr fun phrase hmem =>
    Condition.Phrase.resolveHaving_congr (readAlike_flatMap.1 hhaving phrase hmem)
  have hgraph : ∀ graphs ∈ c.graphs, graphs.resolve a = graphs.resolve b := fun graphs hmem =>
    Graphs.Phrase.resolve_congr (readAlike_flatMap.1 hgraphs graphs (Option.mem_toList.2 hmem))
  have hwhere : ∀ condition ∈ c.condition, condition.resolve a = condition.resolve b :=
    fun condition hmem => Condition.Phrase.resolve_congr
      (readAlike_flatMap.1 hcondition condition (Option.mem_toList.2 hmem))
  -- the other clauses hold no tokens
  unfold assemble
  rw [hrestriction]
  split
  · rfl
  · rfl
  · next graphs condition hg hc => rw [hgraph graphs hg, hwhere condition hc]

mutual

theorem Query.Phrase.resolve_congr : (w : Query.Phrase) → ReadAlike a b w.tokens →
    w.resolve a = w.resolve b
  | ⟨none, clauses⟩, h => by
    rw [Query.Phrase.tokens] at h
    rw [Query.Phrase.resolve, Query.Phrase.resolve, Clauses.assemble_congr h]
  | ⟨some columns, clauses⟩, h => by
    rw [Query.Phrase.tokens] at h
    obtain ⟨hcolumns, hclauses⟩ := readAlike_append.1 h
    have hlisted := Column.Phrase.resolveAll_congr columns hcolumns [] 0
    have hread : Query.Phrase.readColumns a ⟨some columns, clauses⟩
        = Query.Phrase.readColumns b ⟨some columns, clauses⟩ := by
      cases columns with
      | nil => rfl
      | cons column rest => simp only [Query.Phrase.readColumns, hlisted]
    rw [Query.Phrase.resolve_eq_assemble, Query.Phrase.resolve_eq_assemble, hread,
      Clauses.assemble_congr hclauses]

theorem Column.Phrase.resolveAll_congr : (columns : List Column.Phrase) →
    ReadAlike a b (Column.Phrase.tokensAll columns) → ∀ seen next,
      Column.Phrase.resolveAll a seen next columns = Column.Phrase.resolveAll b seen next columns
  | [], _ => fun seen next => by rw [Column.Phrase.resolveAll, Column.Phrase.resolveAll]
  | .term t :: rest, h => by
    rw [Column.Phrase.tokensAll] at h
    obtain ⟨ht, hrest⟩ := readAlike_append.1 h
    have hread := Column.Phrase.resolveAll_congr rest hrest
    intro seen next
    cases t with
    | var name => simp only [Column.Phrase.resolveAll, hread]
    | const value =>
      rw [Column.Phrase.resolveAll, Column.Phrase.resolveAll, Constant.Phrase.resolve_congr ht,
        hread]
  | .count query :: rest, h | .subquery query :: rest, h => by
    rw [Column.Phrase.tokensAll] at h
    obtain ⟨hquery, hrest⟩ := readAlike_append.1 h
    have hread := Column.Phrase.resolveAll_congr rest hrest
    intro seen next
    rw [Column.Phrase.resolveAll, Column.Phrase.resolveAll, Query.Phrase.resolve_congr query hquery,
      hread]

end

theorem Select.resolve_congr {select : Select} (h : ReadAlike a b select.tokens) :
    select.resolve a = select.resolve b :=
  Query.Phrase.resolve_congr select.toQuery h

/-! ### Statements -/

def Statement.Phrase.tokens (w : Statement.Phrase) : List String :=
  w.subject.tokens ++ (w.predicate.tokens ++ w.object.tokens)

theorem Term.Phrase.node_congr {t : Term.Phrase} (h : ReadAlike a b t.tokens)
    (table : Placeholders) : t.node a table = t.node b table := by
  cases t with
  | var name => rfl
  | const value => rw [node, node, Constant.Phrase.resolve_congr h]

namespace Statements

theorem add_congr {w : Statement.Phrase} (h : ReadAlike a b w.tokens) (s : Statements) :
    add a s w = add b s w := by
  obtain ⟨hsubject, h⟩ := readAlike_append.1 h
  obtain ⟨hpredicate, hobject⟩ := readAlike_append.1 h
  have hsubject := Term.Phrase.node_congr hsubject
  have hpredicate := Term.Phrase.node_congr hpredicate
  have hobject := Term.Phrase.node_congr hobject
  simp only [add, hsubject, hpredicate, hobject]

theorem foldlM_congr {written : List Statement.Phrase}
    (h : ∀ w ∈ written, ReadAlike a b w.tokens) (s : Statements) :
    written.foldlM (add a) s = written.foldlM (add b) s := by
  induction written generalizing s with
  | nil => rfl
  | cons w rest ih =>
    obtain ⟨hw, hrest⟩ := List.forall_mem_cons.1 h
    rw [List.foldlM_cons, List.foldlM_cons, add_congr hw]
    exact bind_congr fun t => ih hrest t

theorem gather_congr {written : List Statement.Phrase}
    (h : ReadAlike a b (written.flatMap Statement.Phrase.tokens)) :
    gather a written = gather b written :=
  foldlM_congr (readAlike_flatMap.1 h) empty

end Statements
end TripleQuery
