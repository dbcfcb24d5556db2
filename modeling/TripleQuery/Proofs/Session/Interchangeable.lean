import TripleQuery.Proofs.Expansion.ReadAlike
import TripleQuery.Proofs.Session.OneCall

/-!
# Labels that are not asked for

Whatever can be read or executed comes out the same under two tables of prefixes that agree on the
labels for which its tokens ask. So a label can be given or changed without any effect on a text
that does not ask for it, even if there are addresses with a slash behind a scheme of that name
(`Prefixes.interchangeable_of_asks`).
-/

namespace TripleQuery

def Source.Phrase.tokens : Source.Phrase → List String
  | statements written => written.flatMap Statement.Phrase.tokens
  | query written => (Select.statements written).tokens
  | graph token => [token]

/-- The tokens of a command. The name space of a definition is an address of its own. -/
def Command.Phrase.tokens : Command.Phrase → List String
  | select q => q.tokens
  | define _ _ => []
  | change _ source graph => graph :: source.tokens
  | create graph type => graph :: type.toList
  | drop graph => [graph]

namespace Session

variable {α β : Type} {s t : Session}

/-! ### Actions in two sessions -/

/-- What an action gives in two sessions is the same, whatever it does to them. -/
def SameOutcome (s t : Session) (x : Action α) : Prop := (perform x s).1 = (perform x t).1

theorem sameOutcome_view {read : Session → Except Error α} (h : read s = read t) :
    SameOutcome s t (view read) := h

theorem SameOutcome.map {x : Action α} (h : SameOutcome s t x) (g : α → β) :
    SameOutcome s t (x >>= fun a => pure (g a)) := by
  rw [SameOutcome, perform_map, perform_map]
  exact congrArg (Except.map g) h

theorem SameOutcome.bind {x : Action α} {f : α → Action β} (hreads : Settles x fun _ s => s)
    (hx : SameOutcome s t x) (hf : ∀ a, SameOutcome s t (f a)) : SameOutcome s t (x >>= f) := by
  -- after the first action the sessions are still the ones of the start
  have hs := perform_of_reads hreads s
  have ht := perform_of_reads hreads t
  have hsame : (perform x t).1 = (perform x s).1 := Eq.symm hx
  rw [hsame] at ht
  unfold SameOutcome
  cases hgives : (perform x s).1 with
  | error e =>
    rw [hgives] at hs ht
    rw [perform_bind_error hs, perform_bind_error ht]
  | ok a =>
    rw [hgives] at hs ht
    rw [perform_bind_ok hs, perform_bind_ok ht]
    exact hf a

/-! ### Commands in two sessions -/

theorem sameOutcome_select {written : Select}
    (h : s.prefixes.ReadAlike t.prefixes written.tokens) : SameOutcome s t (select written) :=
  SameOutcome.bind (settles_view fun _ => rfl) (sameOutcome_view (Select.resolve_congr h))
    fun _ => rfl

theorem sameOutcome_graphAddress {token : String} (hserver : s.server = t.server)
    (h : s.prefixes.resolve token = t.prefixes.resolve token) :
    SameOutcome s t (graphAddress token) :=
  sameOutcome_view (by rw [h, hserver])

theorem sameOutcome_graphType {type : Option String}
    (h : s.prefixes.ReadAlike t.prefixes type.toList) : SameOutcome s t (graphType type) := by
  cases type with
  | none => rfl
  | some token => exact sameOutcome_view (by rw [h token (List.mem_singleton_self token)])

theorem sameOutcome_source (kind : Change) {written : Source.Phrase}
    (h : s.prefixes.ReadAlike t.prefixes written.tokens) :
    SameOutcome s t (source kind written) := by
  cases written with
  | statements written =>
    rw [SameOutcome, perform_source_statements, perform_source_statements,
      Statements.gather_congr h]
  | query written => exact (sameOutcome_select h).map Source.query
  | graph token => rfl

theorem sameOutcome_execute {command : Command.Phrase} (hserver : s.server = t.server)
    (h : s.prefixes.ReadAlike t.prefixes command.tokens) : SameOutcome s t (execute command) := by
  cases command with
  | select query => exact (sameOutcome_select h).map Command.query
  | define label target =>
    rw [SameOutcome, perform_execute_define, perform_execute_define]
    cases readReference target <;> rfl
  | change kind written token =>
    obtain ⟨htoken, hsource⟩ := List.forall_mem_cons.1 h
    exact (sameOutcome_graphAddress hserver htoken).bind (settles_graphAddress token)
      fun graph => (sameOutcome_source kind hsource).map (Command.change kind graph)
  | create token type =>
    obtain ⟨htoken, htype⟩ := List.forall_mem_cons.1 h
    exact (sameOutcome_graphType htype).bind (settles_graphType type)
      fun type => (sameOutcome_graphAddress hserver htoken).map (Command.create · type)
  | drop token =>
    have htoken := h token (List.mem_singleton_self token)
    exact (sameOutcome_graphAddress hserver htoken).map Command.drop

end Session

namespace Prefixes

variable {a b : Prefixes}

/-- With one table in place of the other, everything with tokens in the scope has the same value or
the same error: queries, conditions, restrictions, graphs, statements, and commands in sessions with
the same server. -/
structure Interchangeable (a b : Prefixes) (scope : List String → Prop) : Prop where
  select : ∀ q : Select, scope q.tokens → q.resolve a = q.resolve b
  condition : ∀ {level : Condition.Level} (c : Condition.Phrase level), scope c.tokens →
    c.resolve a = c.resolve b
  having : ∀ {level : Condition.Level} (c : Condition.Phrase level), scope c.tokens →
    c.resolveHaving a = c.resolveHaving b
  graphs : ∀ {level : Graphs.Level} (g : Graphs.Phrase level), scope g.tokens →
    g.resolve a = g.resolve b
  statements : ∀ written : List Statement.Phrase, scope (written.flatMap Statement.Phrase.tokens) →
    Statements.gather a written = Statements.gather b written
  execute : ∀ (command : Command.Phrase) (s t : Session), s.prefixes = a → t.prefixes = b →
    s.server = t.server → scope command.tokens →
    Session.SameOutcome s t (Session.execute command)

theorem interchangeable_of_readAlike {scope : List String → Prop}
    (h : ∀ tokens, scope tokens → ReadAlike a b tokens) : a.Interchangeable b scope where
  select _ hq := Select.resolve_congr (h _ hq)
  condition _ hc := Condition.Phrase.resolve_congr (h _ hc)
  having _ hc := Condition.Phrase.resolveHaving_congr (h _ hc)
  graphs _ hg := Graphs.Phrase.resolve_congr (h _ hg)
  statements _ hw := Statements.gather_congr (h _ hw)
  execute command s t hs ht hserver hcommand := by
    subst hs ht
    exact Session.sameOutcome_execute hserver (h _ hcommand)

/-- Two tables are interchangeable where they agree on the labels asked for. So a label makes no
difference where it is not asked for. -/
theorem interchangeable_of_asks (a b : Prefixes) :
    a.Interchangeable b (fun tokens => ∀ label, Asks tokens label → a.find? label = b.find? label) ∧
    ∀ label ns, (a.insert label ns).Interchangeable a fun tokens => ¬ Asks tokens label := by
  refine ⟨interchangeable_of_readAlike fun tokens => readAlike_of_agree, fun label ns => ?_⟩
  refine interchangeable_of_readAlike fun tokens hunasked => ?_
  refine readAlike_of_agree fun other hasks => ?_
  have hne : other ≠ label := by
    rintro rfl
    exact hunasked hasks
  rw [find?_insert, if_neg hne]

/-- The titles of the things in a graph: `xsd` is asked for, `http` is the scheme of addresses. -/
def titles : Query.Phrase where
  columns := none
  clauses := .ofPattern "http://e/g" ⟨.var "x", .const (.resource "urn:title"),
    .const (.literal ⟨[.plain "T"], some "xsd:string"⟩), none⟩

/-- A table with `xsd` as in `typesTable`, but with another label beside it. -/
def schemesTable : Prefixes := ofList [("http", hostSpace), ("xsd", typesSpace)]

theorem interchangeable_titles :
    Asks titles.tokens "xsd" ∧ ¬ Asks titles.tokens "http" ∧
      (∀ label, Asks titles.tokens label → typesTable.find? label = schemesTable.find? label) ∧
      (Select.query titles).resolve typesTable = (Select.query titles).resolve schemesTable ∧
      (Select.query titles).resolve (typesTable.insert "http" hostSpace)
        = (Select.query titles).resolve typesTable := by
  obtain ⟨hagreeing, hinserted⟩ := interchangeable_of_asks typesTable schemesTable
  have hunasked : ¬ Asks titles.tokens "http" := by decide +kernel
  have hlookups : ∀ token ∈ titles.tokens, ∀ iri ∈ (Iri.parse token).toOption,
      iri.afterScheme.head? ≠ some '/' →
        typesTable.find? iri.scheme = schemesTable.find? iri.scheme := by decide +kernel
  have hagree : ∀ label, Asks titles.tokens label →
      typesTable.find? label = schemesTable.find? label := by
    intro label hasks
    obtain ⟨token, hmem, iri, hiri, rfl, hslash⟩ := asks_iff.1 hasks
    exact hlookups token hmem iri hiri hslash
  exact ⟨by decide +kernel, hunasked, hagree, hagreeing.select (.query titles) hagree,
    (hinserted "http" hostSpace).select (.query titles) hunasked⟩

end Prefixes
end TripleQuery
