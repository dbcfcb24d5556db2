import TripleQuery.Proofs.Session.Perform

/-!
# Accepted commands

Which commands a session accepts, and what it makes of them, told by the prefixes and the server
alone: a relation between a written command and a command, with one rule for each form. A command is
accepted with a result exactly if the relation gives it that result (`execute_eq_ok_iff`).
-/

namespace TripleQuery

/-- The token of a graph stands for an IRI, and the graph is the one form of that IRI. -/
def GivesGraph (prefixes : Prefixes) (server : Option Server) (token graph : String) : Prop :=
  ∃ iri, prefixes.resolve token = .ok iri ∧ graph = canonicalGraph server iri.text

/-- What a change by a written source has as its source. -/
inductive Source.Phrase.Gives (prefixes : Prefixes) (kind : Change) :
    Source.Phrase → Source → Prop
  | statements {written : List Statement.Phrase} {gathered : Statements} :
      Statements.gather prefixes written = .ok gathered → kind.permit gathered = .ok () →
      Gives prefixes kind (.statements written) (.statements gathered.triples)
  | query {written : StatementQuery} {query : Query} :
      (Select.statements written).resolve prefixes = .ok query →
      Gives prefixes kind (.query written) (.query query)

/-- What a written command stands for under some prefixes and on some server. -/
inductive Command.Phrase.Gives (prefixes : Prefixes) (server : Option Server) :
    Command.Phrase → Command → Prop
  | select {written : Query.Phrase} {query : Query} :
      (Select.query written).resolve prefixes = .ok query →
      Gives prefixes server (.select written) (.query query)
  | define {label target : String} {ns : Iri} : readReference target = .ok ns →
      Gives prefixes server (.define label target) (.define label ns)
  | change {kind : Change} {written : Source.Phrase} {token graph : String} {source : Source} :
      GivesGraph prefixes server token graph → written.Gives prefixes kind source →
      Gives prefixes server (.change kind written token) (.change kind graph source)
  | create {token graph : String} : GivesGraph prefixes server token graph →
      Gives prefixes server (.create token none) (.create graph Vocabulary.graphType)
  | createTyped {token graph typeToken : String} {type : Iri} :
      prefixes.resolve typeToken = .ok type → GivesGraph prefixes server token graph →
      Gives prefixes server (.create token (some typeToken)) (.create graph type.text)
  | drop {token graph : String} : GivesGraph prefixes server token graph →
      Gives prefixes server (.drop token) (.drop graph)

namespace Session

variable {α β : Type} {s after : Session}

/-! ### The actions of a command -/

theorem perform_view_eq_ok {read : Session → Except Error α} {a : α} :
    perform (view read) s = (.ok a, after) ↔ read s = .ok a ∧ s = after := by
  rw [perform_view, Prod.mk.injEq]

theorem perform_pure_eq_ok {a b : α} :
    perform (pure a) s = (.ok b, after) ↔ a = b ∧ s = after := by
  rw [perform_pure, Prod.mk.injEq, Except.ok.injEq]

theorem perform_map_eq_ok {x : Action α} {g : α → β} {b : β} :
    perform (x >>= fun a => pure (g a)) s = (.ok b, after) ↔
      ∃ a, perform x s = (.ok a, after) ∧ g a = b := by
  constructor
  · intro h
    obtain ⟨a, middle, hx, h⟩ := perform_bind_eq_ok.1 h
    obtain ⟨rfl, rfl⟩ := perform_pure_eq_ok.1 h
    exact ⟨a, hx, rfl⟩
  · rintro ⟨a, hx, rfl⟩
    exact perform_bind_eq_ok.2 ⟨a, after, hx, rfl⟩

theorem perform_graphAddress_eq_ok {token graph : String} :
    perform (graphAddress token) s = (.ok graph, after) ↔
      GivesGraph s.prefixes s.server token graph ∧ s = after := by
  rw [graphAddress, perform_view_eq_ok, map_eq_ok, GivesGraph]
  simp only [eq_comm]

theorem perform_graphType_eq_ok {token : String} {type : String} :
    perform (graphType (some token)) s = (.ok type, after) ↔
      (∃ iri, s.prefixes.resolve token = .ok iri ∧ iri.text = type) ∧ s = after := by
  rw [graphType, perform_view_eq_ok, map_eq_ok]

theorem perform_select_eq_ok {written : Select} {query : Query} :
    perform (select written) s = (.ok query, after) ↔
      written.resolve s.prefixes = .ok query ∧ { s with lastQuery := some query } = after := by
  have hkeep : ∀ q, perform (keep q) s = (.ok q, { s with lastQuery := some q }) := fun _ => rfl
  rw [select, perform_bind_eq_ok]
  constructor
  · rintro ⟨q, middle, hview, h⟩
    obtain ⟨hread, rfl⟩ := perform_view_eq_ok.1 hview
    rw [hkeep] at h
    cases h
    exact ⟨hread, rfl⟩
  · rintro ⟨hread, rfl⟩
    exact ⟨query, s, perform_view_eq_ok.2 ⟨hread, rfl⟩, hkeep query⟩

theorem perform_source_statements (kind : Change) (written : List Statement.Phrase) (s : Session) :
    perform (Session.source kind (.statements written)) s =
      ((Statements.gather s.prefixes written >>= fun statements =>
        ((kind.permit statements).mapError .query).map fun _ => .statements statements.triples),
        s) := by
  rw [source, perform_view_bind]
  cases Statements.gather s.prefixes written with
  | error e => rfl
  | ok statements =>
    simp only [perform_view_bind]
    cases hpermit : (kind.permit statements).mapError Error.query with
    | error e => simp [bind, Except.bind, hpermit, Except.map]
    | ok permitted => simp [bind, Except.bind, hpermit, Except.map]

theorem perform_source_eq_ok {kind : Change} {written : Source.Phrase} {source : Source} :
    (∃ after, perform (Session.source kind written) s = (.ok source, after)) ↔
      written.Gives s.prefixes kind source := by
  constructor
  · rintro ⟨after, h⟩
    cases written with
    | statements written =>
      rw [perform_source_statements] at h
      obtain ⟨gathered, hgather, h⟩ := bind_eq_ok.1 (congrArg Prod.fst h)
      obtain ⟨_, hpermit, rfl⟩ := map_eq_ok.1 h
      exact .statements hgather (mapError_eq_ok.1 hpermit)
    | query written =>
      obtain ⟨query, hselect, rfl⟩ := perform_map_eq_ok.1 h
      obtain ⟨hread, -⟩ := perform_select_eq_ok.1 hselect
      exact .query hread
    | graph token => cases congrArg Prod.fst h
  · intro h
    cases h with
    | statements hgather hpermit =>
      have hpermit := mapError_eq_ok (f := Error.query).2 hpermit
      refine ⟨s, ?_⟩
      rw [perform_source_statements, hgather]
      exact Prod.ext (map_eq_ok.2 ⟨(), hpermit, rfl⟩) rfl
    | @query _ query hread =>
      refine ⟨{ s with lastQuery := some query }, perform_map_eq_ok.2 ⟨query, ?_, rfl⟩⟩
      exact perform_select_eq_ok.2 ⟨hread, rfl⟩

/-! ### Commands -/

theorem gives_of_execute {written : Command.Phrase} {command : Command}
    (h : perform (execute written) s = (.ok command, after)) :
    written.Gives s.prefixes s.server command := by
  cases written with
  | select query =>
    obtain ⟨q, hselect, rfl⟩ := perform_map_eq_ok.1 h
    obtain ⟨hread, -⟩ := perform_select_eq_ok.1 hselect
    exact .select hread
  | define label target =>
    obtain ⟨ns, middle, hview, h⟩ := perform_bind_eq_ok.1 h
    obtain ⟨hread, rfl⟩ := perform_view_eq_ok.1 hview
    obtain ⟨_, -, rfl⟩ := perform_map_eq_ok.1 h
    exact .define hread
  | change kind source token =>
    obtain ⟨graph, middle, haddress, h⟩ := perform_bind_eq_ok.1 h
    obtain ⟨hgraph, rfl⟩ := perform_graphAddress_eq_ok.1 haddress
    obtain ⟨result, hsource, rfl⟩ := perform_map_eq_ok.1 h
    exact .change hgraph (perform_source_eq_ok.1 ⟨after, hsource⟩)
  | create token type =>
    obtain ⟨name, middle, htype, h⟩ := perform_bind_eq_ok.1 h
    obtain ⟨graph, haddress, rfl⟩ := perform_map_eq_ok.1 h
    obtain ⟨hgraph, -⟩ := perform_graphAddress_eq_ok.1 haddress
    cases type with
    | none =>
      obtain ⟨rfl, rfl⟩ := perform_pure_eq_ok.1 htype
      exact .create hgraph
    | some typeToken =>
      obtain ⟨⟨iri, hiri, rfl⟩, rfl⟩ := perform_graphType_eq_ok.1 htype
      exact .createTyped hiri hgraph
  | drop token =>
    obtain ⟨graph, haddress, rfl⟩ := perform_map_eq_ok.1 h
    obtain ⟨hgraph, -⟩ := perform_graphAddress_eq_ok.1 haddress
    exact .drop hgraph

theorem exists_execute_of_gives {written : Command.Phrase} {command : Command}
    (h : written.Gives s.prefixes s.server command) :
    ∃ after, perform (execute written) s = (.ok command, after) := by
  cases h with
  | select hread =>
    exact ⟨_, perform_map_eq_ok.2 ⟨_, perform_select_eq_ok.2 ⟨hread, rfl⟩, rfl⟩⟩
  | define hread =>
    exact ⟨_, perform_bind_eq_ok.2 ⟨_, s, perform_view_eq_ok.2 ⟨hread, rfl⟩,
      perform_map_eq_ok.2 ⟨(), rfl, rfl⟩⟩⟩
  | change hgraph hsource =>
    have hgraph := perform_graphAddress_eq_ok.2 ⟨hgraph, rfl⟩
    obtain ⟨after, hsource⟩ := perform_source_eq_ok.2 hsource
    exact ⟨after, perform_bind_eq_ok.2 ⟨_, s, hgraph, perform_map_eq_ok.2 ⟨_, hsource, rfl⟩⟩⟩
  | create hgraph =>
    have hgraph := perform_graphAddress_eq_ok.2 ⟨hgraph, rfl⟩
    have htype : perform (graphType none) s = (.ok Vocabulary.graphType, s) := rfl
    exact ⟨s, perform_bind_eq_ok.2 ⟨_, s, htype, perform_map_eq_ok.2 ⟨_, hgraph, rfl⟩⟩⟩
  | createTyped htype hgraph =>
    have hgraph := perform_graphAddress_eq_ok.2 ⟨hgraph, rfl⟩
    have htype := perform_graphType_eq_ok.2 ⟨⟨_, htype, rfl⟩, rfl⟩
    exact ⟨s, perform_bind_eq_ok.2 ⟨_, s, htype, perform_map_eq_ok.2 ⟨_, hgraph, rfl⟩⟩⟩
  | drop hgraph =>
    have hgraph := perform_graphAddress_eq_ok.2 ⟨hgraph, rfl⟩
    exact ⟨s, perform_map_eq_ok.2 ⟨_, hgraph, rfl⟩⟩

theorem execute_eq_ok_iff {written : Command.Phrase} {command : Command} :
    (∃ after, perform (execute written) s = (.ok command, after)) ↔
      written.Gives s.prefixes s.server command :=
  ⟨fun ⟨_, h⟩ => gives_of_execute h, exists_execute_of_gives⟩

end Session
end TripleQuery
