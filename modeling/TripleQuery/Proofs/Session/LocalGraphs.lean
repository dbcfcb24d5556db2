import TripleQuery.Proofs.Server.Canonical
import TripleQuery.Proofs.Session.Accepted
import TripleQuery.Proofs.WellFormed

/-!
# Graphs of the local server

Commands that are accepted on graphs of one server, and when these are the same graph. Addresses
that tell the same scheme, path and fragment lead to one graph if the server recognizes them
(`Session.graph_eq_graph_iff`). It does not recognize its own host next to user information, a port
or a query, unless that host is among those under which it is known
(`Session.two_graphs_of_own_host`).
-/

namespace TripleQuery

/-- The token of the graph that a command changes. -/
def Command.Phrase.graphToken? : Command.Phrase → Option String
  | .change _ _ token | .create token _ | .drop token => some token
  | .select _ | .define .. => none

def Command.graph? : Command → Option String
  | .change _ graph _ | .create graph _ | .drop graph => some graph
  | .query _ | .define .. => none

namespace Session

variable {s s' : Session} {written written' : Command.Phrase} {iri iri' : Iri}
  {graph graph' : String}

/-- The session accepts a command on a graph: its token stands for an address, and the command that
comes out is about a graph. -/
structure Targets (s : Session) (written : Command.Phrase) (iri : Iri) (graph : String) : Prop where
  token : ∃ token, written.graphToken? = some token ∧ s.prefixes.resolve token = .ok iri
  accepted : ∃ command after,
    perform (execute written) s = (.ok command, after) ∧ command.graph? = some graph

theorem targets_iff :
    s.Targets written iri graph ↔
      (written.graphToken?.bind fun token => (s.prefixes.resolve token).toOption) = some iri ∧
        (perform (execute written) s).1.toOption.bind Command.graph? = some graph := by
  constructor
  · rintro ⟨⟨token, htoken, hiri⟩, command, after, hexecute, hgraph⟩
    rw [htoken, hexecute]
    exact ⟨toOption_eq_some.2 hiri, hgraph⟩
  · rintro ⟨htoken, haccepted⟩
    obtain ⟨token, htoken, hiri⟩ := Option.bind_eq_some_iff.1 htoken
    obtain ⟨command, hcommand, hgraph⟩ := Option.bind_eq_some_iff.1 haccepted
    refine ⟨⟨token, htoken, toOption_eq_some.1 hiri⟩, command, (perform (execute written) s).2,
      ?_, hgraph⟩
    exact Prod.ext (toOption_eq_some.1 hcommand) rfl

instance (s : Session) (written : Command.Phrase) (iri : Iri) (graph : String) :
    Decidable (s.Targets written iri graph) :=
  decidable_of_iff _ targets_iff.symm

theorem Targets.givesGraph {token : String} (h : s.Targets written iri graph)
    (htoken : written.graphToken? = some token) :
    GivesGraph s.prefixes s.server token graph := by
  obtain ⟨command, after, hexecute, hgraph⟩ := h.accepted
  have hgives := gives_of_execute hexecute
  cases hgives with
  | select | define => cases hgraph
  | change hgives | create hgives | drop hgives =>
    cases hgraph
    cases htoken
    exact hgives
  | createTyped _ hgives =>
    cases hgraph
    cases htoken
    exact hgives

theorem Targets.graph_eq (h : s.Targets written iri graph) :
    graph = canonicalGraph s.server iri.text := by
  obtain ⟨token, htoken, hiri⟩ := h.token
  obtain ⟨read, hread, hgraph⟩ := h.givesGraph htoken
  rw [hiri] at hread
  cases hread
  exact hgraph

/-- Accepted commands on a server change the same graph, with the host of the server and without
user information, port and query, if it recognizes both addresses. A graph with an address that it
does not recognize keeps that address, so the other command changes the same graph only by the
same address. -/
theorem graph_eq_graph_iff {server : Server} {own : String} (hserver : s.server = some server)
    (hserver' : s'.server = some server) (hown : server.uri.bind Iri.host? = some own)
    (h : s.Targets written iri graph) (h' : s'.Targets written' iri' graph')
    (hservers : iri.scheme ∈ Iri.serverSchemes) (hscheme : iri.scheme = iri'.scheme)
    (hpath : iri.parts.path = iri'.parts.path)
    (hfragment : iri.parts.fragment = iri'.parts.fragment) :
    (graph = graph' ↔ server.Recognizes own iri ∧ server.Recognizes own iri' ∨ iri = iri') ∧
      (server.Recognizes own iri → graph = Server.readdress iri own) ∧
      (¬ server.Recognizes own iri → graph = iri.text) := by
  have hgraph : graph = server.canonical iri.text := by
    rw [h.graph_eq, hserver]
    rfl
  have hgraph' : graph' = server.canonical iri'.text := by
    rw [h'.graph_eq, hserver']
    rfl
  refine ⟨?_, fun hrec => ?_, fun hrec => ?_⟩
  · rw [hgraph, hgraph']
    exact Server.canonical_eq_canonical_iff hown hservers hscheme hpath hfragment
  · rw [hgraph]
    exact Server.canonical_of_recognizes hservers hown hrec
  · rw [hgraph]
    exact Server.canonical_of_not_recognizes hrec

def atHome : Session := .start .empty (some .known)

def homeInsertion : Command.Phrase :=
  .change .insert (.statements [⟨.const (.resource "urn:a"), .const (.resource "urn:p"),
    .var "x"⟩]) "rmi://u@localhost:1/s?q#g"

def knownAddress : Iri :=
  have hreference : IsReference "rmi://u@localhost:1/s?q#g" := by decide +kernel
  hreference.iri

def ownAddress : Iri :=
  have hreference : IsReference "rmi://db/s#g" := by decide +kernel
  hreference.iri

theorem graph_eq_graph_homeInsertion :
    atHome.Targets homeInsertion knownAddress "rmi://db/s#g" ∧
      atHome.Targets (.create "rmi://db/s#g" none) ownAddress "rmi://db/s#g" ∧
      Server.known.Recognizes "db" knownAddress ∧ Server.known.Recognizes "db" ownAddress ∧
      "rmi://db/s#g" = Server.readdress knownAddress "db" := by
  have h : atHome.Targets homeInsertion knownAddress "rmi://db/s#g" := by decide +kernel
  have h' : atHome.Targets (.create "rmi://db/s#g" none) ownAddress "rmi://db/s#g" := by
    decide +kernel
  have hserver : Server.known.uri.bind Iri.host? = some "db" := by decide +kernel
  have hsame := graph_eq_graph_iff rfl rfl hserver h h' (by decide +kernel) (by decide +kernel)
    (by decide +kernel) (by decide +kernel)
  have hknown : Server.known.Recognizes "db" knownAddress := by decide +kernel
  have hown : Server.known.Recognizes "db" ownAddress := by decide +kernel
  exact ⟨h, h', hknown, hown, hsame.2.1 hknown⟩

def ownPortAddress : Iri :=
  have hreference : IsReference "rmi://db:1099/s#g" := by decide +kernel
  hreference.iri

/-- Two commands on one graph, each by a name of the server, are about two graphs. -/
theorem two_graphs_of_own_host :
    atHome.Targets (.drop "rmi://u@localhost:1/s?q#g") knownAddress "rmi://db/s#g" ∧
      atHome.Targets (.drop "rmi://db:1099/s#g") ownPortAddress "rmi://db:1099/s#g" ∧
      knownAddress.scheme = "rmi" ∧ ownPortAddress.scheme = "rmi" ∧
      knownAddress.parts.path = ownPortAddress.parts.path ∧
      knownAddress.parts.fragment = ownPortAddress.parts.fragment ∧
      knownAddress.host? = some "localhost" ∧ "localhost" ∈ Server.known.hosts ∧
      ownPortAddress.host? = some "db" ∧ Server.known.uri.bind Iri.host? = some "db" ∧
      "rmi://db/s#g" ≠ "rmi://db:1099/s#g" := by
  decide +kernel

end Session
end TripleQuery
