import TripleQuery.Proofs.Iri.Grammar
import TripleQuery.Proofs.Iri.Host
import TripleQuery.Server

/-!
# Canonical addresses

The address of a graph on the server is made canonical by a change of its parts: the host of the
server alone becomes the authority, and the query goes. These parts are well formed, so the result
is an absolute IRI again, and it tells no more than scheme, path and fragment did
(`readdress_congr`). Addresses that the server does not recognize are left as they are, so two
addresses are of one graph if the server recognizes both (`canonical_eq_canonical_iff`).
-/

namespace TripleQuery

theorem Iri.isHost_of_host? {iri : Iri} {host : String} (h : iri.host? = some host) :
    IsHost host.toList := by
  obtain ⟨text, hauthority, rfl⟩ := Option.map_eq_some_iff.1 h
  obtain ⟨a, ha, rfl⟩ := (wellFormed_parts iri).authority text hauthority
  rw [String.toList_ofList, hostOf_text ha]
  exact ha.host

namespace Server
open Iri (Parts)

/-- The parts of the canonical address of a graph. -/
def readdressed (iri : Iri) (host : String) : Parts :=
  { iri.parts with authority := some host.toList, query := none }

variable {server : Server} {iri iri' : Iri} {name own : String}

theorem wellFormed_readdressed (hname : iri.host? = some name) (hown : Iri.IsHost own.toList) :
    (readdressed iri own).WellFormed := by
  have hparts := Iri.wellFormed_parts iri
  have hauthority : iri.parts.authority.isSome = true := by
    obtain ⟨text, htext, -⟩ := Option.map_eq_some_iff.1 hname
    rw [htext]
    rfl
  refine ⟨hparts.scheme, ?_, hparts.path, fun _ => hparts.rooted hauthority, ?_, ?_,
    hparts.fragment⟩
  · intro text htext
    cases htext
    exact ⟨⟨none, own.toList, none⟩, ⟨by simp, hown, by simp⟩, List.append_nil _⟩
  · intro hnone
    cases hnone
  · intro query hquery
    cases hquery

/-- The canonical address as an IRI. -/
def canonicalIri (hname : iri.host? = some name) (hown : Iri.IsHost own.toList) : Iri :=
  Iri.ofParts (readdressed iri own) (wellFormed_readdressed hname hown)

/-- User information, port and query do not count. -/
theorem readdress_congr (hscheme : iri.scheme = iri'.scheme)
    (hpath : iri.parts.path = iri'.parts.path)
    (hfragment : iri.parts.fragment = iri'.parts.fragment) (own : String) :
    readdress iri own = readdress iri' own := by
  have hscheme : iri.parts.scheme = iri'.parts.scheme := String.ofList_injective hscheme
  simp only [readdress, Parts.text, Iri.Hierarchy.text, hscheme, hpath, hfragment]

/-- Only the address with these very parts is what another one becomes. -/
theorem readdress_eq_text_iff (hname : iri.host? = some name) (hown : Iri.IsHost own.toList) :
    readdress iri own = iri'.text ↔ readdressed iri own = iri'.parts := by
  constructor
  · intro h
    have htext : (readdressed iri own).text = iri'.parts.text := by
      have hchars := congrArg String.toList h
      rwa [readdress, String.toList_ofList, Iri.text_eq_parts_text] at hchars
    exact Parts.text_injective (wellFormed_readdressed hname hown) (Iri.wellFormed_parts iri') htext
  · intro h
    have hchars : (readdress iri own).toList = iri'.text.toList := by
      rw [Iri.text_eq_parts_text, ← h, readdress, String.toList_ofList]
      rfl
    exact String.toList_injective hchars

/-! ### Which addresses are rewritten -/

theorem hostFor?_eq_some :
    server.hostFor? iri = some own ↔
      ∃ host, iri.host? = some host ∧ iri.scheme ∈ Iri.serverSchemes ∧ host ∈ server.hosts ∧
        server.uri.bind Iri.host? = some own := by
  unfold hostFor?
  cases iri.host? with
  | none => simp
  | some host =>
    by_cases h : iri.scheme ∈ Iri.serverSchemes ∧ host ∈ server.hosts
    · simp [h]
    · simp only [if_neg h, Option.some.injEq, exists_eq_left', reduceCtorEq, false_iff]
      exact fun ⟨hscheme, hhost, _⟩ => h ⟨hscheme, hhost⟩

theorem canonical_text (server : Server) (iri : Iri) :
    server.canonical iri.text = ((server.hostFor? iri).map (readdress iri)).getD iri.text := by
  simp only [canonical, Iri.parse_text]
  cases server.hostFor? iri with
  | none => rfl
  | some host => rfl

theorem canonical_of_mem (hscheme : iri.scheme ∈ Iri.serverSchemes) (hname : iri.host? = some name)
    (hmem : name ∈ server.hosts) (hown : server.uri.bind Iri.host? = some own) :
    server.canonical iri.text = readdress iri own := by
  have hhost := hostFor?_eq_some.2 ⟨name, hname, hscheme, hmem, hown⟩
  rw [canonical_text, hhost]
  rfl

theorem canonical_of_notMem (h : ∀ name ∈ server.hosts, iri.host? ≠ some name) :
    server.canonical iri.text = iri.text := by
  have hnone : server.hostFor? iri = none := by
    rw [Option.eq_none_iff_forall_ne_some]
    intro own hown
    obtain ⟨name, hname, -, hmem, -⟩ := hostFor?_eq_some.1 hown
    exact h name hmem hname
  rw [canonical_text, hnone]
  rfl

/-! ### Addresses of one graph -/

/-- An address of this server: it has one of the hosts under which the server is known, or it is in
the canonical form already. -/
def Recognizes (server : Server) (own : String) (iri : Iri) : Prop :=
  (∃ name ∈ server.hosts, iri.host? = some name) ∨
    iri.parts.authority = some own.toList ∧ iri.parts.query = none

instance (server : Server) (own : String) (iri : Iri) : Decidable (server.Recognizes own iri) :=
  inferInstanceAs (Decidable (_ ∨ _))

theorem Recognizes.exists_host (h : server.Recognizes own iri) : ∃ name, iri.host? = some name := by
  rcases h with ⟨name, -, hname⟩ | ⟨hauthority, -⟩
  · exact ⟨name, hname⟩
  · rw [Iri.host?, hauthority]
    exact ⟨_, rfl⟩

theorem isHost_of_uri (hown : server.uri.bind Iri.host? = some own) : Iri.IsHost own.toList := by
  obtain ⟨uri, -, hhost⟩ := Option.bind_eq_some_iff.1 hown
  exact Iri.isHost_of_host? hhost

theorem canonical_of_recognizes (hscheme : iri.scheme ∈ Iri.serverSchemes)
    (hown : server.uri.bind Iri.host? = some own) (h : server.Recognizes own iri) :
    server.canonical iri.text = readdress iri own := by
  by_cases hknown : ∃ name ∈ server.hosts, iri.host? = some name
  · obtain ⟨name, hmem, hname⟩ := hknown
    exact canonical_of_mem hscheme hname hmem hown
  · obtain ⟨name, hname⟩ := h.exists_host
    obtain ⟨hauthority, hquery⟩ := h.resolve_left hknown
    have hparts : readdressed iri own = iri.parts := by
      rw [readdressed, ← hauthority, ← hquery]
    rw [(readdress_eq_text_iff hname (isHost_of_uri hown)).2 hparts]
    exact canonical_of_notMem fun name hmem hname => hknown ⟨name, hmem, hname⟩

theorem canonical_of_not_recognizes (h : ¬ server.Recognizes own iri) :
    server.canonical iri.text = iri.text :=
  canonical_of_notMem fun name hmem hname => h (Or.inl ⟨name, hmem, hname⟩)

theorem readdress_ne_text (hown : server.uri.bind Iri.host? = some own)
    (h : server.Recognizes own iri) (h' : ¬ server.Recognizes own iri') :
    readdress iri own ≠ iri'.text := by
  intro heq
  obtain ⟨name, hname⟩ := h.exists_host
  have hparts := (readdress_eq_text_iff hname (isHost_of_uri hown)).1 heq
  refine h' (Or.inr ⟨?_, ?_⟩)
  · rw [← hparts, readdressed]
  · rw [← hparts, readdressed]

/-- Addresses with the same scheme, path and fragment have the same canonical form exactly if the
server recognizes both; one that it does not recognize is known by its own text only. -/
theorem canonical_eq_canonical_iff (hown : server.uri.bind Iri.host? = some own)
    (hserver : iri.scheme ∈ Iri.serverSchemes) (hscheme : iri.scheme = iri'.scheme)
    (hpath : iri.parts.path = iri'.parts.path)
    (hfragment : iri.parts.fragment = iri'.parts.fragment) :
    server.canonical iri.text = server.canonical iri'.text ↔
      server.Recognizes own iri ∧ server.Recognizes own iri' ∨ iri = iri' := by
  have hsame := readdress_congr hscheme hpath hfragment own
  have hserver' : iri'.scheme ∈ Iri.serverSchemes := by rwa [← hscheme]
  by_cases h : server.Recognizes own iri
  · rw [canonical_of_recognizes hserver hown h]
    by_cases h' : server.Recognizes own iri'
    · rw [canonical_of_recognizes hserver' hown h']
      exact iff_of_true hsame (Or.inl ⟨h, h'⟩)
    · rw [canonical_of_not_recognizes h']
      refine iff_of_false (readdress_ne_text hown h h') ?_
      rintro (⟨-, hrec⟩ | rfl)
      · exact h' hrec
      · exact h' h
  · rw [canonical_of_not_recognizes h]
    by_cases h' : server.Recognizes own iri'
    · rw [canonical_of_recognizes hserver' hown h']
      refine iff_of_false (readdress_ne_text hown h' h).symm ?_
      rintro (⟨hrec, -⟩ | rfl)
      · exact h hrec
      · exact h h'
    · rw [canonical_of_not_recognizes h']
      constructor
      · intro htext
        exact Or.inr (Iri.text_injective htext)
      · rintro (⟨hrec, -⟩ | rfl)
        · exact absurd hrec h
        · rfl

/-- The canonical address of a graph is an IRI whenever the address of the graph is one. -/
theorem exists_iri_canonical (server : Server) (iri : Iri) :
    ∃ canonical : Iri, canonical.text = server.canonical iri.text := by
  rw [canonical_text]
  cases hhost : server.hostFor? iri with
  | none => exact ⟨iri, rfl⟩
  | some own =>
    obtain ⟨name, hname, -, -, hown⟩ := hostFor?_eq_some.1 hhost
    exact ⟨canonicalIri hname (isHost_of_uri hown), rfl⟩

/-- A server that is also known as the local host. -/
def known : Server := ⟨["localhost"], (Iri.parse "rmi://db/s").toOption⟩

example : known.canonical "rmi://u@localhost:1/s?q#g" = "rmi://db/s#g" := by decide +kernel

end Server

theorem exists_iri_canonicalGraph (server : Option Server) (iri : Iri) :
    ∃ canonical : Iri, canonical.text = canonicalGraph server iri.text := by
  cases server with
  | none => exact ⟨iri, rfl⟩
  | some server => exact server.exists_iri_canonical iri

end TripleQuery
