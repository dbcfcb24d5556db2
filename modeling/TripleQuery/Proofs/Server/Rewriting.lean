import TripleQuery.Proofs.Server.Canonical
import TripleQuery.Proofs.WellFormed

/-!
# Rewriting of addresses

What becomes of any text that is given as the address of a graph. The address of a graph that a
server serves (`Server.Serves`) is written anew from its scheme, path and fragment and the host of
the server, and is an address with just these parts. Any other text stays as it is, and what was
rewritten is not changed again (`canonicalGraph_eq`).
-/

namespace TripleQuery

namespace Iri

/-- The authority of an address has this host, between its user information and its port. -/
def HasHost (iri : Iri) (host : List Char) : Prop :=
  ∃ a : Authority, a.WellFormed ∧ iri.parts.authority = some a.text ∧ a.host = host

theorem hasHost_iff {iri : Iri} {host : String} :
    iri.HasHost host.toList ↔ iri.host? = some host := by
  constructor
  · rintro ⟨a, ha, hauthority, hhost⟩
    rw [host?, hauthority, Option.map_some, hostOf_text ha, hhost, String.ofList_toList]
  · intro h
    obtain ⟨text, hauthority, rfl⟩ := Option.map_eq_some_iff.1 h
    obtain ⟨a, ha, rfl⟩ := (wellFormed_parts iri).authority text hauthority
    exact ⟨a, ha, hauthority, by rw [hostOf_text ha, String.toList_ofList]⟩

def shownFragment (iri : Iri) : String :=
  match iri.parts.fragment with
  | none => ""
  | some fragment => "#" ++ String.ofList fragment

end Iri

namespace Server

variable {server : Server} {graph own : String} {iri : Iri}

/-- The text is the address of a graph on the server: it has one of the two schemes and a host under
which the server is known, and the server's own address has the host `own`. -/
structure Serves (server : Server) (graph : String) (iri : Iri) (own : String) : Prop where
  reads : Iri.parse graph = .ok iri
  scheme : iri.scheme = "rmi" ∨ iri.scheme = "soap"
  known : ∃ name ∈ server.hosts, iri.HasHost name.toList
  own : ∃ uri, server.uri = some uri ∧ uri.HasHost own.toList

theorem serves_iff :
    server.Serves graph iri own ↔ Iri.parse graph = .ok iri ∧ server.hostFor? iri = some own := by
  have hschemes : iri.scheme ∈ Iri.serverSchemes ↔ iri.scheme = "rmi" ∨ iri.scheme = "soap" := by
    simp [Iri.serverSchemes]
  constructor
  · rintro ⟨hreads, hscheme, ⟨name, hmem, hname⟩, uri, huri, hown⟩
    have hhost := Iri.hasHost_iff.1 hname
    refine ⟨hreads, hostFor?_eq_some.2 ⟨name, hhost, hschemes.2 hscheme, hmem, ?_⟩⟩
    rw [huri]
    exact Iri.hasHost_iff.1 hown
  · rintro ⟨hreads, hhost⟩
    obtain ⟨name, hname, hscheme, hmem, hown⟩ := hostFor?_eq_some.1 hhost
    obtain ⟨uri, huri, hown⟩ := Option.bind_eq_some_iff.1 hown
    exact ⟨hreads, hschemes.1 hscheme, ⟨name, hmem, Iri.hasHost_iff.2 hname⟩, uri, huri,
      Iri.hasHost_iff.2 hown⟩

theorem readdress_eq (iri : Iri) (own : String) :
    readdress iri own
      = iri.scheme ++ "://" ++ own ++ String.ofList iri.parts.path ++ iri.shownFragment := by
  apply String.toList_injective
  have hfragment : iri.shownFragment.toList = Iri.announced ['#'] iri.parts.fragment := by
    unfold Iri.shownFragment
    cases iri.parts.fragment <;> simp [Iri.announced]
  simp [readdress, Iri.scheme, Iri.Parts.text, Iri.Hierarchy.text, hfragment, Iri.announced]

theorem Serves.canonical_eq (h : server.Serves graph iri own) :
    server.canonical graph = readdress iri own := by
  obtain ⟨hreads, hhost⟩ := serves_iff.1 h
  rw [← Iri.text_of_parse hreads, canonical_text, hhost]
  rfl

theorem canonical_of_not_serves (h : ∀ iri own, ¬ server.Serves graph iri own) :
    server.canonical graph = graph := by
  unfold canonical
  split
  · rfl
  · next iri hreads =>
    split
    · rfl
    · next own hhost => exact absurd (serves_iff.2 ⟨hreads, hhost⟩) (h iri own)

/-- The canonical address of a graph on the server reads as the parts of which it was made. -/
theorem Serves.exists_iri (h : server.Serves graph iri own) :
    ∃ result : Iri, Iri.parse (server.canonical graph) = .ok result ∧
      result.parts = readdressed iri own := by
  obtain ⟨-, hhost⟩ := serves_iff.1 h
  obtain ⟨name, hname, -, -, hown⟩ := hostFor?_eq_some.1 hhost
  refine ⟨canonicalIri hname (isHost_of_uri hown), ?_, rfl⟩
  rw [h.canonical_eq]
  exact Iri.parse_text (canonicalIri hname (isHost_of_uri hown))

theorem canonical_canonical (server : Server) (graph : String) :
    server.canonical (server.canonical graph) = server.canonical graph := by
  by_cases h : ∃ iri own, server.Serves graph iri own
  · obtain ⟨iri, own, h⟩ := h
    obtain ⟨-, hhost⟩ := serves_iff.1 h
    obtain ⟨-, -, hscheme, -, hown⟩ := hostFor?_eq_some.1 hhost
    obtain ⟨result, hreads, hparts⟩ := h.exists_iri
    have hserver : result.scheme = iri.scheme := by
      rw [Iri.scheme, hparts]
      rfl
    -- the server recognizes the result by its form, even if its own host is not a known one
    have hrec : server.Recognizes own result := Or.inr (by rw [hparts]; exact ⟨rfl, rfl⟩)
    have hagain := canonical_of_recognizes (hserver ▸ hscheme) hown hrec
    rw [Iri.text_of_parse hreads] at hagain
    rw [hagain, h.canonical_eq]
    exact readdress_congr hserver (by rw [hparts]; rfl) (by rw [hparts]; rfl) own
  · have hsame := canonical_of_not_serves fun iri own hserves => h ⟨iri, own, hserves⟩
    rw [hsame, hsame]

end Server

/-- The address of a graph that the server serves becomes scheme, host of the server, path and
fragment, and nothing else; it is read as these. Every other text stays, and a second rewriting
changes nothing. -/
theorem canonicalGraph_eq (server : Option Server) (graph : String) :
    (∀ home ∈ server, ∀ iri own, home.Serves graph iri own →
      canonicalGraph server graph
          = iri.scheme ++ "://" ++ own ++ String.ofList iri.parts.path ++ iri.shownFragment ∧
        ∃ result : Iri, Iri.parse (canonicalGraph server graph) = .ok result ∧
          result.scheme = iri.scheme ∧ result.parts.authority = some own.toList ∧
          result.parts.path = iri.parts.path ∧ result.parts.query = none ∧
          result.parts.fragment = iri.parts.fragment) ∧
      ((∀ home ∈ server, ∀ iri own, ¬ home.Serves graph iri own) →
        canonicalGraph server graph = graph) ∧
      canonicalGraph server (canonicalGraph server graph) = canonicalGraph server graph := by
  cases server with
  | none => simp [canonicalGraph]
  | some server =>
    simp only [Option.mem_some_iff, forall_eq', canonicalGraph]
    refine ⟨fun iri own h => ⟨?_, ?_⟩, Server.canonical_of_not_serves,
      server.canonical_canonical graph⟩
    · rw [h.canonical_eq, Server.readdress_eq]
    · obtain ⟨result, hreads, hparts⟩ := h.exists_iri
      refine ⟨result, hreads, ?_⟩
      rw [Iri.scheme, hparts]
      exact ⟨rfl, rfl, rfl, rfl, rfl⟩

namespace Server

/-- A server that is known by an IPv6 address and by the host of its own address. -/
def dual : Server := ⟨["[::1]", "db"], (Iri.parse "rmi://admin@db:1099/s?q").toOption⟩

def dualAddress : Iri :=
  have hreference : IsReference "soap://u:@[::1]:80//a?q#" := by decide +kernel
  hreference.iri

theorem not_serves_localhost (iri : Iri) (own : String) :
    ¬ dual.Serves "rmi://localhost/a?q" iri own := by
  intro h
  have hforeign : (Iri.parse "rmi://localhost/a?q").toOption.bind dual.hostFor? = none := by
    decide +kernel
  obtain ⟨hreads, hhost⟩ := serves_iff.1 h
  rw [hreads] at hforeign
  rw [Except.toOption, Option.bind_some, hhost] at hforeign
  cases hforeign

theorem canonicalGraph_dualAddress :
    dual.Serves "soap://u:@[::1]:80//a?q#" dualAddress "db" ∧
      canonicalGraph (some dual) "soap://u:@[::1]:80//a?q#" = "soap://db//a#" ∧
      canonicalGraph (some dual) "soap://db//a#" = "soap://db//a#" ∧
      canonicalGraph (some dual) "rmi://localhost/a?q" = "rmi://localhost/a?q" := by
  have htext : dualAddress.text = "soap://u:@[::1]:80//a?q#" := by decide +kernel
  have hserves : dual.Serves "soap://u:@[::1]:80//a?q#" dualAddress "db" :=
    serves_iff.2 ⟨htext ▸ dualAddress.parse_text, by decide +kernel⟩
  have hlaw := canonicalGraph_eq (some dual) "soap://u:@[::1]:80//a?q#"
  have hresult : canonicalGraph (some dual) "soap://u:@[::1]:80//a?q#" = "soap://db//a#" := by
    rw [(hlaw.1 dual rfl dualAddress "db" hserves).1]
    decide +kernel
  have hagain := hlaw.2.2
  rw [hresult] at hagain
  refine ⟨hserves, hresult, hagain, (canonicalGraph_eq (some dual) _).2.1 fun home hhome => ?_⟩
  cases hhome
  exact not_serves_localhost

end Server
end TripleQuery
