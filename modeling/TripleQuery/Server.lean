import TripleQuery.Iri.Basic

/-!
# The local server

A server goes by several host names. The address of a graph that names it by one of them is brought
into one form, with the host of the server's own address, so that a graph has one name only.
-/

namespace TripleQuery

/-- A server: the hosts under which it is known, and its own address if it has one. -/
structure Server where
  hosts : List String
  uri : Option Iri
  deriving DecidableEq

def Iri.host? (iri : Iri) : Option String :=
  iri.parts.authority.map fun authority => String.ofList (Iri.hostOf authority)

def Iri.serverSchemes : List String := ["rmi", "soap"]

namespace Server

/-- The host of the server if a graph with this address lives there: the scheme is one of servers,
the host is known as the server's, and the server's own address tells a host. -/
def hostFor? (server : Server) (iri : Iri) : Option String :=
  match iri.host? with
  | none => none
  | some host =>
    if iri.scheme ∈ Iri.serverSchemes ∧ host ∈ server.hosts then server.uri.bind Iri.host?
    else none

def readdress (iri : Iri) (host : String) : String :=
  String.ofList ({ iri.parts with authority := some host.toList, query := none } : Iri.Parts).text

def canonical (server : Server) (graph : String) : String :=
  match Iri.parse graph with
  | .error _ => graph
  | .ok iri =>
    match server.hostFor? iri with
    | none => graph
    | some host => readdress iri host

end Server

/-- The one form of the address of a graph; where there is no server, that is the address. -/
def canonicalGraph (server : Option Server) (graph : String) : String :=
  match server with
  | none => graph
  | some server => server.canonical graph

end TripleQuery
