import Mathlib.Data.List.Sort
import TripleQuery.Graphs.Databases
import TripleQuery.Proofs.Iri.Grammar

/-!
# The databases of an expression

The address of a database is put together from scheme, authority and path of the address of a graph.
It is the text of that address up to its query or fragment (`Iri.Parts.takeWhile_text`), and as an
address it is the one of its own database. Which databases an expression has depends on nothing but
the set of its graphs (`Graphs.mem_databases_iff`).
-/

namespace TripleQuery

namespace Iri
open Text

/-- The parts up to query and fragment. -/
def Parts.base (p : Parts) : Parts := { p with query := none, fragment := none }

namespace Parts

variable {p : Parts}

theorem wellFormed_base (h : p.WellFormed) : p.base.WellFormed :=
  ⟨h.scheme, h.authority, h.path, h.rooted, h.unrooted, by simp [base], by simp [base]⟩

theorem text_base_append (p : Parts) :
    p.base.text ++ (announced ['?'] p.query ++ announced ['#'] p.fragment) = p.text := by
  simp [base, text, Hierarchy.text, announced]

theorem notMem_text_base {c : Char} (h : p.WellFormed) (hc : endsPath c = true) :
    c ∉ p.base.text := by
  have hscheme : isSchemeChar c = false ∧ c ≠ ':' := by
    rcases eq_of_endsPath hc with rfl | rfl <;> decide
  have hpath : (c == '%' || isHex c || isPathChar c) = false := by
    rcases eq_of_endsPath hc with rfl | rfl <;> decide
  have hauthority : c ∉ announced ['/', '/'] p.authority := by
    have hends : endsAuthority c = true ∧ c ∉ ['/', '/'] := by
      rcases eq_of_endsPath hc with rfl | rfl <;> decide
    cases hsome : p.authority with
    | none => exact List.not_mem_nil
    | some text =>
      obtain ⟨a, ha, rfl⟩ := h.authority text hsome
      rw [announced, List.mem_append, not_or]
      exact ⟨hends.2, notMem_text_of_endsAuthority ha hends.1⟩
  simp only [base, text, Hierarchy.text, announced, List.append_nil, List.mem_append, List.mem_cons,
    not_or]
  exact ⟨h.scheme.notMem hscheme.1, hscheme.2, hauthority, h.path.notMem hpath⟩

/-- Up to the first mark of a query or a fragment stand scheme, authority and path. -/
theorem takeWhile_text (h : p.WellFormed) : p.text.takeWhile (!endsPath ·) = p.base.text := by
  have hfree : ∀ c ∈ p.base.text, (!endsPath c) = true := by
    intro c hmem
    by_contra hends
    exact notMem_text_base h (by simpa using hends) hmem
  rw [← text_base_append p]
  exact (takeWhile_of_halts hfree (halts_queryAndFragment p.query p.fragment)).1

end Parts

def base (iri : Iri) : Iri := ofParts iri.parts.base (Parts.wellFormed_base (wellFormed_parts iri))

end Iri

/-- A text up to its first question mark or number sign. -/
def upToQuery (text : String) : String :=
  String.ofList (text.toList.takeWhile fun c => c != '?' && c != '#')

namespace Iri

theorem text_base (iri : Iri) : iri.base.text = upToQuery iri.text := by
  have hends : (fun c => c != '?' && c != '#') = fun c => !endsPath c := by
    funext c
    rw [Bool.eq_iff_iff]
    simp [endsPath]
  rw [upToQuery, hends, text_eq_parts_text, Parts.takeWhile_text (wellFormed_parts iri)]
  rfl

theorem database?_eq_some {iri : Iri} {database : String} :
    iri.database? = some database ↔ (iri.scheme = "rmi" ∨ iri.scheme = "beep") ∧
      iri.base.text = database := by
  have hschemes : iri.scheme ∈ databaseSchemes ↔ iri.scheme = "rmi" ∨ iri.scheme = "beep" := by
    simp [databaseSchemes]
  rw [database?, Option.ite_none_right_eq_some, hschemes, Option.some_inj]
  rfl

end Iri

theorem databaseOf_eq_some {graph database : String} :
    databaseOf graph = some database ↔ ∃ iri : Iri, iri.text = graph ∧
      (iri.scheme = "rmi" ∨ iri.scheme = "beep") ∧ iri.base.text = database := by
  unfold databaseOf
  constructor
  · intro h
    split at h
    · next iri hreads => exact ⟨iri, Iri.text_of_parse hreads, Iri.database?_eq_some.1 h⟩
    · cases h
  · rintro ⟨iri, rfl, h⟩
    rw [Iri.parse_text]
    exact Iri.database?_eq_some.2 h

theorem databaseOf_database {graph database : String} (h : databaseOf graph = some database) :
    databaseOf database = some database := by
  obtain ⟨iri, -, hscheme, rfl⟩ := databaseOf_eq_some.1 h
  exact databaseOf_eq_some.2 ⟨iri.base, rfl, hscheme, rfl⟩

namespace Graphs

variable {g other : Graphs} {database : String}

theorem mem_databases :
    database ∈ g.databases ↔ ∃ graph ∈ g.leaves, databaseOf graph = some database :=
  Text.mem_ascending.trans List.mem_filterMap

theorem databases_eq_of_mem_leaves_iff
    (hleaves : ∀ graph, graph ∈ other.leaves ↔ graph ∈ g.leaves) :
    other.databases = g.databases := by
  have hmem : ∀ database, database ∈ other.databases ↔ database ∈ g.databases := by
    intro database
    simp only [mem_databases, hleaves]
  exact (Text.pairwise_ascending _).eq_of_mem_iff (Text.pairwise_ascending _) hmem

theorem databases_graph (h : databaseOf database = some database) :
    (graph database).databases = [database] := by
  rw [databases, leaves, List.filterMap_cons_some h]
  rfl

/-- The databases of an expression are the addresses of its graphs on the two kinds of servers, up
to query and fragment. They come in the order of code points, each once, and are the same for all
expressions over the same graphs. The database of a database is itself. -/
theorem mem_databases_iff (g : Graphs) :
    (∀ database, database ∈ g.databases ↔ ∃ iri : Iri, iri.text ∈ g.leaves ∧
      (iri.scheme = "rmi" ∨ iri.scheme = "beep") ∧ upToQuery iri.text = database) ∧
    g.databases.Pairwise (· < ·) ∧
    (∀ other : Graphs, (∀ graph, graph ∈ other.leaves ↔ graph ∈ g.leaves) →
      other.databases = g.databases) ∧
    ∀ database ∈ g.databases, (graph database).databases = [database] := by
  refine ⟨fun database => ?_, Text.pairwise_ascending _,
    fun other => databases_eq_of_mem_leaves_iff, fun database hmem => ?_⟩
  · rw [mem_databases]
    constructor
    · rintro ⟨graph, hmem, hgraph⟩
      obtain ⟨iri, rfl, hscheme, hdatabase⟩ := databaseOf_eq_some.1 hgraph
      exact ⟨iri, hmem, hscheme, iri.text_base ▸ hdatabase⟩
    · rintro ⟨iri, hmem, hscheme, hdatabase⟩
      have hgraph := databaseOf_eq_some.2 ⟨iri, rfl, hscheme, iri.text_base.trans hdatabase⟩
      exact ⟨iri.text, hmem, hgraph⟩
  · obtain ⟨graph, -, hgraph⟩ := mem_databases.1 hmem
    exact databases_graph (databaseOf_database hgraph)

/-- Two graphs of one server, one of a server without a host, and two that are on no server. -/
def scattered : Graphs :=
  .join .par (.join .or (.graph "rmi://db/s?q#m") (.graph "file:///s#m"))
    (.join .and (.graph "rmi://db/s#n") (.join .or (.graph "beep:") (.graph "RMI:s")))

example : scattered.databases = ["beep:", "rmi://db/s"] := by decide +kernel

end Graphs
end TripleQuery
