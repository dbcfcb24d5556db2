import TripleQuery.Proofs.Expansion.Token

/-!
# Tokens that were expanded

The address for which a token stands can be written again as a token. It has the scheme of the name
space it was made from, so it would be expanded once more if that scheme were a label itself. Unless
a table chains its labels in this way, what was resolved stands for itself
(`Prefixes.resolve_stable`).
-/

namespace TripleQuery

namespace Iri

variable {iri ns : Iri}

theorem text_eq_scheme_append (iri : Iri) :
    iri.text = iri.scheme ++ ":" ++ String.ofList iri.afterScheme := by
  apply String.toList_injective
  rw [text_eq_parts_text]
  simp [scheme, afterScheme, Parts.text]

theorem eq_of_text_eq_append {rest : String} (h : iri.text = ns.text ++ rest) :
    iri.scheme = ns.scheme ∧ iri.afterScheme = ns.afterScheme ++ rest.toList := by
  have hcolon : ':' ∉ ns.scheme.toList := by
    rw [scheme, String.toList_ofList]
    exact (wellFormed_parts ns).scheme.notMem (by decide)
  have htext : iri.text = ns.scheme ++ ":" ++ (String.ofList ns.afterScheme ++ rest) := by
    rw [h, text_eq_scheme_append ns, String.append_assoc]
  obtain ⟨hscheme, hafter⟩ := eq_of_text_eq hcolon htext
  exact ⟨hscheme, by rw [hafter, String.toList_append, String.toList_ofList]⟩

end Iri

namespace Prefixes

variable {table : Prefixes} {token : String} {iri : Iri}

/-- A token stands for itself, or for a name space of the table with its local part behind it. -/
theorem resolve_eq_ok_iff :
    table.resolve token = .ok iri ↔
      (iri.text = token ∧ (table.find? iri.scheme = none ∨ iri.afterScheme.head? = some '/')) ∨
        ∃ written ns, written.text = token ∧ written.afterScheme.head? ≠ some '/' ∧
          table.find? written.scheme = some ns ∧
          iri.text = ns.text ++ String.ofList (localPart written) := by
  constructor
  · intro h
    obtain ⟨written, hwritten, -⟩ := bind_eq_ok.1 h
    obtain rfl := Iri.text_of_parse (mapError_eq_ok.1 hwritten)
    rw [resolve_text] at h
    split at h
    · next hslash =>
      cases h
      exact .inl ⟨rfl, .inr hslash⟩
    · next hslash =>
      split at h
      · next hnone =>
        cases h
        exact .inl ⟨rfl, .inl hnone⟩
      · next ns hfind =>
        exact .inr ⟨written, ns, rfl, hslash, hfind, Iri.text_of_parse (mapError_eq_ok.1 h)⟩
  · rintro (⟨rfl, hself⟩ | ⟨written, ns, rfl, hslash, hfind, htext⟩)
    · exact resolve_text_self hself
    · have hread := readReference_text iri
      rw [htext] at hread
      rw [resolve_text, if_neg hslash, hfind]
      exact hread

/-- No name space would be expanded itself: behind its scheme comes a slash, or its scheme is no
label. -/
def Unchained (table : Prefixes) : Prop :=
  ∀ entry ∈ table.entries, entry.2.afterScheme.head? = some '/' ∨ table.find? entry.2.scheme = none

instance (table : Prefixes) : Decidable table.Unchained :=
  inferInstanceAs (Decidable (∀ entry ∈ table.entries, _))

theorem Unchained.of_find? {label : String} {ns : Iri} (h : table.Unchained)
    (hfind : table.find? label = some ns) :
    ns.afterScheme.head? = some '/' ∨ table.find? ns.scheme = none := by
  obtain ⟨before, after, hentries, -⟩ := List.lookup_eq_some_iff.1 hfind
  exact h (label, ns) (by simp [hentries])

/-- What a token stands for stands for itself, be the token an address already or be it expanded. -/
theorem resolve_stable (h : table.Unchained) (hread : table.resolve token = .ok iri) :
    table.resolve iri.text = .ok iri := by
  rcases resolve_eq_ok_iff.1 hread with ⟨-, hself⟩ | ⟨written, ns, -, -, hfind, htext⟩
  · exact resolve_text_self hself
  · obtain ⟨hscheme, hafter⟩ := Iri.eq_of_text_eq_append htext
    rcases h.of_find? hfind with hslash | hnone
    · refine resolve_text_self (.inr ?_)
      rw [hafter, List.head?_append, hslash]
      rfl
    · refine resolve_text_self (.inl ?_)
      rw [hscheme, hnone]

/-! ### Labels that are schemes -/

def urnSpace : Iri :=
  have hreference : IsReference "urn:x:" := by decide +kernel
  hreference.iri

/-- The first name space has the second label as its scheme, but a slash behind it. -/
def crossedTable : Prefixes := ofList [("xsd", typesSpace), ("http", urnSpace)]

def expandedToken : Iri :=
  have hreference : IsReference "http://w3/Schema#a:b/c?d" := by decide +kernel
  hreference.iri

theorem resolve_stable_crossedTable :
    crossedTable.Unchained ∧ crossedTable.resolve "xsd:a:b/c?d#e" = .ok expandedToken ∧
      crossedTable.resolve expandedToken.text = .ok expandedToken := by
  have hunchained : crossedTable.Unchained := by decide +kernel
  have hread : crossedTable.resolve "xsd:a:b/c?d#e" = .ok expandedToken := by decide +kernel
  exact ⟨hunchained, hread, resolve_stable hunchained hread⟩

end Prefixes
end TripleQuery
