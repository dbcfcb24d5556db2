import TripleQuery.Iri.Parts

/-!
# Absolute IRIs

An `Iri` is a text together with its parts as `Parts.read` finds them. The text alone decides which
IRI it is, and it is the text of the parts (`text_eq_parts_text`).
-/

namespace TripleQuery

/-- An absolute IRI: its text, and the parts that reading the text gives. -/
structure Iri where
  text : String
  parts : Iri.Parts
  reads : Iri.Parts.read text.toList = .ok parts

namespace Iri

def parse (text : String) : Except Fault Iri :=
  match h : Parts.read text.toList with
  | .ok parts => .ok ⟨text, parts, h⟩
  | .error fault => .error fault

theorem text_of_parse {text : String} {iri : Iri} (h : parse text = .ok iri) : iri.text = text := by
  unfold parse at h
  split at h
  · cases h; rfl
  · cases h

theorem parse_text (iri : Iri) : parse iri.text = .ok iri := by
  obtain ⟨text, parts, reads⟩ := iri
  unfold parse
  split
  · next parts' h =>
    obtain rfl : parts = parts' := Except.ok.inj (reads.symm.trans h)
    rfl
  · next fault h => exact absurd (reads.symm.trans h) (by simp)

theorem text_injective {a b : Iri} (h : a.text = b.text) : a = b :=
  Except.ok.inj ((parse_text a).symm.trans (h ▸ parse_text b))

instance : DecidableEq Iri := fun a b =>
  if h : a.text = b.text then isTrue (text_injective h) else isFalse fun e => h (e ▸ rfl)

theorem text_eq_parts_text (iri : Iri) : iri.text.toList = iri.parts.text :=
  (Parts.text_of_read iri.reads).symm

def scheme (iri : Iri) : String := String.ofList iri.parts.scheme

def afterScheme (iri : Iri) : List Char := iri.parts.toHierarchy.text

end Iri
end TripleQuery
