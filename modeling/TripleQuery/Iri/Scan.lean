import TripleQuery.Iri.Alphabet
import TripleQuery.Iri.Fault
import TripleQuery.Outcome

/-!
# Scanning one part of an address

Every part of an IRI is a run of allowed characters and percent encodings that ends before a stop
character. `scan` splits such a run off a text; what it takes and what it leaves make up the text
again (`scan_append`), and what it leaves is empty or starts with a stop character (`scan_stop`).
-/

namespace TripleQuery.Iri
open TripleQuery.Text

/-- What was read from the front of a text, and the text that is left. -/
abbrev Scanned := List Char × List Char

/-- Puts characters that were read before in front of what was read. -/
def Scanned.after (read : List Char) (s : Scanned) : Scanned := (read ++ s.1, s.2)

/-- Reads up to the first stop character. A percent sign takes the two characters after it along,
whatever they are, and refuses them unless both are hexadecimal digits. -/
def scan (allowed stop : Char → Bool) : List Char → Except Fault Scanned
  | [] => .ok ([], [])
  | c :: rest =>
    if stop c then .ok ([], c :: rest)
    else if c = '%' then
      match rest with
      | a :: b :: more =>
        if isHex a && isHex b then (scan allowed stop more).map (Scanned.after [c, a, b])
        else .error (.percent [c, a, b])
      | short => .error (.percent (c :: short))
    else if allowed c then (scan allowed stop rest).map (Scanned.after [c])
    else .error (.codePoint c)

/-- Nothing stops the reading of a part that goes on to the end of the text. -/
def noStop (_ : Char) : Bool := false

theorem scan_append {allowed stop : Char → Bool} {text : List Char} {s : Scanned}
    (h : scan allowed stop text = .ok s) : s.1 ++ s.2 = text := by
  fun_induction scan allowed stop text generalizing s with
  | case1 => cases h; rfl
  | case2 => cases h; rfl
  | case3 a b more _ _ ih =>
    obtain ⟨t, ht, rfl⟩ := map_eq_ok.1 h
    simpa [Scanned.after] using ih ht
  | case4 => cases h
  | case5 => cases h
  | case6 c rest _ _ _ ih =>
    obtain ⟨t, ht, rfl⟩ := map_eq_ok.1 h
    simpa [Scanned.after] using ih ht
  | case7 => cases h

theorem scan_stop {allowed stop : Char → Bool} {text : List Char} {s : Scanned}
    (h : scan allowed stop text = .ok s) : ∀ c ∈ s.2.head?, stop c = true := by
  fun_induction scan allowed stop text generalizing s with
  | case1 => cases h; simp
  | case2 c rest hs => cases h; simpa using hs
  | case3 a b more _ _ ih =>
    obtain ⟨t, ht, rfl⟩ := map_eq_ok.1 h
    simpa [Scanned.after] using ih ht
  | case4 => cases h
  | case5 => cases h
  | case6 c rest _ _ _ ih =>
    obtain ⟨t, ht, rfl⟩ := map_eq_ok.1 h
    simpa [Scanned.after] using ih ht
  | case7 => cases h

end TripleQuery.Iri
