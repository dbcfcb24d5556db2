import TripleQuery.Iri.Authority

/-!
# The parts of an address

`Parts.read` takes an absolute IRI apart and `Parts.text` puts it together again; nothing is lost
on the way (`text_of_read`). Reading stops at the first fault. A text without a scheme is read as a
relative reference first, so that a fault of that reading is reported before the missing scheme.
-/

namespace TripleQuery.Iri
open TripleQuery.Text

/-- What follows the scheme and its colon. A part that is absent is not the same as an empty one. -/
structure Hierarchy where
  authority : Option (List Char)
  path : List Char
  query : Option (List Char)
  fragment : Option (List Char)
  deriving DecidableEq, Repr

/-- The parts of an absolute IRI, without the characters that separate them. -/
structure Parts extends Hierarchy where
  scheme : List Char
  deriving DecidableEq, Repr

def announced (mark : List Char) : Option (List Char) → List Char
  | none => []
  | some part => mark ++ part

def Hierarchy.text (h : Hierarchy) : List Char :=
  announced ['/', '/'] h.authority ++ h.path ++ announced ['?'] h.query
    ++ announced ['#'] h.fragment

def Parts.text (p : Parts) : List Char := p.scheme ++ ':' :: p.toHierarchy.text

/-! ### Reading -/

def readFragment (text : List Char) : Except Fault (Option (List Char)) :=
  match text with
  | '#' :: rest => (scan isFragmentChar noStop rest).map fun fragment => some fragment.1
  | _ => .ok none

def readQuery (text : List Char) : Except Fault (Option (List Char) × List Char) :=
  match text with
  | '?' :: rest => (scan isQueryChar (· == '#') rest).map fun query => (some query.1, query.2)
  | _ => .ok (none, text)

/-- Reads path, query and fragment behind an authority or what was read of the path before. -/
def readPath (authority : Option (List Char)) (before text : List Char) :
    Except Fault Hierarchy := do
  let path ← scan isPathChar endsPath text
  let query ← readQuery path.2
  let fragment ← readFragment query.2
  return ⟨authority, before ++ path.1, query.1, fragment⟩

/-- Reads what follows a scheme: two slashes start an authority, all else is the path. -/
def readHierarchy : List Char → Except Fault Hierarchy
  | '/' :: '/' :: rest => do
    let authority ← readAuthority rest
    readPath (some authority.1) [] authority.2
  | text => readPath none [] text

/-- Reads a text that has no scheme. Unless a slash comes first, its first segment holds
no colon. -/
def readRelative (text : List Char) : Except Fault Hierarchy :=
  match text with
  | '/' :: _ => readHierarchy text
  | _ => do
    let segment ← scan isFirstSegmentChar endsAuthority text
    readPath none segment.1 segment.2

/-- Cuts off a scheme and its colon: a letter, then letters, digits and `+`, `-` or `.`. -/
def cutScheme : List Char → Option (List Char × List Char)
  | [] => none
  | c :: rest =>
    if isLetter c then
      match rest.dropWhile isSchemeChar with
      | ':' :: after => some (c :: rest.takeWhile isSchemeChar, after)
      | _ => none
    else none

def Parts.read (text : List Char) : Except Fault Parts :=
  match cutScheme text with
  | some (scheme, rest) => (readHierarchy rest).map fun hierarchy => ⟨hierarchy, scheme⟩
  | none =>
    match text with
    | ':' :: _ => .error .noScheme
    | _ => do
      let _ ← readRelative text
      .error .noScheme

/-! ### Nothing is lost -/

theorem cutScheme_append {text scheme rest : List Char} (h : cutScheme text = some (scheme, rest)) :
    scheme ++ ':' :: rest = text := by
  cases text with
  | nil => cases h
  | cons c more =>
    simp only [cutScheme] at h
    split at h
    · split at h
      · next after hafter =>
        cases h
        have hmore := List.takeWhile_append_dropWhile (p := isSchemeChar) (l := more)
        rw [hafter] at hmore
        simp [hmore]
      · cases h
    · cases h

theorem readFragment_text {text : List Char} {fragment : Option (List Char)}
    (hstop : ∀ c ∈ text.head?, c = '#') (h : readFragment text = .ok fragment) :
    announced ['#'] fragment = text := by
  unfold readFragment at h
  split at h
  · next rest =>
    obtain ⟨s, hs, rfl⟩ := map_eq_ok.1 h
    have hall := scan_append hs
    have hnil : s.2 = [] := by
      cases hrest : s.2 with
      | nil => rfl
      | cons c more => simpa [hrest, noStop] using scan_stop hs
    simp_all [announced]
  · next hne =>
    cases h
    cases text with
    | nil => rfl
    | cons c more => exact absurd (by simp [hstop c (by simp)]) (hne more)

theorem readQuery_text {text rest : List Char} {query : Option (List Char)}
    (hstop : ∀ c ∈ text.head?, endsPath c = true) (h : readQuery text = .ok (query, rest)) :
    announced ['?'] query ++ rest = text ∧ ∀ c ∈ rest.head?, c = '#' := by
  unfold readQuery at h
  split at h
  · next more =>
    obtain ⟨s, hs, hs'⟩ := map_eq_ok.1 h
    cases hs'
    exact ⟨by simp [announced, scan_append hs], by simpa using scan_stop hs⟩
  · next hne =>
    cases h
    refine ⟨rfl, fun c hc => ?_⟩
    cases text with
    | nil => simp at hc
    | cons d more =>
      obtain rfl : d = c := by simpa using hc
      have hends := hstop d (by simp)
      simp only [endsPath, List.contains_cons, Bool.or_eq_true, beq_iff_eq] at hends
      rcases hends with rfl | rfl | hnil
      · exact absurd rfl (hne more)
      · rfl
      · simp at hnil

theorem readPath_text {authority : Option (List Char)} {before text : List Char} {h : Hierarchy}
    (hread : readPath authority before text = .ok h) :
    h.text = announced ['/', '/'] authority ++ before ++ text := by
  unfold readPath at hread
  obtain ⟨path, hpath, hread⟩ := bind_eq_ok.1 hread
  obtain ⟨⟨query, rest⟩, hquery, hread⟩ := bind_eq_ok.1 hread
  obtain ⟨fragment, hfragment, hread⟩ := bind_eq_ok.1 hread
  cases hread
  obtain ⟨hq, hstop⟩ := readQuery_text (scan_stop hpath) hquery
  have hf := readFragment_text hstop hfragment
  have hp := scan_append hpath
  simp only [Hierarchy.text, List.append_assoc]
  rw [hf, hq, hp]

theorem readHierarchy_text {text : List Char} {h : Hierarchy}
    (hread : readHierarchy text = .ok h) : h.text = text := by
  unfold readHierarchy at hread
  split at hread
  · obtain ⟨authority, hauthority, hread⟩ := bind_eq_ok.1 hread
    rw [readPath_text hread]
    simp [announced, readAuthority_append hauthority]
  · rw [readPath_text hread]
    simp [announced]

theorem Parts.text_of_read {text : List Char} {p : Parts} (h : Parts.read text = .ok p) :
    p.text = text := by
  unfold Parts.read at h
  split at h
  · next scheme rest hscheme =>
    obtain ⟨hierarchy, hrest, rfl⟩ := map_eq_ok.1 h
    rw [Parts.text, readHierarchy_text hrest, cutScheme_append hscheme]
  · split at h
    · cases h
    · obtain ⟨_, _, h⟩ := bind_eq_ok.1 h
      cases h

end TripleQuery.Iri
