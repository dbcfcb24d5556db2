import TripleQuery.Proofs.Iri.Authority

/-!
# The grammar of absolute IRIs

The parts of an absolute IRI are well formed if each of them is a text of its class and the path
cannot be taken for something else. Reading a text gives certain parts exactly if these are well
formed and the text is theirs (`Parts.read_eq_ok_iff`). So the parts of an IRI can be changed one by
one, as long as they stay well formed.
-/

namespace TripleQuery.Iri
open TripleQuery.Text

/-- A letter, then any number of letters, digits and the three signs. -/
def IsScheme : List Char → Prop
  | [] => False
  | c :: rest => isLetter c = true ∧ ∀ d ∈ rest, isSchemeChar d = true

structure Parts.WellFormed (p : Parts) : Prop where
  scheme : IsScheme p.scheme
  authority : ∀ text ∈ p.authority, ∃ a : Authority, a.WellFormed ∧ a.text = text
  path : Run isPathChar p.path
  rooted : p.authority.isSome = true → Halts (· == '/') p.path
  unrooted : p.authority = none → ∀ rest, p.path ≠ '/' :: '/' :: rest
  query : ∀ query ∈ p.query, Run isQueryChar query
  fragment : ∀ fragment ∈ p.fragment, Run isFragmentChar fragment

/-! ### Schemes -/

theorem cutScheme_of_isScheme {scheme : List Char} (h : IsScheme scheme) (rest : List Char) :
    cutScheme (scheme ++ ':' :: rest) = some (scheme, rest) := by
  cases scheme with
  | nil => exact absurd h id
  | cons c more =>
    have hcolon : isSchemeChar ':' = false := by decide
    have htake : (more ++ ':' :: rest).takeWhile isSchemeChar = more := by
      rw [List.takeWhile_append_of_pos h.2]
      simp [hcolon]
    have hdrop : (more ++ ':' :: rest).dropWhile isSchemeChar = ':' :: rest := by
      rw [List.dropWhile_append_of_pos h.2]
      simp [hcolon]
    simp only [List.cons_append, cutScheme, h.1, if_true, htake, hdrop]

theorem isScheme_of_cutScheme {text scheme rest : List Char}
    (h : cutScheme text = some (scheme, rest)) : IsScheme scheme := by
  cases text with
  | nil => cases h
  | cons c more =>
    simp only [cutScheme] at h
    split at h
    · next hletter =>
      split at h
      · cases h
        exact ⟨hletter, fun d hd => List.mem_takeWhile_imp hd⟩
      · cases h
    · cases h

theorem IsScheme.notMem {scheme : List Char} {c : Char} (h : IsScheme scheme)
    (hc : isSchemeChar c = false) : c ∉ scheme := by
  intro hmem
  cases scheme with
  | nil => cases hmem
  | cons d more =>
    have hfirst : isSchemeChar d = true := by simp [isSchemeChar, h.1]
    have hall : ∀ e ∈ d :: more, isSchemeChar e = true := List.forall_mem_cons.2 ⟨hfirst, h.2⟩
    rw [hall c hmem] at hc
    cases hc

/-! ### Path, query and fragment -/

theorem eq_of_endsPath {c : Char} (h : endsPath c = true) : c = '?' ∨ c = '#' := by
  simpa [endsPath] using h

theorem apart_path : Apart isPathChar endsPath := by
  intro c hc
  rcases eq_of_endsPath hc with rfl | rfl <;> decide

theorem apart_query : Apart isQueryChar (· == '#') := by
  intro c hc
  obtain rfl : c = '#' := by simpa using hc
  decide

theorem apart_noStop (allowed : Char → Bool) : Apart allowed noStop := by
  intro c hc
  cases hc

theorem halts_fragment (fragment : Option (List Char)) :
    Halts (· == '#') (announced ['#'] fragment) := by
  cases fragment with
  | none => exact halts_nil _
  | some text => exact halts_cons.2 (by decide)

theorem halts_queryAndFragment (query fragment : Option (List Char)) :
    Halts endsPath (announced ['?'] query ++ announced ['#'] fragment) := by
  cases query with
  | none => exact (halts_fragment fragment).mono fun c hc => by simp_all [endsPath]
  | some text => exact halts_cons.2 (by decide)

theorem readFragment_announced {fragment : Option (List Char)}
    (h : ∀ text ∈ fragment, Run isFragmentChar text) :
    readFragment (announced ['#'] fragment) = .ok fragment := by
  cases fragment with
  | none => rfl
  | some text =>
    have hscan := scan_of_run (h text rfl) (apart_noStop _) (halts_nil noStop)
    rw [List.append_nil] at hscan
    simp [announced, readFragment, hscan, Except.map]

theorem readQuery_announced {query : Option (List Char)} {rest : List Char}
    (h : ∀ text ∈ query, Run isQueryChar text) (hrest : Halts (· == '#') rest) :
    readQuery (announced ['?'] query ++ rest) = .ok (query, rest) := by
  cases query with
  | some text =>
    have hscan := scan_of_run (h text rfl) apart_query hrest
    simp [announced, readQuery, hscan, Except.map]
  | none =>
    cases rest with
    | nil => rfl
    | cons c more =>
      obtain rfl : c = '#' := by simpa using halts_cons.1 hrest
      rfl

/-- Path, query and fragment as they follow an authority or the colon of a scheme. -/
def Hierarchy.tail (h : Hierarchy) : List Char :=
  h.path ++ (announced ['?'] h.query ++ announced ['#'] h.fragment)

theorem Hierarchy.text_eq (h : Hierarchy) :
    h.text = announced ['/', '/'] h.authority ++ h.tail := by
  simp [text, tail]

theorem readPath_tail {h : Hierarchy} (hpath : Run isPathChar h.path)
    (hquery : ∀ query ∈ h.query, Run isQueryChar query)
    (hfragment : ∀ fragment ∈ h.fragment, Run isFragmentChar fragment) :
    readPath h.authority [] h.tail = .ok h := by
  have hpathRead := scan_of_run hpath apart_path (halts_queryAndFragment h.query h.fragment)
  have hqueryRead := readQuery_announced hquery (halts_fragment h.fragment)
  have hfragmentRead := readFragment_announced hfragment
  simp [readPath, Hierarchy.tail, hpathRead, hqueryRead, hfragmentRead, bind, Except.bind, pure,
    Except.pure]

theorem run_of_readPath {authority : Option (List Char)} {text : List Char} {h : Hierarchy}
    (hread : readPath authority [] text = .ok h) :
    h.authority = authority ∧ Run isPathChar h.path ∧
      (∀ query ∈ h.query, Run isQueryChar query) ∧
      ∀ fragment ∈ h.fragment, Run isFragmentChar fragment := by
  obtain ⟨path, hpath, hread⟩ := bind_eq_ok.1 hread
  obtain ⟨⟨query, rest⟩, hquery, hread⟩ := bind_eq_ok.1 hread
  obtain ⟨fragment, hfragment, hread⟩ := bind_eq_ok.1 hread
  cases hread
  refine ⟨rfl, ?_, ?_, ?_⟩
  · exact run_of_scan hpath
  · unfold readQuery at hquery
    split at hquery
    · obtain ⟨s, hs, hpair⟩ := map_eq_ok.1 hquery
      cases hpair
      rintro text htext
      cases htext
      exact run_of_scan hs
    · cases hquery
      simp
  · unfold readFragment at hfragment
    split at hfragment
    · obtain ⟨s, hs, rfl⟩ := map_eq_ok.1 hfragment
      rintro text htext
      cases htext
      exact run_of_scan hs
    · cases hfragment
      simp

/-! ### What follows the scheme -/

theorem halts_tail {h : Hierarchy} (hpath : Halts (· == '/') h.path) :
    Halts endsAuthority h.tail := by
  unfold Hierarchy.tail
  cases hcase : h.path with
  | nil =>
    refine (halts_queryAndFragment h.query h.fragment).mono fun c hc => ?_
    rcases eq_of_endsPath hc with rfl | rfl <;> decide
  | cons c more =>
    rw [hcase] at hpath
    obtain rfl : c = '/' := by simpa using halts_cons.1 hpath
    exact halts_cons.2 (by decide)

theorem readHierarchy_of_ne_slashes {text : List Char} (h : ∀ rest, text ≠ '/' :: '/' :: rest) :
    readHierarchy text = readPath none [] text := by
  unfold readHierarchy
  split
  · exact absurd rfl (h _)
  · rfl

/-- A path that does not start with two slashes still does not do so with what follows it. -/
theorem tail_ne_slashes {h : Hierarchy} (hpath : ∀ rest, h.path ≠ '/' :: '/' :: rest)
    (rest : List Char) : h.tail ≠ '/' :: '/' :: rest := by
  have hends := halts_queryAndFragment h.query h.fragment
  unfold Hierarchy.tail
  generalize announced ['?'] h.query ++ announced ['#'] h.fragment = more at hends
  intro heq
  cases hcase : h.path with
  | nil =>
    rw [hcase, List.nil_append] at heq
    rw [heq] at hends
    exact absurd (halts_cons.1 hends) (by decide)
  | cons c path =>
    rw [hcase, List.cons_append, List.cons.injEq] at heq
    obtain ⟨rfl, heq⟩ := heq
    cases path with
    | nil =>
      rw [List.nil_append] at heq
      rw [heq] at hends
      exact absurd (halts_cons.1 hends) (by decide)
    | cons d path =>
      rw [List.cons_append, List.cons.injEq] at heq
      exact hpath path (by rw [hcase, heq.1])

theorem Parts.readHierarchy_text {p : Parts} (h : p.WellFormed) :
    readHierarchy p.toHierarchy.text = .ok p.toHierarchy := by
  have hpath := readPath_tail h.path h.query h.fragment
  rw [Hierarchy.text_eq]
  cases hauthority : p.authority with
  | none =>
    rw [hauthority] at hpath
    have hne := tail_ne_slashes (h.unrooted hauthority)
    rw [announced, List.nil_append, readHierarchy_of_ne_slashes hne, hpath]
  | some text =>
    obtain ⟨a, ha, rfl⟩ := h.authority text hauthority
    have hread := readAuthority_text ha (halts_tail (h.rooted (by rw [hauthority]; rfl)))
    rw [hauthority] at hpath
    simp [announced, readHierarchy, hread, hpath, bind, Except.bind]

/-- What was read behind a scheme is well formed as parts with that scheme. -/
theorem wellFormed_of_readHierarchy {text scheme : List Char} {h : Hierarchy}
    (hscheme : IsScheme scheme) (hread : readHierarchy text = .ok h) :
    (⟨h, scheme⟩ : Parts).WellFormed := by
  have htext := readHierarchy_text hread
  unfold readHierarchy at hread
  split at hread
  · obtain ⟨s, hs, hread⟩ := bind_eq_ok.1 hread
    obtain ⟨hauthority, hpath, hquery, hfragment⟩ := run_of_readPath hread
    obtain ⟨a, ha, hshown, hhalts⟩ := exists_authority_of_read hs
    have htail := readPath_text hread
    simp only [Hierarchy.text_eq, hauthority, announced, List.append_nil, List.append_assoc,
      List.append_cancel_left_eq] at htail
    refine ⟨hscheme, ?_, hpath, fun _ => ?_, fun hnone => ?_, hquery, hfragment⟩
    · intro text hmem
      rw [hauthority] at hmem
      cases hmem
      exact ⟨a, ha, hshown⟩
    · -- an authority ends at a slash, a question mark or a number sign; the last two end a path
      rw [← htail] at hhalts
      cases hcase : h.path with
      | nil => exact halts_nil _
      | cons c path =>
        rw [Hierarchy.tail, hcase, List.cons_append] at hhalts
        rw [hcase] at hpath
        rcases eq_of_endsAuthority (halts_cons.1 hhalts) with rfl | rfl | rfl
        · exact halts_cons.2 (by decide)
        · exact absurd rfl (hpath.head_ne (by decide) path)
        · exact absurd rfl (hpath.head_ne (by decide) path)
    · rw [hauthority] at hnone
      cases hnone
  · next hne =>
    obtain ⟨hauthority, hpath, hquery, hfragment⟩ := run_of_readPath hread
    refine ⟨hscheme, ?_, hpath, fun hsome => ?_, fun _ rest hrest => ?_, hquery, hfragment⟩
    · intro text hmem
      rw [hauthority] at hmem
      cases hmem
    · rw [hauthority] at hsome
      cases hsome
    · refine hne (rest ++ (announced ['?'] h.query ++ announced ['#'] h.fragment)) ?_
      rw [← htext, Hierarchy.text_eq, hauthority, Hierarchy.tail, hrest]
      rfl

/-! ### Whole addresses -/

/-- A text is read as certain parts exactly if these are well formed and make up the text. -/
theorem Parts.read_eq_ok_iff {text : List Char} {p : Parts} :
    Parts.read text = .ok p ↔ p.WellFormed ∧ p.text = text := by
  constructor
  · intro h
    refine ⟨?_, text_of_read h⟩
    unfold Parts.read at h
    split at h
    · next scheme rest hscheme =>
      obtain ⟨hierarchy, hread, rfl⟩ := map_eq_ok.1 h
      exact wellFormed_of_readHierarchy (isScheme_of_cutScheme hscheme) hread
    · split at h
      · cases h
      · obtain ⟨_, _, h⟩ := bind_eq_ok.1 h
        cases h
  · rintro ⟨hp, rfl⟩
    have hscheme := cutScheme_of_isScheme hp.scheme p.toHierarchy.text
    have hread := readHierarchy_text hp
    simp [Parts.read, Parts.text, hscheme, hread, Except.map]

/-- Two addresses are not written alike unless they are made of the same parts. -/
theorem Parts.text_injective {p p' : Parts} (h : p.WellFormed) (h' : p'.WellFormed)
    (htext : p.text = p'.text) : p = p' := by
  have hread := read_eq_ok_iff.2 ⟨h, htext⟩
  have hread' := read_eq_ok_iff.2 ⟨h', rfl⟩
  exact Except.ok.inj (hread.symm.trans hread')

theorem wellFormed_parts (iri : Iri) : iri.parts.WellFormed :=
  (Parts.read_eq_ok_iff.1 iri.reads).1

/-- The IRI of well-formed parts. -/
def ofParts (p : Parts) (h : p.WellFormed) : Iri where
  text := String.ofList p.text
  parts := p
  reads := Parts.read_eq_ok_iff.2 ⟨h, (String.toList_ofList).symm⟩

end TripleQuery.Iri
