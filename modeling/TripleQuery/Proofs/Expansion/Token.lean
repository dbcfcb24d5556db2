import TripleQuery.Proofs.Iri.Grammar
import TripleQuery.Proofs.Text.Apart
import TripleQuery.Proofs.WellFormed

/-!
# Expansion of one token

What a token stands for under a table of prefixes, for every text. A token with a label of the table
stands for the name space with the rest of the token behind it (`Prefixes.resolve_eq_expansion`).
The rest goes on with the last part that the name space has, which can be its path, its query or its
fragment (`Iri.Parts.extend`); the result is an address again, unless it goes on with an authority,
or a character of private use gets into a fragment (`Iri.Parts.wellFormed_extend`).
-/

namespace TripleQuery

/-! ### A name space that goes on -/

namespace Iri
open Text

theorem Run.mono_of_mem {allowed allowed' : Char → Bool} {part : List Char} (h : Run allowed part)
    (hallowed : ∀ c ∈ part, allowed c = true → allowed' c = true) : Run allowed' part := by
  induction h with
  | nil => exact .nil
  | encoded ha hb _ ih =>
    refine .encoded ha hb (ih fun c hc => hallowed c ?_)
    exact List.mem_cons_of_mem _ (List.mem_cons_of_mem _ (List.mem_cons_of_mem _ hc))
  | char hc hallow _ ih =>
    refine .char hc (hallowed _ (List.mem_cons_self ..) hallow) (ih fun c hc => hallowed c ?_)
    exact List.mem_cons_of_mem _ hc

theorem Halts.append {stop : Char → Bool} {part : List Char} (h : Halts stop part)
    (hne : part ≠ []) (rest : List Char) : Halts stop (part ++ rest) := by
  cases part with
  | nil => exact absurd rfl hne
  | cons c more => exact halts_cons.2 (halts_cons.1 h)

def isPrivate (c : Char) : Bool := inRanges privateRanges c

theorem run_announced {allowed : Char → Bool} {query : Option (List Char)}
    (hmark : allowed '?' = true) (h : ∀ text ∈ query, Run allowed text) :
    Run allowed (announced ['?'] query) := by
  cases query with
  | none => exact .nil
  | some text => exact .char (by decide) hmark (h text rfl)

/-- What a path and a query are in a text that stands behind a scheme. -/
def Hierarchy.front (h : Hierarchy) : List Char := h.path ++ announced ['?'] h.query

theorem Hierarchy.run_front {h : Hierarchy} (hpath : Run isPathChar h.path)
    (hquery : ∀ query ∈ h.query, Run isQueryChar query) : Run isQueryChar h.front := by
  have hpath : Run isQueryChar h.path := hpath.mono fun c hc => by
    simp [isQueryChar, isFragmentChar, hc]
  exact hpath.append (run_announced (by decide) hquery)

theorem Hierarchy.text_eq_front {h : Hierarchy} (hauthority : h.authority = none) :
    h.text = h.front ++ announced ['#'] h.fragment := by
  simp [text, front, hauthority, announced]

/-- Up to the mark of a fragment stand path and query. -/
theorem Hierarchy.takeWhile_text {h : Hierarchy} (hauthority : h.authority = none)
    (hpath : Run isPathChar h.path) (hquery : ∀ query ∈ h.query, Run isQueryChar query) :
    h.text.takeWhile (· != '#') = h.front := by
  have hfront := (run_front hpath hquery).notMem (c := '#') (by decide)
  rw [text_eq_front hauthority, List.takeWhile_append_of_pos (forall_ne_of_notMem hfront)]
  cases h.fragment <;> simp [announced]

namespace Parts

/-- The parts of an address with path and query of a further text behind its last part. -/
def extend (p : Parts) (h : Hierarchy) : Parts :=
  match p.fragment, p.query with
  | some fragment, _ => { p with fragment := some (fragment ++ h.front) }
  | none, some query => { p with query := some (query ++ h.front) }
  | none, none => { p with path := p.path ++ h.path, query := h.query }

theorem text_extend (p : Parts) (h : Hierarchy) : (p.extend h).text = p.text ++ h.front := by
  obtain ⟨⟨authority, path, query, fragment⟩, scheme⟩ := p
  cases fragment with
  | some fragment => simp [extend, text, Hierarchy.text, announced]
  | none =>
    cases query with
    | some query => simp [extend, text, Hierarchy.text, announced]
    | none => simp [extend, text, Hierarchy.text, Hierarchy.front, announced]

/-- A text behind the parts gets neither into an authority nor makes one. -/
def Continues (p : Parts) : Prop :=
  p.authority = none ∨ p.path ≠ [] ∨ p.query ≠ none ∨ p.fragment ≠ none

instance (p : Parts) : Decidable p.Continues := inferInstanceAs (Decidable (_ ∨ _))

theorem append_ne_slashes {front path : List Char} (hfront : ∀ rest, front ≠ '/' :: '/' :: rest)
    (hpath : path.head? ≠ some '/') (rest : List Char) : front ++ path ≠ '/' :: '/' :: rest := by
  intro heq
  rcases front with _ | ⟨c, _ | ⟨d, more⟩⟩
  · rw [List.nil_append] at heq
    rw [heq] at hpath
    exact hpath rfl
  · rw [List.singleton_append] at heq
    rw [(List.cons_eq_cons.1 heq).2] at hpath
    exact hpath rfl
  · obtain ⟨rfl, hmore⟩ := List.cons_eq_cons.1 heq
    obtain ⟨rfl, -⟩ := List.cons_eq_cons.1 hmore
    exact hfront more rfl

/-- The seam is sound: path and query that follow an address make up one again. -/
theorem wellFormed_extend {p : Parts} {h : Hierarchy} (hp : p.WellFormed) (hc : p.Continues)
    (hpath : Run isPathChar h.path) (hquery : ∀ query ∈ h.query, Run isQueryChar query)
    (hstart : h.path.head? ≠ some '/') (hfree : ∀ c ∈ h.front, isPrivate c = false) :
    (p.extend h).WellFormed := by
  have hrun := Hierarchy.run_front hpath hquery
  unfold extend
  split
  · next fragment hfragment =>
    have hrun : Run isFragmentChar h.front := hrun.mono_of_mem fun c hmem hquery => by
      have hpublic := hfree c hmem
      unfold isPrivate at hpublic
      simpa [isQueryChar, hpublic] using hquery
    refine ⟨hp.scheme, hp.authority, hp.path, hp.rooted, hp.unrooted, hp.query, ?_⟩
    rintro text htext
    cases htext
    exact (hp.fragment fragment hfragment).append hrun
  · next query hnone hsome =>
    refine ⟨hp.scheme, hp.authority, hp.path, hp.rooted, hp.unrooted, ?_, hp.fragment⟩
    rintro text htext
    cases htext
    exact (hp.query query hsome).append hrun
  · next hnone hnone' =>
    refine ⟨hp.scheme, hp.authority, hp.path.append hpath, fun hsome => ?_, fun habsent => ?_,
      hquery, hp.fragment⟩
    · have hne : p.path ≠ [] := by
        rcases hc with habsent | hne | hquery | hfragment
        · rw [habsent] at hsome
          cases hsome
        · exact hne
        · exact absurd hnone' hquery
        · exact absurd hnone hfragment
      exact (hp.rooted hsome).append hne h.path
    · exact append_ne_slashes (hp.unrooted habsent) hstart

end Parts

/-- Without a slash behind the scheme there is no authority, and the path does not start at
a root. -/
theorem unrooted_of_afterScheme {iri : Iri} (h : iri.afterScheme.head? ≠ some '/') :
    iri.parts.authority = none ∧ iri.parts.path.head? ≠ some '/' := by
  cases hauthority : iri.parts.authority with
  | some authority =>
    refine absurd ?_ h
    simp [afterScheme, Hierarchy.text, hauthority, announced]
  | none =>
    refine ⟨rfl, fun hpath => h ?_⟩
    rw [afterScheme, Hierarchy.text_eq_front hauthority, Hierarchy.front, List.append_assoc,
      List.head?_append, hpath]
    rfl

/-- A label without a colon in front of a colon is the scheme of an address. -/
theorem eq_of_text_eq {iri : Iri} {label rest : String} (hlabel : ':' ∉ label.toList)
    (h : iri.text = label ++ ":" ++ rest) :
    iri.scheme = label ∧ iri.afterScheme = rest.toList := by
  have hscheme := (wellFormed_parts iri).scheme.notMem (c := ':') (by decide)
  have htext : iri.parts.scheme ++ ':' :: iri.afterScheme = label.toList ++ ':' :: rest.toList := by
    have hchars := iri.text_eq_parts_text
    rw [h] at hchars
    simpa [afterScheme, Parts.text] using hchars.symm
  obtain ⟨hleft, hright⟩ := append_inj_of_stop (forall_ne_of_notMem hscheme)
    (forall_ne_of_notMem hlabel) (by simp) (by simp) htext
  refine ⟨?_, (List.cons_eq_cons.1 hright).2⟩
  rw [scheme, hleft, String.ofList_toList]

end Iri

/-! ### Tokens -/

/-- An outcome is the address with this text, or tells that the text is none. -/
def ReadsAs (outcome : Except Error Iri) (text : String) : Prop :=
  (IsReference text → ∃ iri, outcome = .ok iri ∧ iri.text = text) ∧
    (¬ IsReference text → ∃ fault, outcome = .error (.malformed text fault))

theorem readsAs_readReference (text : String) : ReadsAs (readReference text) text := by
  constructor
  · rintro ⟨iri, rfl⟩
    exact ⟨iri, readReference_text iri, rfl⟩
  · intro h
    cases hread : readReference text with
    | ok iri => exact absurd (isReference_iff_parse.2 ⟨iri, mapError_eq_ok.1 hread⟩) h
    | error e =>
      obtain ⟨fault, rfl⟩ := readReference_eq_error hread
      exact ⟨fault, rfl⟩

namespace Prefixes

variable {table : Prefixes} {iri ns : Iri}

theorem resolve_text (table : Prefixes) (iri : Iri) :
    table.resolve iri.text =
      if iri.afterScheme.head? = some '/' then .ok iri
      else match table.find? iri.scheme with
        | none => .ok iri
        | some ns => readReference (ns.text ++ String.ofList (localPart iri)) := by
  rw [resolve, readReference_text]
  rfl

theorem resolve_text_self (h : table.find? iri.scheme = none ∨ iri.afterScheme.head? = some '/') :
    table.resolve iri.text = .ok iri := by
  rw [resolve_text]
  rcases h with hfind | hslash
  · rw [hfind]
    exact ite_self _
  · rw [if_pos hslash]

/-- The text in front of the mark of a fragment. -/
def beforeFragment (rest : String) : String := String.ofList (rest.toList.takeWhile (· != '#'))

theorem resolve_label {label rest : String} (hlabel : ':' ∉ label.toList)
    (hfind : table.find? label = some ns) (htext : iri.text = label ++ ":" ++ rest)
    (hrest : rest.toList.head? ≠ some '/') :
    table.resolve (label ++ ":" ++ rest) = readReference (ns.text ++ beforeFragment rest) := by
  obtain ⟨hscheme, hafter⟩ := Iri.eq_of_text_eq hlabel htext
  have hlocal : String.ofList (localPart iri) = beforeFragment rest := by
    rw [localPart, hafter, beforeFragment]
  rw [← htext, resolve_text, hafter, if_neg hrest, hscheme, hfind, hlocal]

/-- A name space that can go on is continued by any token, but for characters of private use. -/
theorem isReference_expansion {label rest : String} (hlabel : ':' ∉ label.toList)
    (htext : iri.text = label ++ ":" ++ rest) (hrest : rest.toList.head? ≠ some '/')
    (hns : ns.parts.Continues)
    (hfree : ∀ c ∈ (beforeFragment rest).toList, Iri.isPrivate c = false) :
    IsReference (ns.text ++ beforeFragment rest) := by
  obtain ⟨-, hafter⟩ := Iri.eq_of_text_eq hlabel htext
  obtain ⟨hauthority, hpath⟩ := Iri.unrooted_of_afterScheme (hafter ▸ hrest)
  have hparts := Iri.wellFormed_parts iri
  have hfront : (beforeFragment rest).toList = iri.parts.front := by
    have hlocal := Iri.Hierarchy.takeWhile_text hauthority hparts.path hparts.query
    rw [beforeFragment, String.toList_ofList, ← hafter]
    exact hlocal
  rw [hfront] at hfree
  have hextend := Iri.Parts.wellFormed_extend (Iri.wellFormed_parts ns) hns hparts.path hparts.query
    hpath hfree
  refine ⟨Iri.ofParts _ hextend, String.toList_injective ?_⟩
  rw [Iri.ofParts, String.toList_ofList, Iri.Parts.text_extend, String.toList_append, hfront,
    Iri.text_eq_parts_text]

/-- A token with a label of the table stands for the name space with its rest behind it, or fails
with this text. A token without one, or with a slash behind its scheme, stands for itself, and what
is no address fails with its own text. -/
theorem resolve_eq_expansion (table : Prefixes) :
    (∀ (label rest : String) (ns : Iri), ':' ∉ label.toList → table.find? label = some ns →
        IsReference (label ++ ":" ++ rest) → rest.toList.head? ≠ some '/' →
        ReadsAs (table.resolve (label ++ ":" ++ rest)) (ns.text ++ beforeFragment rest) ∧
          (ns.parts.Continues →
            (∀ c ∈ (beforeFragment rest).toList, Iri.isPrivate c = false) →
            ∃ iri, table.resolve (label ++ ":" ++ rest) = .ok iri ∧
              iri.text = ns.text ++ beforeFragment rest)) ∧
      (∀ iri : Iri, table.find? iri.scheme = none ∨ iri.afterScheme.head? = some '/' →
        table.resolve iri.text = .ok iri) ∧
      ∀ token : String, ¬ IsReference token →
        ∃ fault, table.resolve token = .error (.malformed token fault) := by
  refine ⟨fun label rest ns hlabel hfind htoken hrest => ?_, fun iri => resolve_text_self,
    fun token h => ?_⟩
  · obtain ⟨iri, htext⟩ := htoken
    have hreads : ReadsAs (table.resolve (label ++ ":" ++ rest))
        (ns.text ++ beforeFragment rest) := by
      rw [resolve_label hlabel hfind htext hrest]
      exact readsAs_readReference _
    exact ⟨hreads, fun hns hfree =>
      hreads.1 (isReference_expansion hlabel htext hrest hns hfree)⟩
  · obtain ⟨fault, hfault⟩ := (readsAs_readReference token).2 h
    refine ⟨fault, ?_⟩
    rw [resolve, hfault]
    rfl

/-! ### Two tables -/

def typesSpace : Iri :=
  have hreference : IsReference "http://w3/Schema#" := by decide +kernel
  hreference.iri

def hostSpace : Iri :=
  have hreference : IsReference "http://e" := by decide +kernel
  hreference.iri

/-- A name space that ends in a fragment, and one that ends in a host. -/
def typesTable : Prefixes := ofList [("xsd", typesSpace), ("e", hostSpace)]

def rootedToken : Iri :=
  have hreference : IsReference "xsd:/a#d" := by decide +kernel
  hreference.iri

/-- A fragment goes on with path and query of a token. A host may go on with what is no port. -/
theorem resolve_typesTable :
    (∃ iri, typesTable.resolve "xsd:a/b?c#d" = .ok iri ∧ iri.text = "http://w3/Schema#a/b?c") ∧
      (∃ fault, typesTable.resolve "e::a" = .error (.malformed "http://e:a" fault)) ∧
      typesTable.resolve rootedToken.text = .ok rootedToken ∧
      ∃ fault, typesTable.resolve "a b" = .error (.malformed "a b" fault) := by
  obtain ⟨hlabels, hself, hother⟩ := resolve_eq_expansion typesTable
  have htypes : typesTable.find? "xsd" = some typesSpace := by decide +kernel
  have hhost : typesTable.find? "e" = some hostSpace := by decide +kernel
  have hfragment := hlabels "xsd" "a/b?c#d" typesSpace (by decide) htypes (by decide +kernel)
    (by decide)
  have hport := hlabels "e" ":a" hostSpace (by decide) hhost (by decide +kernel) (by decide)
  have htoken : "xsd" ++ ":" ++ "a/b?c#d" = "xsd:a/b?c#d" := by decide
  have htoken' : "e" ++ ":" ++ ":a" = "e::a" := by decide
  have hexpansion : typesSpace.text ++ beforeFragment "a/b?c#d" = "http://w3/Schema#a/b?c" := by
    decide +kernel
  have hexpansion' : hostSpace.text ++ beforeFragment ":a" = "http://e:a" := by decide +kernel
  have hfree : ∀ c ∈ (beforeFragment "a/b?c#d").toList, Iri.isPrivate c = false := by
    have hall : (beforeFragment "a/b?c#d").toList.all (!Iri.isPrivate ·) = true := by decide +kernel
    simpa using hall
  rw [htoken, hexpansion] at hfragment
  rw [htoken', hexpansion'] at hport
  refine ⟨?_, hport.1.2 (by decide +kernel), ?_, hother "a b" (by decide +kernel)⟩
  · exact hfragment.2 (by decide +kernel) hfree
  · exact hself rootedToken (Or.inr (by decide +kernel))

def pathSpace : Iri :=
  have hreference : IsReference "http://e/" := by decide +kernel
  hreference.iri

/-- A table with a label that holds a colon. -/
def colonTable : Prefixes := ofList [("urn:x", pathSpace)]

def colonToken : Iri :=
  have hreference : IsReference "urn:x:y" := by decide +kernel
  hreference.iri

/-- The label of a token ends with its first colon, so a label with a colon is never found. -/
theorem not_readsAs_colonTable :
    colonTable.find? "urn:x" = some pathSpace ∧ "y".toList.head? ≠ some '/' ∧
      IsReference ("urn:x" ++ ":" ++ "y") ∧ IsReference (pathSpace.text ++ beforeFragment "y") ∧
      colonTable.resolve ("urn:x" ++ ":" ++ "y") = .ok colonToken ∧
      ¬ ReadsAs (colonTable.resolve ("urn:x" ++ ":" ++ "y"))
        (pathSpace.text ++ beforeFragment "y") := by
  have hexpansion : IsReference (pathSpace.text ++ beforeFragment "y") := by decide +kernel
  have htoken : "urn:x" ++ ":" ++ "y" = colonToken.text := by decide +kernel
  have hread : colonTable.resolve ("urn:x" ++ ":" ++ "y") = .ok colonToken := by
    have hslash : colonToken.afterScheme.head? ≠ some '/' := by decide +kernel
    have hfind : colonTable.find? colonToken.scheme = none := by decide +kernel
    rw [htoken, resolve_text, if_neg hslash, hfind]
  refine ⟨by decide +kernel, by decide, by decide +kernel, hexpansion, hread, fun hreads => ?_⟩
  obtain ⟨iri, hiri, htext⟩ := hreads.1 hexpansion
  have hsame : colonToken = iri := Except.ok.inj (hread.symm.trans hiri)
  rw [← hsame] at htext
  exact absurd htext (by decide +kernel)

end Prefixes
end TripleQuery
