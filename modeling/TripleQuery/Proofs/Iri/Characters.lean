import Mathlib.Data.List.TakeWhile
import TripleQuery.Iri.Basic

/-!
# The characters of an absolute IRI

A text that reads as an absolute IRI holds only characters that the grammar has a use for
(`isIriText_of_read`). So it holds no space and no angle bracket, and can stand between angle
brackets.
-/

namespace TripleQuery.Iri
open TripleQuery.Text

/-- A character that a part of an IRI may hold, or that marks a part. -/
def isIriChar (c : Char) : Bool := isQueryChar c || ['#', '%', '[', ']'].contains c

def IsIriText (text : List Char) : Prop := ∀ c ∈ text, isIriChar c = true

@[simp] theorem isIriText_nil : IsIriText [] := by simp [IsIriText]

@[simp] theorem isIriText_cons {c : Char} {rest : List Char} :
    IsIriText (c :: rest) ↔ isIriChar c = true ∧ IsIriText rest := by
  simp [IsIriText]

@[simp] theorem isIriText_append {front rest : List Char} :
    IsIriText (front ++ rest) ↔ IsIriText front ∧ IsIriText rest := by
  simp [IsIriText, or_imp, forall_and]

/-! ### The classes of the grammar -/

theorem isIriChar_of_isCommon {c : Char} (h : isCommon c = true) : isIriChar c = true := by
  simp [isIriChar, isQueryChar, isFragmentChar, isPathChar, h]

theorem isIriChar_of_isPlain {c : Char} (h : isPlain c = true) : isIriChar c = true :=
  isIriChar_of_isCommon (by simp [isCommon, h])

theorem isIriChar_of_isDigit {c : Char} (h : isDigit c = true) : isIriChar c = true :=
  isIriChar_of_isPlain (by simp [isPlain, h])

theorem isIriChar_of_isLetter {c : Char} (h : isLetter c = true) : isIriChar c = true :=
  isIriChar_of_isPlain (by simp [isPlain, h])

theorem isLetter_of_isHex {c : Char} (h : isHex c = true) :
    isDigit c = true ∨ isLetter c = true := by
  simp only [isHex, isLetter, Bool.or_eq_true, Bool.and_eq_true, decide_eq_true_eq] at h ⊢
  rcases h with (hdigit | ⟨hlow, hhigh⟩) | ⟨hlow, hhigh⟩
  · exact Or.inl hdigit
  · exact Or.inr (Or.inl ⟨hlow, Char.le_trans hhigh (by decide)⟩)
  · exact Or.inr (Or.inr ⟨hlow, Char.le_trans hhigh (by decide)⟩)

theorem isIriChar_of_isHex {c : Char} (h : isHex c = true) : isIriChar c = true :=
  (isLetter_of_isHex h).elim isIriChar_of_isDigit isIriChar_of_isLetter

theorem isIriChar_of_isSchemeChar {c : Char} (h : isSchemeChar c = true) : isIriChar c = true := by
  simp only [isSchemeChar, Bool.or_eq_true, List.contains_iff_mem, List.mem_cons] at h
  rcases h with (hletter | hdigit) | rfl | rfl | rfl | hnil
  · exact isIriChar_of_isLetter hletter
  · exact isIriChar_of_isDigit hdigit
  · decide
  · decide
  · decide
  · cases hnil

theorem isIriChar_of_isUserChar {c : Char} (h : isUserChar c = true) : isIriChar c = true := by
  simp only [isUserChar, Bool.or_eq_true, beq_iff_eq] at h
  rcases h with hcommon | rfl
  · exact isIriChar_of_isCommon hcommon
  · decide

theorem isIriChar_of_isPathChar {c : Char} (h : isPathChar c = true) : isIriChar c = true := by
  simp [isIriChar, isQueryChar, isFragmentChar, h]

theorem isIriChar_of_isFragmentChar {c : Char} (h : isFragmentChar c = true) :
    isIriChar c = true := by
  simp [isIriChar, isQueryChar, h]

theorem isIriChar_of_isQueryChar {c : Char} (h : isQueryChar c = true) : isIriChar c = true := by
  simp [isIriChar, h]

/-! ### Scanned parts -/

theorem isIriText_of_scan {allowed stop : Char → Bool} {text : List Char} {s : Scanned}
    (hallowed : ∀ c, allowed c = true → isIriChar c = true)
    (h : scan allowed stop text = .ok s) : IsIriText s.1 := by
  fun_induction scan allowed stop text generalizing s with
  | case1 => cases h; simp
  | case2 => cases h; simp
  | case3 a b more hhex _ ih =>
    obtain ⟨t, ht, rfl⟩ := map_eq_ok.1 h
    have hab := Bool.and_eq_true_iff.1 hhex
    have hpercent : isIriChar '%' = true := by decide
    simp [Scanned.after, hpercent, isIriChar_of_isHex hab.1, isIriChar_of_isHex hab.2, ih ht]
  | case4 => cases h
  | case5 => cases h
  | case6 c rest _ _ hc ih =>
    obtain ⟨t, ht, rfl⟩ := map_eq_ok.1 h
    simp [Scanned.after, hallowed c hc, ih ht]
  | case7 => cases h

theorem forall_mem_of_pieces {separator : Char} {p : Char → Prop} (hseparator : p separator) :
    ∀ {text : List Char}, (∀ piece ∈ pieces separator text, ∀ c ∈ piece, p c) →
      ∀ c ∈ text, p c := by
  intro text
  induction text with
  | nil => simp
  | cons c rest ih =>
    intro h
    by_cases hc : c = separator
    · have hrest : ∀ piece ∈ pieces separator rest, ∀ d ∈ piece, p d := by
        intro piece hpiece
        exact h piece (by simp [pieces, hc, hpiece])
      rw [hc]
      exact List.forall_mem_cons.2 ⟨hseparator, ih hrest⟩
    · cases hsplit : pieces separator rest with
      | nil => exact absurd hsplit (pieces_ne_nil separator rest)
      | cons piece more =>
        simp only [pieces, if_neg hc, hsplit, List.mem_cons, forall_eq_or_imp] at h
        have hrest : ∀ x ∈ pieces separator rest, ∀ d ∈ x, p d := by
          rw [hsplit]
          exact List.forall_mem_cons.2 ⟨h.1.2, h.2⟩
        exact List.forall_mem_cons.2 ⟨h.1.1, ih hrest⟩

/-! ### Hosts in brackets -/

theorem eq_of_mem_head?_dropWhile_ne (x : Char) (text : List Char) :
    ∀ c ∈ (text.dropWhile (· != x)).head?, c = x := by
  intro c hc
  have hhead := List.head?_dropWhile_not (· != x) text
  rw [Option.mem_def.1 hc] at hhead
  simpa using hhead

/-- A character that may stand between the brackets of a host. -/
def isBracketedChar (c : Char) : Bool := isPlain c || c == ':'

def IsBracketedText (text : List Char) : Prop := ∀ c ∈ text, isBracketedChar c = true

theorem isBracketedChar_of_isDigit {c : Char} (h : isDigit c = true) :
    isBracketedChar c = true := by
  simp [isBracketedChar, isPlain, h]

theorem isBracketedChar_of_isHex {c : Char} (h : isHex c = true) : isBracketedChar c = true := by
  rcases isLetter_of_isHex h with hdigit | hletter
  · exact isBracketedChar_of_isDigit hdigit
  · simp [isBracketedChar, isPlain, hletter]

theorem isIriChar_of_isBracketedChar {c : Char} (h : isBracketedChar c = true) :
    isIriChar c = true := by
  simp only [isBracketedChar, Bool.or_eq_true, beq_iff_eq] at h
  rcases h with hplain | rfl
  · exact isIriChar_of_isPlain hplain
  · decide

theorem isBracketedText_of_isGroup {text : List Char} (h : Ipv6.isGroup text = true) :
    IsBracketedText text := by
  simp only [Ipv6.isGroup, Bool.and_eq_true, List.all_eq_true] at h
  exact fun c hc => isBracketedChar_of_isHex (h.2 c hc)

theorem isBracketedText_of_isDotted {text : List Char} (h : Ipv6.isDotted text = true) :
    IsBracketedText text := by
  simp only [Ipv6.isDotted, Bool.and_eq_true, List.all_eq_true] at h
  have hdot : isBracketedChar '.' = true := by decide
  refine forall_mem_of_pieces hdot fun piece hpiece c hc => ?_
  have hoctet := h.2 piece hpiece
  simp only [Ipv6.isOctet, Bool.and_eq_true, List.all_eq_true] at hoctet
  exact isBracketedChar_of_isDigit (hoctet.1.1.2 c hc)

theorem isBracketedText_of_countGroups {dotted : Bool} {groups : List (List Char)} {n : Nat}
    (h : Ipv6.countGroups dotted groups = some n) : ∀ group ∈ groups, IsBracketedText group := by
  fun_induction Ipv6.countGroups dotted groups generalizing n with
  | case1 => simp
  | case2 last hgroup => simpa using isBracketedText_of_isGroup hgroup
  | case3 last _ hdotted =>
    simpa using isBracketedText_of_isDotted (Bool.and_eq_true_iff.1 hdotted).2
  | case4 => cases h
  | case5 piece more _ hgroup ih =>
    obtain ⟨m, hm, -⟩ := Option.map_eq_some_iff.1 h
    exact List.forall_mem_cons.2 ⟨isBracketedText_of_isGroup hgroup, ih hm⟩
  | case6 => cases h

theorem isBracketedText_of_countSide {dotted : Bool} {text : List Char} {n : Nat}
    (h : Ipv6.countSide dotted text = some n) : IsBracketedText text := by
  have hcolon : isBracketedChar ':' = true := by decide
  unfold Ipv6.countSide at h
  split at h
  · next hempty => simp [IsBracketedText, List.isEmpty_iff.1 hempty]
  · exact forall_mem_of_pieces hcolon (isBracketedText_of_countGroups h)

theorem cutDoubleColon_append {text before after : List Char}
    (h : Ipv6.cutDoubleColon text = some (before, after)) :
    before ++ ':' :: ':' :: after = text := by
  fun_induction Ipv6.cutDoubleColon text generalizing before with
  | case1 => cases h; rfl
  | case2 c rest _ ih =>
    obtain ⟨⟨front, back⟩, hsides, hpair⟩ := Option.map_eq_some_iff.1 h
    cases hpair
    simp [ih hsides]
  | case3 => cases h

theorem isBracketedText_of_isAddress {text : List Char} (h : Ipv6.isAddress text = true) :
    IsBracketedText text := by
  have hcolon : isBracketedChar ':' = true := by decide
  unfold Ipv6.isAddress at h
  split at h
  · exact forall_mem_of_pieces hcolon (isBracketedText_of_countGroups (beq_iff_eq.1 h))
  · next before after hcut =>
    split at h
    · next m n hbefore hafter =>
      rw [← cutDoubleColon_append hcut]
      intro c hc
      simp only [List.mem_append, List.mem_cons] at hc
      rcases hc with hc | rfl | rfl | hc
      · exact isBracketedText_of_countSide hbefore c hc
      · exact hcolon
      · exact hcolon
      · exact isBracketedText_of_countSide hafter c hc
    · cases h

theorem isBracketedText_of_checkFutureAddress {text : List Char}
    (h : checkFutureAddress text = .ok ()) : IsBracketedText text := by
  unfold checkFutureAddress at h
  split at h
  · cases h
  · split at h
    · cases h
    · next hnone =>
      intro c hc
      have hplain := List.find?_eq_none.1 hnone c hc
      simpa only [isBracketedChar, Bool.not_eq_true, Bool.not_eq_false'] using hplain

theorem isBracketedText_of_checkFuture {text : List Char} (h : checkFuture text = .ok ()) :
    IsBracketedText text := by
  have hdigits : IsBracketedText (text.takeWhile isHex) :=
    fun c hc => isBracketedChar_of_isHex (List.mem_takeWhile_imp hc)
  simp only [checkFuture] at h
  rw [← List.takeWhile_append_dropWhile (p := isHex) (l := text)]
  split at h
  · next address hrest =>
    split at h
    · cases h
    · have hstop : isBracketedChar '.' = true := by decide
      have haddress := isBracketedText_of_checkFutureAddress h
      rw [hrest]
      exact List.forall_mem_append.2 ⟨hdigits, List.forall_mem_cons.2 ⟨hstop, haddress⟩⟩
  · cases h
  · cases h

theorem isBracketedText_of_checkBracketed {text : List Char} (h : checkBracketed text = .ok ()) :
    IsBracketedText text := by
  have hsmall : isBracketedChar 'v' = true := by decide
  have hlarge : isBracketedChar 'V' = true := by decide
  unfold checkBracketed at h
  split at h
  · exact List.forall_mem_cons.2 ⟨hsmall, isBracketedText_of_checkFuture h⟩
  · exact List.forall_mem_cons.2 ⟨hlarge, isBracketedText_of_checkFuture h⟩
  · split at h
    · next haddress => exact isBracketedText_of_isAddress haddress
    · cases h

/-! ### Authorities -/

theorem isIriText_of_readPort {text : List Char} {s : Scanned} (h : readPort text = .ok s) :
    IsIriText s.1 := by
  simp only [readPort] at h
  split at h
  · cases h
  · next hnone =>
    cases h
    intro c hc
    have hdigit := List.find?_eq_none.1 hnone c hc
    exact isIriChar_of_isDigit (by simpa using hdigit)

theorem isIriText_of_readPortPart {text : List Char} {s : Scanned}
    (h : readPortPart text = .ok s) : IsIriText s.1 := by
  cases text with
  | nil => cases h; simp
  | cons c rest =>
    simp only [readPortPart] at h
    split at h
    · obtain ⟨t, ht, rfl⟩ := map_eq_ok.1 h
      have hcolon : isIriChar ':' = true := by decide
      simp [Scanned.after, hcolon, isIriText_of_readPort ht]
    · split at h
      · cases h; simp
      · cases h

theorem isIriText_of_readHost {text : List Char} {s : Scanned} (h : readHost text = .ok s) :
    IsIriText s.1 := by
  unfold readHost at h
  split at h
  · next rest =>
    split at h
    · cases h
    · next close tail hclose =>
      obtain ⟨_, hinside, h⟩ := bind_eq_ok.1 h
      obtain ⟨t, ht, rfl⟩ := map_eq_ok.1 h
      have hbracket : close = ']' :=
        eq_of_mem_head?_dropWhile_ne ']' rest close (by rw [hclose]; rfl)
      have hopen : isIriChar '[' = true := by decide
      have hshut : isIriChar ']' = true := by decide
      have hrange : IsIriText (rest.takeWhile (· != ']')) := fun c hc =>
        isIriChar_of_isBracketedChar (isBracketedText_of_checkBracketed hinside c hc)
      simp [Scanned.after, hbracket, hopen, hshut, hrange, isIriText_of_readPortPart ht]
  · obtain ⟨host, hhost, h⟩ := bind_eq_ok.1 h
    obtain ⟨t, ht, rfl⟩ := map_eq_ok.1 h
    have hleft := isIriText_of_scan (fun c => isIriChar_of_isCommon) hhost
    simp [Scanned.after, hleft, isIriText_of_readPortPart ht]

theorem isIriText_of_readAuthority {text : List Char} {s : Scanned}
    (h : readAuthority text = .ok s) : IsIriText s.1 := by
  unfold readAuthority at h
  obtain ⟨user, huser, h⟩ := bind_eq_ok.1 h
  have hleft := isIriText_of_scan (fun c => isIriChar_of_isUserChar) huser
  split at h
  · obtain ⟨t, ht, rfl⟩ := map_eq_ok.1 h
    have hat : isIriChar '@' = true := by decide
    simp [Scanned.after, hleft, hat, isIriText_of_readHost ht]
  · exact isIriText_of_readHost h

/-! ### Whole addresses -/

theorem isIriText_of_readFragment {text : List Char} {fragment : Option (List Char)}
    (h : readFragment text = .ok fragment) : IsIriText (announced ['#'] fragment) := by
  unfold readFragment at h
  split at h
  · obtain ⟨s, hs, rfl⟩ := map_eq_ok.1 h
    have hmark : isIriChar '#' = true := by decide
    simp [announced, hmark, isIriText_of_scan (fun c => isIriChar_of_isFragmentChar) hs]
  · cases h
    simp [announced]

theorem isIriText_of_readQuery {text rest : List Char} {query : Option (List Char)}
    (h : readQuery text = .ok (query, rest)) : IsIriText (announced ['?'] query) := by
  unfold readQuery at h
  split at h
  · obtain ⟨s, hs, hs'⟩ := map_eq_ok.1 h
    cases hs'
    have hmark : isIriChar '?' = true := by decide
    simp [announced, hmark, isIriText_of_scan (fun c => isIriChar_of_isQueryChar) hs]
  · cases h
    simp [announced]

theorem isIriText_of_readPath {authority : Option (List Char)} {text : List Char} {h : Hierarchy}
    (hread : readPath authority [] text = .ok h) : IsIriText text := by
  have htext := readPath_text hread
  unfold readPath at hread
  obtain ⟨path, hpath, hread⟩ := bind_eq_ok.1 hread
  obtain ⟨⟨query, rest⟩, hquery, hread⟩ := bind_eq_ok.1 hread
  obtain ⟨fragment, hfragment, hread⟩ := bind_eq_ok.1 hread
  cases hread
  simp only [Hierarchy.text, List.nil_append, List.append_nil, List.append_assoc,
    List.append_cancel_left_eq] at htext
  rw [← htext]
  simp [isIriText_of_scan (fun c => isIriChar_of_isPathChar) hpath,
    isIriText_of_readQuery hquery, isIriText_of_readFragment hfragment]

theorem isIriText_of_readHierarchy {text : List Char} {h : Hierarchy}
    (hread : readHierarchy text = .ok h) : IsIriText text := by
  unfold readHierarchy at hread
  split at hread
  · next rest =>
    obtain ⟨authority, hauthority, hread⟩ := bind_eq_ok.1 hread
    have hslash : isIriChar '/' = true := by decide
    rw [← readAuthority_append hauthority]
    simp [hslash, isIriText_of_readAuthority hauthority, isIriText_of_readPath hread]
  · exact isIriText_of_readPath hread

theorem isIriText_of_cutScheme {text scheme rest : List Char}
    (h : cutScheme text = some (scheme, rest)) : IsIriText scheme := by
  cases text with
  | nil => cases h
  | cons c more =>
    simp only [cutScheme] at h
    split at h
    · next hletter =>
      split at h
      · cases h
        refine isIriText_cons.2 ⟨isIriChar_of_isLetter hletter, fun d hd => ?_⟩
        exact isIriChar_of_isSchemeChar (List.mem_takeWhile_imp hd)
      · cases h
    · cases h

theorem isIriText_of_read {text : List Char} {parts : Parts} (h : Parts.read text = .ok parts) :
    IsIriText text := by
  unfold Parts.read at h
  split at h
  · next scheme rest hscheme =>
    obtain ⟨hierarchy, hrest, rfl⟩ := map_eq_ok.1 h
    have hcolon : isIriChar ':' = true := by decide
    rw [← cutScheme_append hscheme]
    simp [hcolon, isIriText_of_cutScheme hscheme, isIriText_of_readHierarchy hrest]
  · split at h
    · cases h
    · obtain ⟨_, _, h⟩ := bind_eq_ok.1 h
      cases h

end TripleQuery.Iri
