import TripleQuery.Proofs.Shown.Pattern

/-!
# Literals in strands

What is shown between the quotes of a literal can be cut into strands and read again. A cut must not
take a backslash away from the character that it escapes; with that, reading the strands one by one
is reading the text at once (`Strand.flatMap_meaning_of_cut`), and so every way to cut gives back
the literal (`Literal.resolve_iff_of_cut`).
-/

namespace TripleQuery

/-! ### Cuts in quoted text -/

namespace Text.Quoted

/-- How many backslashes stand at the end of a text. -/
def trailing (text : List Char) : Nat := (text.reverse.takeWhile (· == '\\')).length

/-- A cut takes a backslash away from the character that it escapes: the run of backslashes in front
of the cut is odd, so the last of them escapes what stands behind the cut. -/
def Severs (front rest : List Char) : Prop := trailing front % 2 = 1 ∧ rest ≠ []

instance (front rest : List Char) : Decidable (Severs front rest) :=
  inferInstanceAs (Decidable (_ ∧ _))

theorem trailing_append (front text : List Char) :
    trailing (front ++ text)
      = if trailing text = text.length then trailing front + text.length else trailing text := by
  by_cases hall : trailing text = text.length
  · have hrun : (text.reverse.takeWhile (· == '\\')).length = text.reverse.length := by
      rw [List.length_reverse]
      exact hall
    rw [if_pos hall, trailing, List.reverse_append, List.takeWhile_append, if_pos hrun,
      List.length_append, List.length_reverse, Nat.add_comm]
    rfl
  · have hrun : (text.reverse.takeWhile (· == '\\')).length ≠ text.reverse.length := by
      rw [List.length_reverse]
      exact hall
    rw [if_neg hall, trailing, List.reverse_append, List.takeWhile_append, if_neg hrun]
    rfl

theorem trailing_cons {c : Char} (h : c ≠ '\\') (text : List Char) :
    trailing (c :: text) = trailing text := by
  have hfirst : trailing [c] = 0 := by simp [trailing, h]
  have happend := trailing_append [c] text
  rw [hfirst, List.singleton_append] at happend
  rw [happend]
  split <;> omega

/-- A backslash and the character that it escapes do not count, be that a backslash too or not. -/
theorem trailing_escape (c : Char) (text : List Char) :
    trailing ('\\' :: c :: text) % 2 = trailing text % 2 := by
  have hfirst : trailing ['\\', c] % 2 = 0 := by
    by_cases hc : c = '\\'
    · rw [hc]
      rfl
    · simp [trailing, hc]
  have happend := trailing_append ['\\', c] text
  rw [List.cons_append, List.singleton_append] at happend
  rw [happend]
  split <;> omega

theorem unescape_of_notMem {text : List Char} (h : '\\' ∉ text) : unescape text = text := by
  induction text with
  | nil => rfl
  | cons c rest ih =>
    have hc : c ≠ '\\' := fun hc => h (hc ▸ List.mem_cons_self ..)
    rw [unescape_cons hc, ih fun hmem => h (List.mem_cons_of_mem _ hmem)]

/-- Where no escape is severed, the two parts of a text are read on their own. -/
theorem unescape_append {front rest : List Char} (h : ¬ Severs front rest) :
    unescape (front ++ rest) = unescape front ++ unescape rest := by
  fun_induction unescape front with
  | case1 => rfl
  | case2 c more ih =>
    have hmore : ¬ Severs more rest := by rwa [Severs, ← trailing_escape c]
    simp [unescape, ih hmore]
  | case3 c more hne ih =>
    by_cases hc : c = '\\'
    · -- the backslash is the last character, so nothing may follow the cut
      cases more with
      | cons d more => exact absurd rfl (hne d more hc)
      | nil =>
        have hrest : rest = [] := by
          by_contra hrest
          exact h ⟨by rw [hc]; rfl, hrest⟩
        rw [hrest, List.append_nil, hc]
        rfl
    · have hmore : ¬ Severs more rest := by rwa [Severs, ← trailing_cons hc]
      rw [List.cons_append, unescape_cons hc, ih hmore, List.cons_append]

end Text.Quoted

/-! ### Strands of a text -/

namespace Strand
open Text.Quoted

/-- A strand as it is written. -/
def written : Strand → List Char
  | plain text | escaped text => text.toList

/-- Plain text holds no backslash. -/
def Fits : Strand → Prop
  | plain text => '\\' ∉ text.toList
  | escaped _ => True

instance : DecidablePred Fits
  | plain text => inferInstanceAs (Decidable ('\\' ∉ text.toList))
  | escaped _ => inferInstanceAs (Decidable True)

/-- The strands are the text, cut where no escape is severed. -/
structure Cut (text : List Char) (strands : List Strand) : Prop where
  joined : strands.flatMap written = text
  whole : ∀ n < strands.length,
    ¬ Severs ((strands.take n).flatMap written) ((strands.drop n).flatMap written)
  fits : ∀ strand ∈ strands, strand.Fits

theorem meaning_eq_unescape {strand : Strand} (h : strand.Fits) :
    strand.meaning = unescape strand.written := by
  cases strand with
  | plain text => exact (unescape_of_notMem h).symm
  | escaped text => rfl

theorem Cut.not_severs {text : List Char} {strands : List Strand} (h : Cut text strands) {n : Nat}
    {strand : Strand} (hn : strands[n]? = some strand) :
    ¬ Severs ((strands.take n).flatMap written) strand.written := by
  obtain ⟨hlt, hget⟩ := List.getElem?_eq_some_iff.1 hn
  rintro ⟨hodd, hne⟩
  refine h.whole n hlt ⟨hodd, fun hnil => hne ?_⟩
  rw [List.drop_eq_getElem_cons hlt, hget, List.flatMap_cons, List.append_eq_nil_iff] at hnil
  exact hnil.1

theorem Cut.flatMap_meaning_take {text : List Char} {strands : List Strand} (h : Cut text strands)
    (n : Nat) :
    (strands.take n).flatMap meaning = unescape ((strands.take n).flatMap written) := by
  induction n with
  | zero => rfl
  | succ n ih =>
    rw [List.take_add_one]
    cases hn : strands[n]? with
    | none => simpa using ih
    | some strand =>
      have hmeaning := meaning_eq_unescape (h.fits strand (List.mem_of_getElem? hn))
      simp only [Option.toList_some, List.flatMap_append, List.flatMap_singleton]
      rw [unescape_append (h.not_severs hn), ih, hmeaning]

/-- How a text is cut does not matter. -/
theorem flatMap_meaning_of_cut {text : List Char} {strands : List Strand} (h : Cut text strands) :
    strands.flatMap meaning = unescape text := by
  have hall := h.flatMap_meaning_take strands.length
  rwa [List.take_length, h.joined] at hall

end Strand

/-! ### Literals -/

namespace Literal
open Text.Quoted

/-- Any strands of what is shown between the quotes of a literal have its text, and with its
datatype they are read as this literal, without any prefixes, whenever the datatype can be a
reference. -/
theorem resolve_iff_of_cut {v : Literal} {shown : List Char} {strands : List Strand}
    (hshown : v.render.toList = '\'' :: (shown ++ '\'' :: shownDatatype v.datatype))
    (hcut : Strand.Cut shown strands) :
    unescape shown = v.lexical.toList ∧ Phrase.text ⟨strands, v.datatype⟩ = v.lexical ∧
      (Phrase.resolve .empty ⟨strands, v.datatype⟩ = .ok v ↔
        ∀ datatype ∈ v.datatype, IsReference datatype) := by
  have hescape : shown = escape v.lexical.toList := by
    rw [toList_render, List.cons_eq_cons, List.append_cancel_right_eq] at hshown
    exact hshown.2.symm
  have hunescape : unescape shown = v.lexical.toList := by rw [hescape, unescape_escape]
  have htext : Phrase.text ⟨strands, v.datatype⟩ = v.lexical := by
    rw [Phrase.text, Strand.flatMap_meaning_of_cut hcut, hunescape, String.ofList_toList]
  exact ⟨hunescape, htext, Phrase.resolve_empty_iff htext rfl⟩

/-- A text with a quote and backslashes, one of which stands in front of an `n`. -/
def quotedPath : Literal := ⟨"it's C:\\\\new\\", some "urn:path"⟩

def quotedPathStrands : List Strand :=
  [.escaped "it\\'s", .plain " C:", .escaped "\\\\", .plain "", .escaped "\\\\n", .plain "ew",
    .escaped "\\\\"]

theorem resolve_quotedPathStrands :
    quotedPath.render = "'it\\'s C:\\\\\\\\new\\\\'^^<urn:path>" ∧
      Strand.Cut "it\\'s C:\\\\\\\\new\\\\".toList quotedPathStrands ∧
      (∀ datatype ∈ quotedPath.datatype, IsReference datatype) ∧
      Phrase.resolve .empty ⟨quotedPathStrands, quotedPath.datatype⟩ = .ok quotedPath := by
  have hcut : Strand.Cut "it\\'s C:\\\\\\\\new\\\\".toList quotedPathStrands :=
    ⟨by decide, by decide, by decide⟩
  have hdatatype : ∀ datatype ∈ quotedPath.datatype, IsReference datatype := by decide +kernel
  have hread := resolve_iff_of_cut (v := quotedPath) (by decide) hcut
  exact ⟨by decide, hcut, hdatatype, hread.2.2.2 hdatatype⟩

end Literal
end TripleQuery
