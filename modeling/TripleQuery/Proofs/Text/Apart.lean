import Mathlib.Data.List.Forall2
import TripleQuery.Proofs.Names
import TripleQuery.Text.Quoted

/-!
# Pieces of a text told apart

A piece of a text ends where it has to: at the first character that it may not hold, at the quote
that no backslash precedes, or where a list goes on with something that is no further item. So two
texts that begin with pieces of one sort are the same only if the pieces are, and what follows them.
All lemmas here are of this form, and so are those about the parts of a query.
-/

namespace TripleQuery.Text

/-- A character with which a shown query goes on behind a name or a number. -/
def isBreak (c : Char) : Bool := c == ' ' || c == ')' || c == ']'

theorem isBreak_iff {c : Char} : isBreak c = true ↔ c = ' ' ∨ c = ')' ∨ c = ']' := by
  simp [isBreak, or_assoc]

def Breaks (text : List Char) : Prop := ∀ c ∈ text.head?, isBreak c = true

@[simp] theorem breaks_cons {c : Char} {rest : List Char} :
    Breaks (c :: rest) ↔ isBreak c = true := by
  simp [Breaks]

theorem first_eq_of_append_eq {a b s t more more' : List Char} {x y : Char} (ha : a = x :: more)
    (hb : b = y :: more') (h : a ++ s = b ++ t) : x = y := by
  rw [ha, hb] at h
  exact (List.cons_eq_cons.1 h).1

theorem append_inj_of_stop {p : Char → Bool} {a b s t : List Char} (ha : ∀ c ∈ a, p c = true)
    (hb : ∀ c ∈ b, p c = true) (hs : ∀ c ∈ s.head?, p c = false) (ht : ∀ c ∈ t.head?, p c = false)
    (h : a ++ s = b ++ t) : a = b ∧ s = t := by
  induction a generalizing b with
  | nil =>
    cases b with
    | nil => exact ⟨rfl, h⟩
    | cons d b =>
      have hd := hb d (List.mem_cons_self ..)
      have hstop := hs d (by rw [List.nil_append] at h; rw [h]; rfl)
      rw [hd] at hstop
      cases hstop
  | cons c a ih =>
    cases b with
    | nil =>
      have hc := ha c (List.mem_cons_self ..)
      have hstop := ht c (by rw [List.nil_append] at h; rw [← h]; rfl)
      rw [hc] at hstop
      cases hstop
    | cons d b =>
      obtain ⟨hcd, htail⟩ := List.cons_eq_cons.1 h
      obtain ⟨hab, hst⟩ := ih (fun x hx => ha x (List.mem_cons_of_mem _ hx))
        (fun x hx => hb x (List.mem_cons_of_mem _ hx)) htail
      exact ⟨by rw [hcd, hab], hst⟩

theorem append_inj_of_breaks {a b s t : List Char} (ha : ∀ c ∈ a, isBreak c = false)
    (hb : ∀ c ∈ b, isBreak c = false) (hs : Breaks s) (ht : Breaks t) (h : a ++ s = b ++ t) :
    a = b ∧ s = t := by
  refine append_inj_of_stop (p := fun c => !isBreak c) ?_ ?_ ?_ ?_ h
  · intro c hc
    simp [ha c hc]
  · intro c hc
    simp [hb c hc]
  · intro c hc
    simp [hs c hc]
  · intro c hc
    simp [ht c hc]

theorem escape_cons_of_needsEscape {c : Char} (h : Quoted.needsEscape c = true) (rest : List Char) :
    Quoted.escape (c :: rest) = '\\' :: c :: Quoted.escape rest := by
  rw [Quoted.escape, if_pos h]

theorem escape_cons_of_plain {c : Char} (h : ¬ Quoted.needsEscape c = true) (rest : List Char) :
    Quoted.escape (c :: rest) = c :: Quoted.escape rest := by
  rw [Quoted.escape, if_neg h]

theorem quote_ne_escape_cons (c : Char) (rest s t : List Char) :
    '\'' :: s ≠ Quoted.escape (c :: rest) ++ t := by
  intro h
  by_cases hc : Quoted.needsEscape c = true
  · rw [escape_cons_of_needsEscape hc] at h
    cases h
  · rw [escape_cons_of_plain hc] at h
    obtain ⟨rfl, -⟩ := List.cons_eq_cons.1 h
    exact hc rfl

theorem isBreak_of_isName {name : String} (h : Variable.isName name = true) :
    ∀ c ∈ name.toList, isBreak c = false := by
  have hinitial : ∀ c, Variable.isInitial c = true → isBreak c = false := by
    intro c hc
    by_contra hbreak
    rcases isBreak_iff.1 (by simpa using hbreak) with rfl | rfl | rfl <;>
      exact absurd hc (by decide)
  have hlater : ∀ c, Variable.isLater c = true → isBreak c = false := by
    intro c hc
    by_contra hbreak
    rcases isBreak_iff.1 (by simpa using hbreak) with rfl | rfl | rfl <;>
      exact absurd hc (by decide)
  unfold Variable.isName at h
  split at h
  · cases h
  · next first rest htext =>
    obtain ⟨hfirst, hrest⟩ := Bool.and_eq_true_iff.1 h
    intro c hc
    rw [htext] at hc
    rcases List.mem_cons.1 hc with rfl | hc
    · exact hinitial c hfirst
    · exact hlater c (List.all_eq_true.1 hrest c hc)

theorem repr_append_inj {m n : Nat} {s t : List Char} (hs : Breaks s) (ht : Breaks t)
    (h : m.repr.toList ++ s = n.repr.toList ++ t) : m = n ∧ s = t := by
  have hdigits : ∀ k : Nat, ∀ c ∈ k.repr.toList, isBreak c = false := by
    intro k c hc
    rw [Nat.toList_repr] at hc
    have hdigit := Nat.isDigit_of_mem_toDigits (by omega) (by omega) hc
    by_contra hbreak
    rcases isBreak_iff.1 (by simpa using hbreak) with rfl | rfl | rfl <;>
      exact absurd hdigit (by decide)
  obtain ⟨hrepr, hst⟩ := append_inj_of_breaks (hdigits m) (hdigits n) hs ht h
  exact ⟨Variable.repr_injective (String.toList_inj.1 hrepr), hst⟩

theorem escape_append_inj {a b s t : List Char}
    (h : Quoted.escape a ++ '\'' :: s = Quoted.escape b ++ '\'' :: t) : a = b ∧ s = t := by
  induction a generalizing b with
  | nil =>
    cases b with
    | nil => exact ⟨rfl, (List.cons_eq_cons.1 h).2⟩
    | cons d b => exact absurd h (quote_ne_escape_cons d b s _)
  | cons c a ih =>
    cases b with
    | nil => exact absurd h.symm (quote_ne_escape_cons c a t _)
    | cons d b =>
      by_cases hc : Quoted.needsEscape c = true
      · by_cases hd : Quoted.needsEscape d = true
        · rw [escape_cons_of_needsEscape hc, escape_cons_of_needsEscape hd] at h
          obtain ⟨hcd, htail⟩ := List.cons_eq_cons.1 (List.cons_eq_cons.1 h).2
          obtain ⟨hab, hst⟩ := ih htail
          exact ⟨by rw [hcd, hab], hst⟩
        · rw [escape_cons_of_needsEscape hc, escape_cons_of_plain hd] at h
          obtain ⟨rfl, -⟩ := List.cons_eq_cons.1 h
          exact absurd rfl hd
      · by_cases hd : Quoted.needsEscape d = true
        · rw [escape_cons_of_plain hc, escape_cons_of_needsEscape hd] at h
          obtain ⟨rfl, -⟩ := List.cons_eq_cons.1 h
          exact absurd rfl hc
        · rw [escape_cons_of_plain hc, escape_cons_of_plain hd] at h
          obtain ⟨hcd, htail⟩ := List.cons_eq_cons.1 h
          obtain ⟨hab, hst⟩ := ih htail
          exact ⟨by rw [hcd, hab], hst⟩

/-! ### Lists -/

def spread {α : Type} (f : α → List Char) (items : List α) : List Char :=
  items.flatMap fun a => ' ' :: f a

theorem breaks_spread_append {α : Type} {f : α → List Char} {s : List Char} (hs : Breaks s)
    (items : List α) : Breaks (spread f items ++ s) := by
  cases items with
  | nil => exact hs
  | cons a rest =>
    rw [spread, List.flatMap_cons, List.cons_append, List.cons_append, breaks_cons]
    rfl

/-- What follows a list begins as none of its items does. -/
def EndsList (starts : Char → Prop) (text : List Char) : Prop :=
  Breaks text ∧ ∀ c rest, text = ' ' :: c :: rest → ¬ starts c

theorem not_endsList_item {starts : Char → Prop} {item : List Char}
    (h : ∃ c more, item = c :: more ∧ starts c) (rest : List Char) :
    ¬ EndsList starts (' ' :: item ++ rest) := by
  rintro ⟨-, hends⟩
  obtain ⟨c, more, rfl, hc⟩ := h
  exact hends c (more ++ rest) rfl hc

theorem spread_append_inj {α : Type} {f : α → List Char} {R : α → α → Prop} {starts : Char → Prop}
    {l₁ l₂ : List α} {s t : List Char} (hs : EndsList starts s) (ht : EndsList starts t)
    (hitem : ∀ a ∈ l₁, ∀ b ∈ l₂, ∀ s t, Breaks s → Breaks t → f a ++ s = f b ++ t → R a b ∧ s = t)
    (h₁ : ∀ a ∈ l₁, ∃ c rest, f a = c :: rest ∧ starts c)
    (h₂ : ∀ b ∈ l₂, ∃ c rest, f b = c :: rest ∧ starts c)
    (h : spread f l₁ ++ s = spread f l₂ ++ t) : List.Forall₂ R l₁ l₂ ∧ s = t := by
  induction l₁ generalizing l₂ with
  | nil =>
    cases l₂ with
    | nil => exact ⟨.nil, h⟩
    | cons b l₂ =>
      refine absurd ?_ (not_endsList_item (h₂ b (List.mem_cons_self ..)) (spread f l₂ ++ t))
      have hshown : s = ' ' :: f b ++ (spread f l₂ ++ t) := by
        simpa [spread] using h
      rw [← hshown]
      exact hs
  | cons a l₁ ih =>
    cases l₂ with
    | nil =>
      refine absurd ?_ (not_endsList_item (h₁ a (List.mem_cons_self ..)) (spread f l₁ ++ s))
      have hshown : t = ' ' :: f a ++ (spread f l₁ ++ s) := by
        simpa [spread] using h.symm
      rw [← hshown]
      exact ht
    | cons b l₂ =>
      have hshown : f a ++ (spread f l₁ ++ s) = f b ++ (spread f l₂ ++ t) := by
        simpa [spread] using h
      obtain ⟨hab, htail⟩ := hitem a (List.mem_cons_self ..) b (List.mem_cons_self ..) _ _
        (breaks_spread_append hs.1 l₁) (breaks_spread_append ht.1 l₂) hshown
      obtain ⟨hrest, hst⟩ := ih (fun x hx y hy => hitem x (List.mem_cons_of_mem _ hx) y
        (List.mem_cons_of_mem _ hy)) (fun x hx => h₁ x (List.mem_cons_of_mem _ hx))
        (fun y hy => h₂ y (List.mem_cons_of_mem _ hy)) htail
      exact ⟨.cons hab hrest, hst⟩

end TripleQuery.Text
