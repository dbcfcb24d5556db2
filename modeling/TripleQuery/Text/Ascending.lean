/-!
# Ascending lists of texts

A set of texts is listed in the order of code points, each text once. `ascending` makes such a list
of any list; it holds what the list holds (`mem_ascending`), and each text comes before all that
follow it (`pairwise_ascending`).
-/

namespace TripleQuery.Text

/-- Puts a text at its place in an ascending list, unless it is there. -/
def insertAscending (text : String) : List String → List String
  | [] => [text]
  | first :: rest =>
    if text < first then text :: first :: rest
    else if text = first then first :: rest
    else first :: insertAscending text rest

def ascending (texts : List String) : List String := texts.foldr insertAscending []

theorem mem_insertAscending {text x : String} {texts : List String} :
    x ∈ insertAscending text texts ↔ x = text ∨ x ∈ texts := by
  induction texts with
  | nil => simp [insertAscending]
  | cons first rest ih =>
    simp only [insertAscending]
    split
    · simp
    · split
      · next h => simp [h]
      · simp only [List.mem_cons, ih]
        constructor <;> rintro (h | h | h) <;> simp [h]

theorem mem_ascending {x : String} {texts : List String} : x ∈ ascending texts ↔ x ∈ texts := by
  induction texts with
  | nil => simp [ascending]
  | cons first rest ih =>
    rw [ascending, List.foldr_cons, mem_insertAscending, ← ascending, ih, List.mem_cons]

theorem lt_of_not_lt {a b : String} (h : ¬a < b) (hne : a ≠ b) : b < a :=
  Decidable.byContradiction fun hba =>
    hne (String.le_antisymm (String.not_lt.1 hba) (String.not_lt.1 h))

theorem pairwise_insertAscending {text : String} {texts : List String}
    (h : texts.Pairwise (· < ·)) : (insertAscending text texts).Pairwise (· < ·) := by
  induction texts with
  | nil => simp [insertAscending]
  | cons first rest ih =>
    have hcons := List.pairwise_cons.1 h
    simp only [insertAscending]
    split
    · next hlt =>
      refine List.pairwise_cons.2 ⟨fun x hx => ?_, h⟩
      rcases List.mem_cons.1 hx with rfl | hrest
      · exact hlt
      · exact String.lt_trans hlt (hcons.1 x hrest)
    · next hnlt =>
      split
      · exact h
      · next hne =>
        refine List.pairwise_cons.2 ⟨fun x hx => ?_, ih hcons.2⟩
        rcases mem_insertAscending.1 hx with rfl | hrest
        · exact lt_of_not_lt hnlt hne
        · exact hcons.1 x hrest

theorem pairwise_ascending (texts : List String) : (ascending texts).Pairwise (· < ·) := by
  induction texts with
  | nil => exact List.Pairwise.nil
  | cons first rest ih => exact pairwise_insertAscending ih

end TripleQuery.Text
