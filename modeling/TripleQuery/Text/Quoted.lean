/-!
# Quoted text

Between the quotes of a literal, a quote and a backslash are written with a backslash in front and
all else as it is. Reading knows three more sequences, for line feed, carriage return and tab, and
takes any other escaped character for itself. Reading undoes writing (`unescape_escape`).
-/

namespace TripleQuery.Text.Quoted

def needsEscape (c : Char) : Bool := c == '\'' || c == '\\'

def escape : List Char → List Char
  | [] => []
  | c :: rest => if needsEscape c then '\\' :: c :: escape rest else c :: escape rest

def escaped (c : Char) : Char :=
  match c with
  | 'n' => '\n'
  | 'r' => '\r'
  | 't' => '\t'
  | other => other

/-- Reads a text between quotes. A backslash at the very end stands for itself. -/
def unescape : List Char → List Char
  | [] => []
  | '\\' :: c :: rest => escaped c :: unescape rest
  | c :: rest => c :: unescape rest

theorem escaped_of_needsEscape {c : Char} (h : needsEscape c = true) : escaped c = c := by
  simp only [needsEscape, Bool.or_eq_true, beq_iff_eq] at h
  rcases h with rfl | rfl <;> rfl

theorem unescape_cons {c : Char} (h : c ≠ '\\') (rest : List Char) :
    unescape (c :: rest) = c :: unescape rest := by
  cases rest <;> simp [unescape, h]

theorem unescape_escape (text : List Char) : unescape (escape text) = text := by
  induction text with
  | nil => rfl
  | cons c rest ih =>
    simp only [escape]
    split
    · next h => simp [unescape, escaped_of_needsEscape h, ih]
    · next h =>
      have hc : c ≠ '\\' := by
        rintro rfl
        exact h rfl
      rw [unescape_cons hc, ih]

end TripleQuery.Text.Quoted
