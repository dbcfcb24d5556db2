import TripleQuery.Text.Ranges

/-!
# Variable names

A variable is known by its name. `isName` says which names a query may use. The columns of a query
that are no variables get names of their own, `k0`, `k1` and so on (`generated`).
-/

namespace TripleQuery.Variable
open TripleQuery.Text

/-- The code points beyond ASCII with which a name may start. -/
def initialRanges : List (Nat × Nat) :=
  [(0xC0, 0xD6), (0xD8, 0xF6), (0xF8, 0x2FF), (0x370, 0x37D), (0x37F, 0x1FFF), (0x200C, 0x200D),
   (0x2070, 0x218F), (0x2C00, 0x2FEF), (0x3001, 0xD7FF), (0xF900, 0xFDCF), (0xFDF0, 0xFFFD),
   (0x10000, 0xEFFFF)]

/-- The code points beyond ASCII that a name may hold, but not start with. -/
def laterRanges : List (Nat × Nat) := [(0xB7, 0xB7), (0x300, 0x36F), (0x203F, 0x2040)]

def isNameChar (c : Char) : Bool :=
  isDigit c || isLetter c || c == '_' || inRanges initialRanges c

def isInitial (c : Char) : Bool := isNameChar c || c == ':'

def isLater (c : Char) : Bool := isNameChar c || inRanges laterRanges c

def isName (name : String) : Bool :=
  match name.toList with
  | [] => false
  | first :: rest => isInitial first && rest.all isLater

def generated (index : Nat) : String := "k" ++ index.repr

def generatedNames (count : Nat) : List String := (List.range count).map generated

def render (name : String) : String := "$" ++ name

example : isName ":a7" = true := by decide
example : isName "a:7" = false := by decide

end TripleQuery.Variable
