/-!
# Operations

The one form in which every expression shows an operator with its two operands.
-/

namespace TripleQuery.Text

def operation (left operator right : String) : String :=
  "(" ++ left ++ " " ++ operator ++ " " ++ right ++ ")"

end TripleQuery.Text
