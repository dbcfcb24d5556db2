/-!
# Faults of an address

Why a text is no absolute IRI. Reading goes from left to right, so the fault is the first one.
-/

namespace TripleQuery

/-- The first thing that is wrong with a text that should be an absolute IRI. -/
inductive Iri.Fault where
  | noScheme
  | codePoint (c : Char)
  /-- A percent sign is not followed by two hexadecimal digits; holds the sign and what follows. -/
  | percent (sequence : List Char)
  | hostChar (c : Char)
  | portChar (c : Char)
  | hostAddress
  deriving DecidableEq, Repr

namespace Iri.Fault

def message : Fault → String
  | noScheme => "No scheme found in an absolute IRI"
  | codePoint c => "Invalid IRI code point '" ++ c.toString ++ "'"
  | percent sequence => "Invalid IRI percent encoding '" ++ String.ofList sequence ++ "'"
  | hostChar c => "Invalid character '" ++ c.toString ++ "' in host"
  | portChar c => "Invalid character '" ++ c.toString ++ "'"
  | hostAddress => "Invalid host IP (invalid IPv6 address syntax)"

end Iri.Fault
end TripleQuery
