import TripleQuery.Text.Ranges

/-!
# The alphabet of addresses

The characters that the parts of an IRI may hold as they are. A percent sign is in none of these
classes: it always starts a percent encoding.
-/

namespace TripleQuery.Iri
open TripleQuery.Text

def ucsRanges : List (Nat × Nat) :=
  [(0xA0, 0xD7FF), (0xF900, 0xFDCF), (0xFDF0, 0xFFEF),
   (0x10000, 0x1FFFD), (0x20000, 0x2FFFD), (0x30000, 0x3FFFD), (0x40000, 0x4FFFD),
   (0x50000, 0x5FFFD), (0x60000, 0x6FFFD), (0x70000, 0x7FFFD), (0x80000, 0x8FFFD),
   (0x90000, 0x9FFFD), (0xA0000, 0xAFFFD), (0xB0000, 0xBFFFD), (0xC0000, 0xCFFFD),
   (0xD0000, 0xDFFFD), (0xE1000, 0xEFFFD)]

def privateRanges : List (Nat × Nat) :=
  [(0xE000, 0xF8FF), (0xF0000, 0xFFFFD), (0x100000, 0x10FFFD)]

/-- An ASCII character that every part may hold: unreserved, or a sub-delimiter. -/
def isPlain (c : Char) : Bool :=
  isLetter c || isDigit c ||
    ['!', '$', '&', '\'', '(', ')', '*', '+', ',', '-', '.', ';', '=', '_', '~'].contains c

def isCommon (c : Char) : Bool := isPlain c || inRanges ucsRanges c

def isSchemeChar (c : Char) : Bool := isLetter c || isDigit c || ['+', '-', '.'].contains c

def isUserChar (c : Char) : Bool := isCommon c || c == ':'

/-- A character of a path segment that stands first where no scheme was found: it holds no colon. -/
def isFirstSegmentChar (c : Char) : Bool := isCommon c || c == '@'

def isPathChar (c : Char) : Bool := isCommon c || [':', '@', '/'].contains c

def isFragmentChar (c : Char) : Bool := isPathChar c || c == '?'

def isQueryChar (c : Char) : Bool := isFragmentChar c || inRanges privateRanges c

def endsAuthority (c : Char) : Bool := ['/', '?', '#'].contains c

def endsPath (c : Char) : Bool := ['?', '#'].contains c

end TripleQuery.Iri
