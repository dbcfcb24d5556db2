import TripleQuery.Rdf
import TripleQuery.Text.Quoted
import TripleQuery.Variable
import TripleQuery.Vocabulary

/-!
# Terms

A term is what stands at one position of a pattern: a variable, or a constant, which is an IRI or a
literal. Here the names and IRIs are any texts; what a query may use is decided where it is read.
-/

namespace TripleQuery

/-- A literal of a query: a text, and a datatype if one was given. -/
structure Literal where
  lexical : String
  datatype : Option String
  deriving DecidableEq, Repr

inductive Constant where
  | iri (text : String)
  | literal (value : Literal)
  deriving DecidableEq, Repr

inductive Term where
  | var (name : String)
  | const (value : Constant)
  deriving DecidableEq, Repr

def renderIri (text : String) : String := "<" ++ text ++ ">"

namespace Literal

/-- The language tag: an untyped literal has the empty one, a typed literal has none. -/
def language (l : Literal) : Option String := if l.datatype.isNone then some "" else none

/-- The literal as graphs hold it. Without a datatype it is a string. -/
def toRdf (l : Literal) : Rdf.Literal := ⟨l.lexical, l.datatype.getD Vocabulary.xsdString⟩

def render (l : Literal) : String :=
  "'" ++ String.ofList (Text.Quoted.escape l.lexical.toList) ++ "'" ++
    match l.datatype with
    | none => ""
    | some datatype => "^^" ++ renderIri datatype

end Literal

def Constant.render : Constant → String
  | .iri text => renderIri text
  | .literal value => value.render

namespace Term

def render : Term → String
  | .var name => Variable.render name
  | .const value => value.render

def varNames : Term → List String
  | .var name => [name]
  | .const _ => []

def isLiteral : Term → Bool
  | .const (.literal _) => true
  | _ => false

/-- The literals that two terms are, as graphs hold them, are equal; `none` unless both are
literals. -/
def sameInRdf : Term → Term → Option Bool
  | .const (.literal a), .const (.literal b) => some (a.toRdf = b.toRdf)
  | _, _ => none

end Term
end TripleQuery
