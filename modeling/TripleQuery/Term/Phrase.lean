import TripleQuery.Prefixes
import TripleQuery.Term.Basic

/-!
# Written terms

A term as it is written: a variable without its sign, a token for a resource, or a literal in
strands. A strand holds plain text or escape sequences. A phrase has a meaning under a table of
prefixes, its `resolve`.
-/

namespace TripleQuery

inductive Strand where
  | plain (text : String)
  | escaped (text : String)
  deriving DecidableEq, Repr

def Strand.meaning : Strand → List Char
  | plain text => text.toList
  | escaped text => Text.Quoted.unescape text.toList

/-- A written literal: its strands, and the token of its datatype. -/
structure Literal.Phrase where
  strands : List Strand
  datatype : Option String
  deriving DecidableEq, Repr

inductive Constant.Phrase where
  | resource (token : String)
  | literal (value : Literal.Phrase)
  deriving DecidableEq, Repr

inductive Term.Phrase where
  | var (name : String)
  | const (value : Constant.Phrase)
  deriving DecidableEq, Repr

def Variable.check (name : String) : Except Error String :=
  if isName name then .ok name else .error (.grammar (.variableName name))

theorem Variable.check_eq_ok {name checked : String} :
    Variable.check name = .ok checked ↔ Variable.isName name = true ∧ checked = name := by
  unfold Variable.check
  split
  · next h => simp [h, eq_comm]
  · next h => simp [h]

def Literal.Phrase.text (l : Literal.Phrase) : String :=
  String.ofList (l.strands.flatMap Strand.meaning)

def Literal.Phrase.resolve (prefixes : Prefixes) (l : Literal.Phrase) : Except Error Literal :=
  match l.datatype with
  | none => .ok ⟨l.text, none⟩
  | some token => (prefixes.resolve token).map fun datatype => ⟨l.text, some datatype.text⟩

def Constant.Phrase.resolve (prefixes : Prefixes) : Constant.Phrase → Except Error Constant
  | resource token => (prefixes.resolve token).map fun iri => .iri iri.text
  | literal value => (value.resolve prefixes).map .literal

def Term.Phrase.resolve (prefixes : Prefixes) : Term.Phrase → Except Error Term
  | var name => (Variable.check name).map .var
  | const value => (value.resolve prefixes).map .const

end TripleQuery
