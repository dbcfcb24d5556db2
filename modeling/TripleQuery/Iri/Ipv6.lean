import TripleQuery.Text.Ranges

/-!
# IPv6 addresses

The text form of an IPv6 address is a run of groups of one to four hexadecimal digits with colons
between them. Eight groups make up an address; one double colon stands for one or more groups of
zeros; a dotted IPv4 address may stand for the last two groups. There is no zone.
-/

namespace TripleQuery.Ipv6
open TripleQuery.Text

def isGroup (text : List Char) : Bool :=
  1 ≤ text.length && text.length ≤ 4 && text.all isHex

/-- A part of a dotted address is a number up to 255 of one to three digits that has no needless
zero in front. -/
def isOctet (text : List Char) : Bool :=
  1 ≤ text.length && text.length ≤ 3 && text.all isDigit
    && (text.length == 1 || text.head? != some '0') && decimalValue text ≤ 255

def isDotted (text : List Char) : Bool :=
  let parts := pieces '.' text
  parts.length == 4 && parts.all isOctet

/-- How many groups a run of pieces stands for. A dotted address counts for two, and only the last
piece may be one, where that is allowed at all. -/
def countGroups (dotted : Bool) : List (List Char) → Option Nat
  | [] => some 0
  | [last] =>
    if isGroup last then some 1 else if dotted && isDotted last then some 2 else none
  | piece :: more => if isGroup piece then (countGroups dotted more).map (· + 1) else none

/-- How many groups stand on one side of a double colon, where there may be none. -/
def countSide (dotted : Bool) (text : List Char) : Option Nat :=
  if text.isEmpty then some 0 else countGroups dotted (pieces ':' text)

def cutDoubleColon : List Char → Option (List Char × List Char)
  | ':' :: ':' :: rest => some ([], rest)
  | c :: rest => (cutDoubleColon rest).map fun sides => (c :: sides.1, sides.2)
  | [] => none

def isAddress (text : List Char) : Bool :=
  match cutDoubleColon text with
  | none => countGroups true (pieces ':' text) == some 8
  | some (before, after) =>
    match countSide false before, countSide true after with
    | some m, some n => m + n ≤ 7
    | _, _ => false

example : isAddress "1:2:3:4:5:6:7:8".toList = true := by decide
example : isAddress "::".toList = true := by decide
example : isAddress "::ffff:192.0.2.1".toList = true := by decide
example : isAddress "1:2:3:4:5:6:7::".toList = true := by decide
example : isAddress "1:2:3:4:5:6:7:8::".toList = false := by decide
example : isAddress "192.0.2.1::".toList = false := by decide
example : isAddress ":::".toList = false := by decide

end TripleQuery.Ipv6
