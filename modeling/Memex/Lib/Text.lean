import Mathlib.Algebra.Order.Ring.Int
import Mathlib.Data.Int.ConditionallyCompleteOrder
import Mathlib.Data.List.Basic
import Mathlib.Data.List.DropRight
import Mathlib.Data.String.Basic
import Mathlib.Order.Lattice.Nat

/-! # Searching texts

Prefixes, suffixes and occurrences, exactly or up to the case of ASCII letters. -/

namespace Text

def startsWith (text start : String) : Bool :=
  start.toList.isPrefixOf text.toList

def endsWith (text ending : String) : Bool :=
  ending.toList.isSuffixOf text.toList

def contains (text part : String) : Bool :=
  text.toList.tails.any fun rest => part.toList.isPrefixOf rest

def stripSuffix (text ending : String) : Option String :=
  if endsWith text ending then
    some (String.ofList (text.toList.take (text.length - ending.length)))
  else none

/-- `Char.toLower` changes ASCII letters only. -/
def eqIgnoreAsciiCase (left right : List Char) : Bool :=
  left.map Char.toLower = right.map Char.toLower

def startsIgnoreCase (text : List Char) (start : String) : Bool :=
  (start.toList.map Char.toLower).isPrefixOf (text.map Char.toLower)

/-- Where a text first occurs; an empty one is not searched for. -/
def findIgnoreCase (text : List Char) (part : String) : Option Nat :=
  if part = "" then none else text.tails.findIdx? fun rest => startsIgnoreCase rest part

/-- Bytes of the UTF-8 encoding. -/
def byteLength (text : List Char) : Nat :=
  (text.map Char.utf8Size).sum

end Text
