import Syndication.Text.Utf8

/-!
# Text.Utf16 — units of sixteen bits and the characters they spell

A character is one unit, or two surrogates, the first of one kind and the second of the other. A
document may begin with the mark `U+FEFF`, whose octets tell in which encoding and order of octets
the rest is written; a document without a mark is UTF-8.

## Contents
* `unitChar?`, `pairChar?`   — the character that one unit names, or two
* `OctetOrder`, `symbols`    — octets as characters and undecodable runs
* `decodeLossy`              — the text that octets spell
* `Text.ofMarked`            — the text of a document that may begin with a mark
-/

namespace Syndication

namespace Utf16

open Utf8 (Symbol)

/-! ## Units -/

/-- The unit is a surrogate that begins a pair. -/
def isFirst (unit : Nat) : Bool := 0xD800 ≤ unit && unit ≤ 0xDBFF

/-- The unit is a surrogate that ends a pair. -/
def isSecond (unit : Nat) : Bool := 0xDC00 ≤ unit && unit ≤ 0xDFFF

/-- The character that two units name: a surrogate of the first kind, then one of the second. -/
def pairChar? (first second : Nat) : Option Char :=
  if isFirst first && isSecond second then
    some (Char.ofNat (0x10000 + (first - 0xD800) * 0x400 + (second - 0xDC00)))
  else none

/-- The character that one unit names, unless it is a surrogate. -/
def unitChar? (unit : Nat) : Option Char :=
  if isFirst unit || isSecond unit then none else some (Char.ofNat unit)

/-! ## Octets -/

/-- Which half of a unit comes first. -/
inductive OctetOrder where
  | highFirst
  | lowFirst
  deriving DecidableEq, Repr

/-- The unit that two octets make. -/
def OctetOrder.unit : OctetOrder → UInt8 → UInt8 → Nat
  | .highFirst, x, y => x.toNat * 0x100 + y.toNat
  | .lowFirst, x, y => y.toNat * 0x100 + x.toNat

/-- Octets as characters and undecodable runs. A surrogate without its partner is undecodable, and so
is an octet that the end has cut off, together with a surrogate before it that waits for a partner. -/
def symbols (order : OctetOrder) : Bytes → List Symbol
  | [] => []
  | [_] => [none]
  | [x, y] => [unitChar? (order.unit x y)]
  | [x, y, _] =>
    if isFirst (order.unit x y) then [none] else [unitChar? (order.unit x y), none]
  | x :: y :: z :: w :: rest =>
    match pairChar? (order.unit x y) (order.unit z w) with
    | some c => some c :: symbols order rest
    | none => unitChar? (order.unit x y) :: symbols order (z :: w :: rest)

/-- The text that the octets spell, with `U+FFFD` for each undecodable run. -/
def decodeLossy (order : OctetOrder) (bytes : Bytes) : String :=
  String.ofList ((symbols order bytes).map (·.getD '\uFFFD'))

end Utf16

/-- The text of a document, without the mark that it may begin with. -/
def Text.ofMarked : Bytes → String
  | 0xEF :: 0xBB :: 0xBF :: rest => Utf8.decodeLossy rest
  | 0xFE :: 0xFF :: rest => Utf16.decodeLossy .highFirst rest
  | 0xFF :: 0xFE :: rest => Utf16.decodeLossy .lowFirst rest
  | bytes => Utf8.decodeLossy bytes

end Syndication
