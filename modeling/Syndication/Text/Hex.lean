import Syndication.Text.Utf8

/-!
# Text.Hex — octets as pairs of hexadecimal digits

Written in lower case, read in either case. Reading accepts whole pairs only.

## Contents
* `digit`, `value?`    — one digit
* `encode`, `decode?`  — octets and their spelling
* `ofNat`              — a number in at least so many digits
-/

namespace Syndication.Hex

/-- The digit of a value below sixteen. -/
def digit (n : Nat) : Char := if n < 10 then Char.ofNat (48 + n) else Char.ofNat (87 + n)

/-- The value of a digit in either case. -/
def value? (c : Char) : Option Nat :=
  if '0' ≤ c ∧ c ≤ '9' then some (c.toNat - 48)
  else if 'a' ≤ c ∧ c ≤ 'f' then some (c.toNat - 87)
  else if 'A' ≤ c ∧ c ≤ 'F' then some (c.toNat - 55)
  else none

/-- Two digits for each octet, the high half first. -/
def encodeChars : Bytes → List Char
  | [] => []
  | b :: rest => digit (b.toNat / 16) :: digit (b.toNat % 16) :: encodeChars rest

/-- The octets that pairs of digits spell. -/
def decodeChars? : List Char → Option Bytes
  | [] => some []
  | hi :: lo :: rest => do
    let h ← value? hi
    let l ← value? lo
    let bytes ← decodeChars? rest
    return UInt8.ofNat (16 * h + l) :: bytes
  | [_] => none

/-- Octets in lower-case digits. -/
def encode (bytes : Bytes) : String := String.ofList (encodeChars bytes)

/-- The octets a text of digit pairs spells. -/
def decode? (s : String) : Option Bytes := decodeChars? s.toList

/-- The digits of a number, most significant first, with zeros up to `width`. -/
def ofNat (width n : Nat) : String :=
  let digits := Nat.toDigits 16 n
  String.ofList (List.replicate (width - digits.length) '0' ++ digits)

/-- The number that a list of digits spells. -/
def toNat? (cs : List Char) : Option Nat :=
  cs.foldlM (fun n c => (value? c).map (16 * n + ·)) 0

end Syndication.Hex
