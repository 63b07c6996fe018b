/-!
# Text.Ascii — letter case and lookups that know ASCII only

Account types, message types, header names and status names ignore the case of the letters `a` to
`z` and of no others; a letter outside ASCII stays as it is.

## Contents
* `lower`                             — the case of ASCII letters
* `eqIgnoreCase`                      — equality up to that case
* `startsWith`, `dropStart?`          — a text and its beginning, character by character
* `joined`                            — texts with a separator between neighbours
-/

namespace Syndication.Text

/-- ASCII letters in lower case, all else unchanged. -/
def lower (s : String) : String := String.ofList (s.toList.map Char.toLower)

/-- Equality up to the case of ASCII letters. -/
def eqIgnoreCase (a b : String) : Bool := lower a == lower b

/-- What follows `start` in a list that begins with it. -/
def dropStartChars? : List Char → List Char → Option (List Char)
  | [], rest => some rest
  | _ :: _, [] => none
  | p :: ps, c :: cs => if p = c then dropStartChars? ps cs else none

/-- What follows `start` in a text that begins with it. -/
def dropStart? (start s : String) : Option String :=
  (dropStartChars? start.toList s.toList).map String.ofList

/-- The text begins with `start`. -/
def startsWith (s start : String) : Bool := (dropStart? start s).isSome

/-- The characters between two occurrences of `sep`, as a list of at least one piece. -/
def splitChars (sep : Char) : List Char → List (List Char)
  | [] => [[]]
  | c :: cs =>
    if c = sep then [] :: splitChars sep cs
    else match splitChars sep cs with
      | [] => [[c]]
      | piece :: rest => (c :: piece) :: rest

/-- The pieces of a text between occurrences of `sep`; never empty. -/
def split (sep : Char) (s : String) : List String := (splitChars sep s.toList).map String.ofList

/-- The texts with `sep` between neighbours. -/
def joined (sep : String) : List String → String
  | [] => ""
  | [s] => s
  | s :: rest => s ++ sep ++ joined sep rest

/-- A text padded with blanks on the right to at least `width` characters. -/
def padRight (width : Nat) (s : String) : String :=
  s ++ String.ofList (List.replicate (width - s.toList.length) ' ')

/-- A number in decimal, with zeros on the left to at least `width` digits. -/
def zeroPadded (width n : Nat) : String :=
  let digits := Nat.toDigits 10 n
  String.ofList (List.replicate (width - digits.length) '0' ++ digits)

/-- The number that a run of decimal digits spells. -/
def digitsValue (cs : List Char) : Nat := cs.foldl (fun n c => 10 * n + (c.toNat - '0'.toNat)) 0

/-- The number that a text of one or more decimal digits spells. -/
def natural? (s : String) : Option Nat :=
  if !s.isEmpty && s.toList.all Char.isDigit then some (digitsValue s.toList) else none

end Syndication.Text
