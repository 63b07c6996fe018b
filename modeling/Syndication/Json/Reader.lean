import Syndication.Json.Basic
import Syndication.Text.Hex
import Syndication.Text.Utf16

/-!
# Json.Reader — reading JSON documents

The grammar is that of RFC 8259 and nothing more: no trailing comma, no leading zero, no control
character inside a string. Nesting may go to any depth. A string is read in two steps. Lexically it
is a run of pieces, a character, a unit of sixteen bits from an escape, or an undecodable run; only
then is it asked for a text, which takes surrogates in pairs.

The readers call each other on what is left of the document; their first argument bounds the calls,
and the length of the document is enough, as each call is made behind at least one symbol.

## Contents
* `Piece`, `piecesText?`           — the inside of a string
* `stringEnd`, `numberEnd`         — strings and numbers
* `value`, `items`, `members`      — values
* `Json.ofSymbols?`, `Json.ofBytes?`, `Json.ofText?` — whole documents
-/

namespace Syndication.Json

open Utf8 (Symbol)
open Utf16 (unitChar? pairChar?)

/-- Blanks, of which JSON knows four. -/
def isSpace (s : Symbol) : Bool := s == some ' ' || s == some '\t' || s == some '\n' || s == some '\r'

/-- The symbols after any blanks. -/
def skipSpace : List Symbol → List Symbol
  | [] => []
  | s :: rest => if isSpace s then skipSpace rest else s :: rest

/-! ## Strings -/

/-- A piece of the inside of a string. -/
inductive Piece where
  | char (c : Char)
  | unit (code : Nat)
  | undecodable
  deriving DecidableEq, Repr

/-- The characters of pieces, if surrogates come in pairs and all is decodable. -/
def piecesChars? : List Piece → Option (List Char)
  | [] => some []
  | .char c :: rest => (piecesChars? rest).map (c :: ·)
  | .undecodable :: _ => none
  | .unit a :: .unit b :: rest =>
    match unitChar? a with
    | some c => (piecesChars? (.unit b :: rest)).map (c :: ·)
    | none => do
      let c ← pairChar? a b
      let cs ← piecesChars? rest
      return c :: cs
  | .unit a :: rest => do
    let c ← unitChar? a
    let cs ← piecesChars? rest
    return c :: cs

/-- The text of pieces. -/
def piecesText? (ps : List Piece) : Option String := (piecesChars? ps).map String.ofList

/-- The character that a one-letter escape stands for. -/
def escapeChar? : Char → Option Char
  | '"' => some '"'
  | '\\' => some '\\'
  | '/' => some '/'
  | 'b' => some '\x08'
  | 'f' => some '\x0c'
  | 'n' => some '\n'
  | 'r' => some '\r'
  | 't' => some '\t'
  | _ => none

/-- The value of four hexadecimal digits. -/
def fourDigits? (a b c d : Char) : Option Nat := Hex.toNat? [a, b, c, d]

/-- The pieces up to the closing quote, put in front of `done` in reverse, and what follows it. -/
def stringEnd (done : List Piece) : List Symbol → Option (List Piece × List Symbol)
  | [] => none
  | none :: rest => stringEnd (.undecodable :: done) rest
  | some '"' :: rest => some (done.reverse, rest)
  | some '\\' :: some 'u' :: some a :: some b :: some c :: some d :: rest =>
    match fourDigits? a b c d with
    | some code => stringEnd (.unit code :: done) rest
    | none => none
  | some '\\' :: some e :: rest =>
    match escapeChar? e with
    | some c => stringEnd (.char c :: done) rest
    | none => none
  | some '\\' :: _ => none
  | some c :: rest => if c.toNat < 0x20 then none else stringEnd (.char c :: done) rest

/-! ## Numbers -/

/-- The leading digits, and what follows them. -/
def digitRun : List Symbol → List Char × List Symbol
  | some c :: rest =>
    if c.isDigit then let (cs, left) := digitRun rest; (c :: cs, left) else ([], some c :: rest)
  | rest => ([], rest)

/-- The whole part: a zero alone, or digits that do not begin with one. -/
def wholePart? (ss : List Symbol) : Option (List Char × List Symbol) :=
  match digitRun ss with
  | ([], _) => none
  | (['0'], rest) => some (['0'], rest)
  | ('0' :: _, _) => none
  | found => some found

/-- The fraction, if there is one. -/
def fractionPart? : List Symbol → Option (List Char × List Symbol)
  | some '.' :: rest =>
    match digitRun rest with
    | ([], _) => none
    | (cs, left) => some ('.' :: cs, left)
  | rest => some ([], rest)

/-- The sign of an exponent, if there is one. -/
def exponentSign : List Symbol → List Char × List Symbol
  | some '+' :: rest => (['+'], rest)
  | some '-' :: rest => (['-'], rest)
  | rest => ([], rest)

/-- The exponent, if there is one. -/
def exponentPart? : List Symbol → Option (List Char × List Symbol)
  | some e :: rest =>
    if e = 'e' ∨ e = 'E' then
      let (sign, rest) := exponentSign rest
      match digitRun rest with
      | ([], _) => none
      | (cs, left) => some (e :: sign ++ cs, left)
    else some ([], some e :: rest)
  | rest => some ([], rest)

/-- A number without its sign. -/
def unsigned? (ss : List Symbol) : Option (List Char × List Symbol) := do
  let (whole, ss) ← wholePart? ss
  let (fraction, ss) ← fractionPart? ss
  let (exponent, ss) ← exponentPart? ss
  return (whole ++ fraction ++ exponent, ss)

/-- A number, by its spelling. -/
def number? : List Symbol → Option (Json × List Symbol)
  | some '-' :: rest => (unsigned? rest).map fun (cs, left) => (.number (String.ofList ('-' :: cs)), left)
  | ss => (unsigned? ss).map fun (cs, left) => (.number (String.ofList cs), left)

/-! ## Values -/

/-- A key and the colon after it. -/
def key? (ss : List Symbol) : Option (Option String × List Symbol) :=
  match skipSpace ss with
  | some '"' :: rest => do
    let (ps, rest) ← stringEnd [] rest
    match skipSpace rest with
    | some ':' :: rest => some (piecesText? ps, rest)
    | _ => none
  | _ => none

mutual

/-- A value at the head of the symbols, and what follows it. -/
def value : Nat → List Symbol → Option (Json × List Symbol)
  | 0, _ => none
  | fuel + 1, ss =>
    match skipSpace ss with
    | some 'n' :: some 'u' :: some 'l' :: some 'l' :: rest => some (.null, rest)
    | some 't' :: some 'r' :: some 'u' :: some 'e' :: rest => some (.bool true, rest)
    | some 'f' :: some 'a' :: some 'l' :: some 's' :: some 'e' :: rest => some (.bool false, rest)
    | some '"' :: rest => (stringEnd [] rest).map fun (ps, left) => (.string (piecesText? ps), left)
    | some '[' :: rest =>
      match skipSpace rest with
      | some ']' :: rest => some (.array [], rest)
      | rest => items fuel [] rest
    | some '{' :: rest =>
      match skipSpace rest with
      | some '}' :: rest => some (.object [], rest)
      | rest => members fuel [] rest
    | ss => number? ss

/-- The items up to the closing bracket, put in front of `done` in reverse. -/
def items : Nat → List Json → List Symbol → Option (Json × List Symbol)
  | 0, _, _ => none
  | fuel + 1, done, ss =>
    match value fuel ss with
    | none => none
    | some (item, rest) =>
      match skipSpace rest with
      | some ',' :: rest => items fuel (item :: done) rest
      | some ']' :: rest => some (.array (item :: done).reverse, rest)
      | _ => none

/-- The members up to the closing brace, put in front of `done` in reverse. -/
def members : Nat → List (Option String × Json) → List Symbol → Option (Json × List Symbol)
  | 0, _, _ => none
  | fuel + 1, done, ss =>
    match key? ss with
    | none => none
    | some (name, rest) =>
      match value fuel rest with
      | none => none
      | some (item, rest) =>
        match skipSpace rest with
        | some ',' :: rest => members fuel ((name, item) :: done) rest
        | some '}' :: rest => some (.object ((name, item) :: done).reverse, rest)
        | _ => none

end

/-! ## Whole documents -/

/-- A document: one value with nothing but blanks around it. -/
def ofSymbols? (ss : List Symbol) : Option Json :=
  match value (ss.length + 1) ss with
  | some (j, rest) => if (skipSpace rest).isEmpty then some j else none
  | none => none

/-- A document in octets. Octets that are no characters are allowed inside strings only. -/
def ofBytes? (bytes : Bytes) : Option Json := ofSymbols? (Utf8.symbols bytes)

/-- A document in characters. -/
def ofText? (s : String) : Option Json := ofSymbols? (s.toList.map some)

end Syndication.Json
