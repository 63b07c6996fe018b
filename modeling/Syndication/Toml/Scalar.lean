import Syndication.Text.Hex
import Syndication.Time.Calendar
import Syndication.Toml.Basic
import Syndication.Word

/-!
# Toml.Scalar — strings, numbers, dates and keys

Readers of the parts of a document that hold no other values. Each takes the characters left of the
document and answers what it read and what follows it.

## Contents
* `skipWs`, `newline?`, `comment`     — blanks, line ends and comments
* `basicString?`, `literalString?`, `multiBasic?`, `multiLiteral?`, `string?`
* `date?`, `time?`, `datetime?`
* `integer?`, `float?`, `number?`
* `simpleKey?`, `key?`
-/

namespace Syndication.Toml

/-! ## Blanks -/

def isWs (c : Char) : Bool := c == ' ' || c == '\t'

/-- The characters after blanks of the same line. -/
def skipWs (cs : List Char) : List Char := cs.dropWhile isWs

/-- What follows the end of a line. -/
def newline? : List Char → Option (List Char)
  | '\n' :: rest => some rest
  | '\r' :: '\n' :: rest => some rest
  | _ => none

/-- A character that may stand in a comment or unescaped in a string. -/
def isPlain (c : Char) : Bool := c == '\t' || (0x20 ≤ c.toNat && c.toNat != 0x7F)

/-- What follows a comment, if there is one. -/
def skipComment : List Char → List Char
  | '#' :: rest => rest.dropWhile isPlain
  | cs => cs

/-- What follows the rest of a line: blanks, perhaps a comment, and its end or that of the document. -/
def lineEnd? (cs : List Char) : Option (List Char) :=
  match skipComment (skipWs cs) with
  | [] => some []
  | cs => newline? cs

/-! ## Strings -/

/-- The character of a Unicode escape of so many digits. -/
def codePoint? (width : Nat) (cs : List Char) : Option (Char × List Char) := do
  let digits := cs.take width
  if digits.length = width then
    let n ← Hex.toNat? digits
    if n.isValidChar then return (Char.ofNat n, cs.drop width) else none
  else none

/-- The character of an escape after its backslash. -/
def escape? : List Char → Option (Char × List Char)
  | 'b' :: rest => some ('\x08', rest)
  | 't' :: rest => some ('\t', rest)
  | 'n' :: rest => some ('\n', rest)
  | 'f' :: rest => some ('\x0c', rest)
  | 'r' :: rest => some ('\r', rest)
  | '"' :: rest => some ('"', rest)
  | '\\' :: rest => some ('\\', rest)
  | 'u' :: rest => codePoint? 4 rest
  | 'U' :: rest => codePoint? 8 rest
  | _ => none

/-- A string in quotes after the first of them; `fuel` bounds its length. -/
def basicString? : Nat → List Char → List Char → Option (String × List Char)
  | 0, _, _ => none
  | _, _, [] => none
  | _, done, '"' :: rest => some (String.ofList done.reverse, rest)
  | fuel + 1, done, '\\' :: rest =>
    match escape? rest with
    | some (c, rest) => basicString? fuel (c :: done) rest
    | none => none
  | fuel + 1, done, c :: rest => if isPlain c then basicString? fuel (c :: done) rest else none

/-- A string in apostrophes after the first of them. -/
def literalString? (done : List Char) : List Char → Option (String × List Char)
  | [] => none
  | '\'' :: rest => some (String.ofList done.reverse, rest)
  | c :: rest => if isPlain c then literalString? (c :: done) rest else none

/-- What follows a line end at the start of a string of many lines, which does not belong to it. -/
def dropFirstNewline (cs : List Char) : List Char := (newline? cs).getD cs

/-- What follows the blanks and line ends behind a backslash at the end of a line; the first of the
two arguments bounds their number. -/
def skipBlankLines : Nat → List Char → List Char
  | 0, cs => cs
  | fuel + 1, cs =>
    match newline? (skipWs cs) with
    | some rest => skipBlankLines fuel rest
    | none => skipWs cs

/-- The quotes at the head. -/
def countLeading (q : Char) (cs : List Char) : Nat := (cs.takeWhile (· == q)).length

/-- A string of many lines in quotes after the first three. Up to two quotes may stand before the
closing three. -/
def multiBasic? : Nat → List Char → List Char → Option (String × List Char)
  | 0, _, _ => none
  | _, _, [] => none
  | fuel + 1, done, '\\' :: rest =>
    match newline? (skipWs rest) with
    | some rest => multiBasic? fuel done (skipBlankLines rest.length rest)
    | none =>
      match escape? rest with
      | some (c, rest) => multiBasic? fuel (c :: done) rest
      | none => none
  | fuel + 1, done, '"' :: rest =>
    let n := countLeading '"' ('"' :: rest)
    if n < 3 then multiBasic? fuel (List.replicate n '"' ++ done) (('"' :: rest).drop n)
    else if n ≤ 5 then
      some (String.ofList (List.replicate (n - 3) '"' ++ done).reverse, ('"' :: rest).drop n)
    else some (String.ofList (List.replicate 2 '"' ++ done).reverse, ('"' :: rest).drop 5)
  | fuel + 1, done, c :: rest =>
    match newline? (c :: rest) with
    | some rest => multiBasic? fuel ('\n' :: done) rest
    | none => if isPlain c then multiBasic? fuel (c :: done) rest else none

/-- A string of many lines in apostrophes after the first three. -/
def multiLiteral? : Nat → List Char → List Char → Option (String × List Char)
  | 0, _, _ => none
  | _, _, [] => none
  | fuel + 1, done, '\'' :: rest =>
    let n := countLeading '\'' ('\'' :: rest)
    if n < 3 then multiLiteral? fuel (List.replicate n '\'' ++ done) (('\'' :: rest).drop n)
    else
      let extra := min (n - 3) 2
      some (String.ofList (List.replicate extra '\'' ++ done).reverse,
        ('\'' :: rest).drop (3 + extra))
  | fuel + 1, done, c :: rest =>
    match newline? (c :: rest) with
    | some rest => multiLiteral? fuel ('\n' :: done) rest
    | none => if isPlain c then multiLiteral? fuel (c :: done) rest else none

/-- A string of one of the four kinds. -/
def string? : List Char → Option (String × List Char)
  | '"' :: '"' :: '"' :: rest =>
    let rest := dropFirstNewline rest
    multiBasic? (rest.length + 1) [] rest
  | '"' :: rest => basicString? (rest.length + 1) [] rest
  | '\'' :: '\'' :: '\'' :: rest =>
    let rest := dropFirstNewline rest
    multiLiteral? (rest.length + 1) [] rest
  | '\'' :: rest => literalString? [] rest
  | _ => none

/-! ## Dates -/

/-- A number of exactly `width` digits in a range. -/
def fixed? (width low high : Nat) (cs : List Char) : Option (Nat × List Char) :=
  let digits := cs.take width
  if digits.length = width ∧ digits.all Char.isDigit then
    let n := digits.foldl (fun n c => 10 * n + (c.toNat - '0'.toNat)) 0
    if low ≤ n ∧ n ≤ high then some (n, cs.drop width) else none
  else none

/-- What follows the character `c`. -/
def char? (c : Char) : List Char → Option (List Char)
  | d :: rest => if c = d then some rest else none
  | [] => none

/-- What follows a date that exists. -/
def date? (cs : List Char) : Option (List Char) := do
  let (year, cs) ← fixed? 4 0 9999 cs
  let cs ← char? '-' cs
  let (month, cs) ← fixed? 2 1 12 cs
  let cs ← char? '-' cs
  let (day, cs) ← fixed? 2 1 31 cs
  if day ≤ daysInMonth year month then some cs else none

/-- What follows a time of day. -/
def time? (cs : List Char) : Option (List Char) := do
  let (_, cs) ← fixed? 2 0 23 cs
  let cs ← char? ':' cs
  let (_, cs) ← fixed? 2 0 59 cs
  let cs ← char? ':' cs
  let (_, cs) ← fixed? 2 0 60 cs
  match cs with
  | '.' :: d :: rest => if d.isDigit then some (rest.dropWhile Char.isDigit) else none
  | '.' :: [] => none
  | cs => some cs

/-- What follows an offset, if there is one. -/
def offset? : List Char → Option (List Char)
  | 'Z' :: rest => some rest
  | 'z' :: rest => some rest
  | c :: rest =>
    if c = '+' ∨ c = '-' then do
      let (_, cs) ← fixed? 2 0 23 rest
      let cs ← char? ':' cs
      let (_, cs) ← fixed? 2 0 59 cs
      some cs
    else some (c :: rest)
  | [] => some []

/-- Four digits and a hyphen: what begins so can only be a date. -/
def beginsDate (cs : List Char) : Bool :=
  match fixed? 4 0 9999 cs with
  | some (_, '-' :: _) => true
  | _ => false

/-- Two digits and a colon: what begins so can only be a time of day. -/
def beginsTime (cs : List Char) : Bool :=
  match fixed? 2 0 23 cs with
  | some (_, ':' :: _) => true
  | _ => false

/-- What follows a date that may have a time of day and an offset. -/
def datetime? (cs : List Char) : Option (List Char) := do
  let cs ← date? cs
  match cs with
  | d :: rest =>
    if (d = 'T' ∨ d = 't' ∨ d = ' ') ∧ beginsTime rest then
      let cs ← time? rest
      offset? cs
    else some cs
  | [] => some []

/-! ## Numbers -/

/-- Digits of one kind with single underscores between them, and what follows. -/
def digitGroups (isDigit : Char → Bool) : List Char → List Char × List Char
  | '_' :: c :: rest =>
    if isDigit c then let (ds, left) := digitGroups isDigit rest; (c :: ds, left)
    else ([], '_' :: c :: rest)
  | c :: rest =>
    if isDigit c then let (ds, left) := digitGroups isDigit rest; (c :: ds, left)
    else ([], c :: rest)
  | [] => ([], [])

/-- At least one digit, then more with single underscores between them. -/
def groups? (isDigit : Char → Bool) : List Char → Option (List Char × List Char)
  | c :: rest =>
    if isDigit c then let (ds, left) := digitGroups isDigit rest; some (c :: ds, left) else none
  | [] => none

/-- The value of digits to a base. -/
def baseValue (base : Nat) (ds : List Char) : Nat :=
  ds.foldl (fun n c => base * n + (Hex.value? c).getD 0) 0

/-- A number that fits in 64 bits with a sign. -/
def inRange? (n : Int) : Option Int := if -(Word.range63 : Int) ≤ n ∧ n < (Word.range63 : Int) then some n else none

def isOctal (c : Char) : Bool := '0' ≤ c && c ≤ '7'
def isBinary (c : Char) : Bool := c == '0' || c == '1'
def isHex (c : Char) : Bool := (Hex.value? c).isSome

/-- A sign, if there is one: whether it is a minus. -/
def sign : List Char → Bool × List Char
  | '+' :: rest => (false, rest)
  | '-' :: rest => (true, rest)
  | cs => (false, cs)

/-- Decimal digits that begin with a zero only if it stands alone. -/
def decimal? : List Char → Option (List Char × List Char)
  | '0' :: rest => some (['0'], rest)
  | cs => groups? Char.isDigit cs

/-- A whole number in one of the four bases. -/
def integer? : List Char → Option (Toml × List Char)
  | '0' :: 'x' :: rest => based 16 isHex rest
  | '0' :: 'o' :: rest => based 8 isOctal rest
  | '0' :: 'b' :: rest => based 2 isBinary rest
  | cs => do
    let (negative, cs) := sign cs
    let (ds, left) ← decimal? cs
    let n : Int := baseValue 10 ds
    let n ← inRange? (if negative then -n else n)
    return (.integer n, left)
where
  /-- A whole number to a base after the mark of the base. -/
  based (base : Nat) (isDigit : Char → Bool) (cs : List Char) : Option (Toml × List Char) := do
    let (ds, left) ← groups? isDigit cs
    let n ← inRange? (baseValue base ds)
    return (.integer n, left)

/-- The least whole number that is too large for a double, halfway past the greatest one. -/
def doubleLimit : Nat := Nat.pow 2 1024 - Nat.pow 2 970

/-- `mantissa · 10 ^ (exponent - places)` reaches the end of the doubles. Exponents so large or so
small that the digits do not matter are told apart first. -/
def overflows (mantissa : List Char) (places : Nat) (exponent : Int) : Bool :=
  let m := baseValue 10 mantissa
  let e := exponent - places
  if m = 0 then false
  else if 400 < e then true
  else if e + mantissa.length < 0 then false
  else if 0 ≤ e then doubleLimit ≤ m * Nat.pow 10 e.toNat
  else doubleLimit * Nat.pow 10 (-e).toNat ≤ m

/-- An exponent, if there is one. -/
def exponent? : List Char → Option (Option Int × List Char)
  | e :: rest =>
    if e = 'e' ∨ e = 'E' then do
      let (negative, cs) := sign rest
      let (ds, left) ← groups? Char.isDigit cs
      let n : Int := baseValue 10 ds
      return (some (if negative then -n else n), left)
    else some (none, e :: rest)
  | [] => some (none, [])

/-- A fraction, if there is one. -/
def fraction? : List Char → Option (Option (List Char) × List Char)
  | '.' :: rest => (groups? Char.isDigit rest).map fun (ds, left) => (some ds, left)
  | cs => some (none, cs)

/-- A number with a fraction or an exponent, or one of the special ones. -/
def float? (cs : List Char) : Option (List Char) := do
  let (negative, cs) := sign cs
  match cs with
  | 'i' :: 'n' :: 'f' :: rest => some rest
  | 'n' :: 'a' :: 'n' :: rest => some rest
  | cs =>
    let (whole, cs) ← decimal? cs
    let (frac, cs) ← fraction? cs
    let (exp, cs) ← exponent? cs
    if frac.isNone && exp.isNone then none
    else
      let frac := frac.getD []
      if !negative && overflows (whole ++ frac) frac.length (exp.getD 0) then none else some cs

/-- A date, a time of day or a number. -/
def number? (cs : List Char) : Option (Toml × List Char) :=
  if beginsDate cs then (datetime? cs).map (Toml.datetime, ·)
  else if beginsTime cs then (time? cs).map (Toml.datetime, ·)
  else match float? cs with
    | some rest => some (.float, rest)
    | none => integer? cs

/-! ## Keys -/

def isBareKey (c : Char) : Bool := c.isAlphanum || c == '_' || c == '-'

/-- One name of a key. -/
def simpleKey? : List Char → Option (String × List Char)
  | '"' :: rest => basicString? (rest.length + 1) [] rest
  | '\'' :: rest => literalString? [] rest
  | cs =>
    let name := cs.takeWhile isBareKey
    if name.isEmpty then none else some (String.ofList name, cs.drop name.length)

/-- Keys and values nest less deep than this. -/
def maxDepth : Nat := 80

/-- The names of a key with points between them and blanks around each; `fuel` bounds their number. -/
def names? : Nat → List Char → Option (List String × List Char)
  | 0, _ => none
  | fuel + 1, cs => do
    let (name, cs) ← simpleKey? (skipWs cs)
    match skipWs cs with
    | '.' :: rest =>
      let (more, cs) ← names? fuel rest
      return (name :: more, cs)
    | cs => return ([name], cs)

/-- A key. -/
def key? (cs : List Char) : Option (List String × List Char) := do
  let (names, cs) ← names? (cs.length + 1) cs
  if names.length < maxDepth then return (names, cs) else none

end Syndication.Toml
