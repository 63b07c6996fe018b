import Syndication.Text.Blank
import Syndication.Text.Hex

/-!
# Identifier — names that may stand in paths, and fresh names

Identifiers of users, targets and posts become segments of object keys, so none may climb, separate
or hide: no two dots in a row, no slash, no backslash, no blank, no control character, and at least
one character. Fresh identifiers are drawn from a counter that starts at a secret point; a later one
is always the greater one.

## Contents
* `hasTwoDots`, `isPathSafe`
* `Issuer`, `idOf`, `tokenOf` — fresh identifiers and tokens
-/

namespace Syndication

/-- Two dots stand next to each other. -/
def hasTwoDots : List Char → Bool
  | '.' :: '.' :: _ => true
  | _ :: rest => hasTwoDots rest
  | [] => false

/-- A character that an identifier may hold. -/
def isPathSafeChar (c : Char) : Bool :=
  c != '/' && c != '\\' && !isBlank c && !isControl c

/-- An identifier that can be a segment of an object key. -/
def isPathSafe (s : String) : Bool :=
  !s.isEmpty && !hasTwoDots s.toList && s.toList.all isPathSafeChar

/-- The characters of tokens. -/
def tokenAlphabet : List Char :=
  "0123456789ABCDEFGHIJKLMNOPQRSTUVWXYZabcdefghijklmnopqrstuvwxyz".toList

/-- The length of a token. -/
def tokenLength : Nat := 40

/-- The last `width` digits of a number to the base of the token alphabet. -/
def tokenChars : Nat → Nat → List Char
  | 0, _ => []
  | width + 1, n => tokenChars width (n / 62) ++ [tokenAlphabet.getD (n % 62) '0']

/-- Where fresh identifiers and tokens come from: the starting points, and how many of each have
been drawn. -/
structure Issuer where
  idSeed : Nat
  tokenSeed : Nat
  ids : Nat
  tokens : Nat
  deriving DecidableEq, Repr

namespace Issuer

/-- The identifier drawn after `n` others: 32 hexadecimal digits. -/
def idOf (s : Issuer) (n : Nat) : String := Hex.ofNat 32 (s.idSeed + n)

/-- The token drawn after `n` others: 40 letters and digits. -/
def tokenOf (s : Issuer) (n : Nat) : String :=
  String.ofList (tokenChars tokenLength (s.tokenSeed + n))

/-- A fresh identifier. -/
def nextId (s : Issuer) : String × Issuer := (s.idOf s.ids, { s with ids := s.ids + 1 })

/-- A fresh token. -/
def nextToken (s : Issuer) : String × Issuer := (s.tokenOf s.tokens, { s with tokens := s.tokens + 1 })

end Issuer
end Syndication
