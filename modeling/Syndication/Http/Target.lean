import Syndication.Text.Ascii
import Syndication.Text.Hex

/-!
# Http.Target — the path of a request target

## Contents
* `path`             — the path of a target, without scheme, authority, query and fragment
* `percentDecode`    — the octets that a percent-encoded text spells
* `segment?`         — a path segment as text, if it spells one
-/

namespace Syndication.Http

/-- What follows the two slashes after a scheme. -/
def afterScheme? : List Char → Option (List Char)
  | ':' :: '/' :: '/' :: rest => some rest
  | c :: rest => if c = '/' ∨ c = '?' ∨ c = '#' then none else afterScheme? rest
  | [] => none

/-- A character that ends the path. -/
def endsPath (c : Char) : Bool := c == '?' || c == '#'

/-- The path of a target. A target with scheme and authority only has the path `/`. -/
def path (target : String) : String :=
  let cs := target.toList
  let cs := match afterScheme? cs with
    | some rest => rest.dropWhile fun c => c != '/' && !endsPath c
    | none => cs
  let p := cs.takeWhile (!endsPath ·)
  if p.isEmpty then "/" else String.ofList p

/-- Octets with each percent sign and the two digits after it read as the octet they name. A percent
sign without digits stands for itself. -/
def percentDecode : Bytes → Bytes
  | 0x25 :: hi :: lo :: rest =>
    match Hex.value? (Char.ofNat hi.toNat), Hex.value? (Char.ofNat lo.toNat) with
    | some h, some l => UInt8.ofNat (16 * h + l) :: percentDecode rest
    | _, _ => 0x25 :: percentDecode (hi :: lo :: rest)
  | b :: rest => b :: percentDecode rest
  | [] => []

/-- The text that a path segment spells. -/
def segment? (s : String) : Option String := Utf8.decode? (percentDecode (Utf8.encode s))

end Syndication.Http
