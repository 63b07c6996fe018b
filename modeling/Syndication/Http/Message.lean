import Syndication.Text.Ascii
import Syndication.Text.Utf8

/-!
# Http.Message — requests and responses

## Contents
* `Headers`, `first?`, `visible?`   — header lines, and the text of a value
* `Request`, `Response`
-/

namespace Syndication.Http

/-- Header lines in the order in which they came. -/
abbrev Headers := List (String × Bytes)

/-- The first value under a name, whatever the case of its letters. -/
def first? (headers : Headers) (name : String) : Option Bytes :=
  (headers.find? fun (n, _) => Text.eqIgnoreCase n name).map (·.2)

/-- An octet that a readable value may hold: printable ASCII or a tab. -/
def isVisible (b : UInt8) : Bool := (0x20 ≤ b && b < 0x7F) || b == 0x09

/-- The text of a readable value. -/
def visible? (value : Bytes) : Option String :=
  if value.all isVisible then some (String.ofList (value.map fun b => Char.ofNat b.toNat)) else none

/-- A request. The target is what stands between method and version on the first line. -/
structure Request where
  method : String
  target : String
  headers : Headers := []
  body : Bytes := []
  deriving Repr

/-- A response. -/
structure Response where
  status : Nat
  contentType : Option String
  body : Bytes
  deriving DecidableEq, Repr

namespace Response

/-- A response without a body. -/
def bare (status : Nat) : Response := ⟨status, none, []⟩

/-- A response with a plain text. -/
def plain (status : Nat) (text : String) : Response :=
  ⟨status, some "text/plain; charset=utf-8", Utf8.encode text⟩

/-- A response with a JSON document. -/
def json (status : Nat) (document : String) : Response :=
  ⟨status, some "application/json", Utf8.encode document⟩

end Response
end Syndication.Http
