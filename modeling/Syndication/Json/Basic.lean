/-!
# Json.Basic — JSON values

A value as it stands in a document. Numbers keep their spelling, since a member that nobody asks
for may hold one that no number type does. For the same reason a string may be without text: it can
be well formed and yet spell a lone surrogate or octets that are no characters.

## Contents
* `Json`                           — the values
* `Json.text`, `int`, `record` …   — building them
* `asText?`, `asNat?`, `asInt?`, `asBool?`, `asList?`, `asNullable?` — reading one shape
-/

namespace Syndication

/-- A JSON value. -/
inductive Json where
  | null
  | bool (value : Bool)
  | number (spelling : String)
  | string (text : Option String)
  | array (items : List Json)
  | object (members : List (Option String × Json))
  deriving Inhabited

namespace Json

/-! ## Building -/

/-- A string with a text. -/
def text (s : String) : Json := .string (some s)

/-- A whole number. -/
def int (n : Int) : Json := .number (toString n)

/-- A list of texts. -/
def texts (ss : List String) : Json := .array (ss.map text)

/-- The value, or `null` where there is none. -/
def orNull {α : Type} (f : α → Json) : Option α → Json
  | some a => f a
  | none => .null

/-- An object with the members in the order given. -/
def record (members : List (String × Json)) : Json := .object (members.map fun (k, v) => (some k, v))

/-- A member that is left out where there is no value. -/
def member? {α : Type} (name : String) (f : α → Json) : Option α → List (String × Json)
  | some a => [(name, f a)]
  | none => []

/-! ## Reading one shape -/

/-- The text of a string that has one. -/
def asText? : Json → Option String
  | .string t => t
  | _ => none

/-- A truth value. -/
def asBool? : Json → Option Bool
  | .bool b => some b
  | _ => none

/-- The natural number that a spelling of digits only names. -/
def asNat? : Json → Option Nat
  | .number s =>
    if s.toList.all Char.isDigit then
      some (s.toList.foldl (fun n c => 10 * n + (c.toNat - '0'.toNat)) 0)
    else none
  | _ => none

/-- The whole number that digits name, with a minus sign before them or without one. -/
def asInt? : Json → Option Int
  | .number s =>
    match s.toList with
    | '-' :: digits => (number (String.ofList digits)).asNat?.map fun n => -(n : Int)
    | _ => (number s).asNat?.map Int.ofNat
  | _ => none

/-- A natural number below `bound`. -/
def asNatBelow? (bound : Nat) (j : Json) : Option Nat :=
  j.asNat?.filter (· < bound)

/-- Items that all have one shape. -/
def asList? {α : Type} (f : Json → Option α) : Json → Option (List α)
  | .array items => items.mapM f
  | _ => none

/-- `null`, or a value of one shape. -/
def asNullable? {α : Type} (f : Json → Option α) : Json → Option (Option α)
  | .null => some none
  | j => (f j).map some

end Json
end Syndication
