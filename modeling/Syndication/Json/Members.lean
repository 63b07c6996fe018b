import Syndication.Json.Basic

/-!
# Json.Members — the members of a record

A record is written as an object whose keys are member names, in any order, or as an array of the
members in the order of their declaration. A member may have several names; under all of them
together it may stand once. Keys that name no member are passed over. In an object any member that
has a default may be missing, in an array only those at the end, and an array may not be longer
than the record.

## Contents
* `Members`, `Members.of?`              — the members found, by position
* `required`, `withDefault`, `optional` — reading one of them
-/

namespace Syndication.Json

/-- The members of a record by position, `none` where one is missing. -/
structure Members where
  found : List (Option Json)

namespace Members

/-- The position of the member that a key names. -/
def position? (names : List (List String)) (key : String) : Option Nat :=
  names.findIdx? (·.contains key)

/-- One more member of an object: a key must have a text, and a named member must be new. -/
def insert? (names : List (List String)) (found : List (Option Json)) :
    Option String × Json → Option (List (Option Json))
  | (none, _) => none
  | (some key, item) =>
    match position? names key with
    | none => some found
    | some i =>
      match found[i]? with
      | some none => some (found.set i (some item))
      | _ => none

/-- The members of a value that is written as a record. Each list of `names` belongs to one member,
in the order of declaration. -/
def of? (names : List (List String)) : Json → Option Members
  | .object ms =>
    (ms.foldlM (insert? names) (names.map fun _ => none)).map Members.mk
  | .array items =>
    if items.length ≤ names.length then
      some ⟨items.map some ++ List.replicate (names.length - items.length) none⟩
    else none
  | _ => none

/-- The member at a position. -/
def get? (m : Members) (i : Nat) : Option Json := m.found[i]?.join

/-- A member that may not be missing. -/
def required {α : Type} (m : Members) (i : Nat) (read : Json → Option α) : Option α :=
  (m.get? i).bind read

/-- A member that has a default. -/
def withDefault {α : Type} (m : Members) (i : Nat) (read : Json → Option α) (default : α) :
    Option α :=
  match m.get? i with
  | some j => read j
  | none => some default

/-- A member that may be `null` or missing. -/
def optional {α : Type} (m : Members) (i : Nat) (read : Json → Option α) : Option (Option α) :=
  m.withDefault i (·.asNullable? read) none

end Members
end Syndication.Json
