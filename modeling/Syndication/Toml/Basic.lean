/-!
# Toml.Basic — TOML values

Floats and dates are known to be there, but no setting asks for their value.

## Contents
* `Toml`                                    — the values
* `Toml.Fields`, `fields?`, `get?`          — a value read as a record
* `asText?`, `asNatBelow?`, `asInt?`, `asList?` — reading one shape
-/

namespace Syndication

/-- A TOML value. -/
inductive Toml where
  | string (text : String)
  | integer (n : Int)
  | float
  | boolean (b : Bool)
  | datetime
  | array (items : List Toml)
  | table (entries : List (String × Toml))
  deriving Inhabited

namespace Toml

def asText? : Toml → Option String
  | .string s => some s
  | _ => none

def asInt? : Toml → Option Int
  | .integer n => some n
  | _ => none

/-- A natural number below `bound`. -/
def asNatBelow? (bound : Nat) : Toml → Option Nat
  | .integer n => if 0 ≤ n ∧ n < bound then some n.toNat else none
  | _ => none

def asList? {α : Type} (f : Toml → Option α) : Toml → Option (List α)
  | .array items => items.mapM f
  | _ => none

/-! ## Records -/

/-- The fields of a record by position, `none` where one is missing. -/
abbrev Fields := List (Option Toml)

/-- The fields of a value that stands for a record. A table gives them by name; an array gives them
in the order of declaration, and what it holds beyond them is passed over. A date is a record
without any of the fields. -/
def fields? (names : List String) : Toml → Option Fields
  | .table entries => some (names.map (entries.lookup ·))
  | .array items => some (names.mapIdx fun i _ => items[i]?)
  | .datetime => some (names.map fun _ => none)
  | _ => none

/-- A field that may not be missing. -/
def Fields.required {α : Type} (fs : Fields) (i : Nat) (read : Toml → Option α) : Option α :=
  (fs[i]?.join).bind read

/-- A field that has a default. -/
def Fields.withDefault {α : Type} (fs : Fields) (i : Nat) (read : Toml → Option α) (default : α) :
    Option α :=
  match fs[i]?.join with
  | some v => read v
  | none => some default

/-- A field that may be missing. -/
def Fields.optional {α : Type} (fs : Fields) (i : Nat) (read : Toml → Option α) :
    Option (Option α) :=
  fs.withDefault i (fun v => (read v).map some) none

end Toml
end Syndication
