import Syndication.Text.Ascii
import Syndication.Text.Utf8

/-!
# Store.Flat — objects in one sorted list

Every object stands in the list under its key; keys ascend and none occurs twice.

## Contents
* `Flat`, `get?`, `put`, `delete`, `list`
-/

namespace Syndication.Store

/-- Objects by ascending key. -/
structure Flat where
  entries : List (String × Bytes) := []
  deriving Repr, Inhabited

namespace Flat

/-- The object under a key. -/
def get? (f : Flat) (key : String) : Option Bytes := f.entries.lookup key

/-- An object put in its place among entries with ascending keys. -/
def insertSorted (key : String) (data : Bytes) : List (String × Bytes) → List (String × Bytes)
  | [] => [(key, data)]
  | (k, d) :: rest =>
    if key = k then (key, data) :: rest
    else if key < k then (key, data) :: (k, d) :: rest
    else (k, d) :: insertSorted key data rest

/-- An object put under a key, in place of the one that stood there. -/
def put (f : Flat) (key : String) (data : Bytes) : Flat := ⟨insertSorted key data f.entries⟩

/-- The store without the object under a key, and whether there was one. -/
def delete (f : Flat) (key : String) : Bool × Flat :=
  (f.entries.any (·.1 = key), ⟨f.entries.filter (·.1 ≠ key)⟩)

/-- The keys that begin with `start`, ascending. -/
def list (f : Flat) (start : String) : List String :=
  (f.entries.map (·.1)).filter (Text.startsWith · start)

end Flat
end Syndication.Store
