import Syndication.Error
import Syndication.Text.Ascii

/-!
# Store.Key — names of stored objects

A key is a path below the root of the store: segments with slashes between them, none of them empty
and none a step to the same or the upper level. The last segment may not look like a file that is
still being written.

## Contents
* `segments`, `tempStart`
* `isValidKey`, `validateKey`
-/

namespace Syndication.Store

/-- The segments of a key. -/
def segments (key : String) : List String := Text.split '/' key

/-- How the names of files begin that are still being written. -/
def tempStart : String := ".tmp-"

/-- A segment that names an entry of a directory, and not a way through it. -/
def isPlainSegment (s : String) : Bool := !s.isEmpty && s != "." && s != ".."

/-- A key that stays below the root and is not taken for an unfinished file. A leading slash makes an
empty first segment and is refused with the empty segments. -/
def isValidKey (key : String) : Bool :=
  !key.toList.contains '\\' && (segments key).all isPlainSegment &&
    !Text.startsWith ((segments key).getLast?.getD "") tempStart

/-- A key must be valid. -/
def validateKey (key : String) : Except Error Unit :=
  if isValidKey key then .ok () else .error (.storage (.invalidKey key))

end Syndication.Store
