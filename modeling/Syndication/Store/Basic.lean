import Syndication.Effect
import Syndication.Store.Flat
import Syndication.Store.Tree

/-!
# Store.Basic — the object store

Staged content and session buffers live in one space of keys. It is held in memory or as files. A
store may be out of order for some keys; then a call fails before it does anything.

## Contents
* `Objects`, `Outage`, `ObjectStore`
* `put`, `get`, `delete`, `list`, `contains` — the operations
-/

namespace Syndication

/-- The objects of a store. -/
inductive Objects where
  | memory (flat : Store.Flat)
  | files (tree : Store.Tree)
  deriving Repr

/-- The calls that fail, by key. For a listing the key is what the listed keys begin with. -/
structure Outage where
  put : String → Bool := fun _ => false
  get : String → Bool := fun _ => false
  delete : String → Bool := fun _ => false
  list : String → Bool := fun _ => false

/-- The object store. -/
structure ObjectStore where
  objects : Objects
  outage : Outage := {}

namespace ObjectStore

/-- An empty store in memory. -/
def inMemory : ObjectStore := { objects := .memory {} }

/-- An empty store of files. -/
def onFiles : ObjectStore := { objects := .files {} }

/-- The failure of a call while the store is out of order. -/
def unavailable : Error := .storage (.io "store unavailable")

/-- Puts an object under a key. -/
def put (key : String) (data : Bytes) : Effect ObjectStore Unit := .ofFun fun s =>
  if s.outage.put key then (.error unavailable, s)
  else match s.objects with
    | .memory flat =>
      match Store.validateKey key with
      | .error e => (.error e, s)
      | .ok () => (.ok (), { s with objects := .memory (flat.put key data) })
    | .files tree =>
      let (r, tree) := tree.put key data
      (r, { s with objects := .files tree })

/-- The object under a key. -/
def get (key : String) : Effect ObjectStore (Option Bytes) := .ofFun fun s =>
  if s.outage.get key then (.error unavailable, s)
  else match s.objects with
    | .memory flat =>
      match Store.validateKey key with
      | .error e => (.error e, s)
      | .ok () => (.ok (flat.get? key), s)
    | .files tree => (tree.get key, s)

/-- Removes the object under a key and says whether there was one. -/
def delete (key : String) : Effect ObjectStore Bool := .ofFun fun s =>
  if s.outage.delete key then (.error unavailable, s)
  else match s.objects with
    | .memory flat =>
      match Store.validateKey key with
      | .error e => (.error e, s)
      | .ok () =>
        let (found, flat) := flat.delete key
        (.ok found, { s with objects := .memory flat })
    | .files tree =>
      let (r, tree) := tree.delete key
      (r, { s with objects := .files tree })

/-- The keys that begin with `start`, ascending. -/
def list (start : String) : Effect ObjectStore (List String) := .ofFun fun s =>
  if s.outage.list start then (.error unavailable, s)
  else match s.objects with
    | .memory flat => (.ok (flat.list start), s)
    | .files tree => (tree.list start, s)

/-- Whether there is an object under a key. -/
def contains (key : String) : Effect ObjectStore Bool := do return (← get key).isSome

end ObjectStore
end Syndication
