import Syndication.Store.Basic

/-!
# Session — buffers that platforms keep between deliveries

A session is a buffer under a key. It is read from the object store when it is first opened and
written back when it is flushed; in between everyone who opens the key shares one handle. A registry
holds a slot per open key, and the handle fills its slot once it has been loaded. Opening and closing
consist of steps, each of which leaves the registry in order: others may open and close between them.

## Contents
* `SessionHandle`, `SessionSlot`, `SessionRegistry`, `SessionWorld`
* `locate`, `load`, `lookup`, `flushHandle`, `evict`  — the steps
* `openKey`, `openAround`, `openAtOnce`, `closeKey`, `closeHandle`, `flushAll`, `liveCount`, `restart`
-/

namespace Syndication

/-- A shared buffer. The handle belongs to the registry of its generation. -/
structure SessionHandle where
  key : String
  buffer : Bytes
  generation : Nat
  deriving DecidableEq, Repr, Inhabited

/-- The place of a handle that is being loaded or has been. -/
structure SessionSlot where
  key : String
  handle : Option Nat
  deriving DecidableEq, Repr, Inhabited

/-- The slots and handles made so far, by number, and the slots that are registered. -/
structure SessionRegistry where
  slots : List SessionSlot := []
  handles : List SessionHandle := []
  registered : List (String × Nat) := []
  generation : Nat := 0
  deriving Repr, Inhabited

/-- A registry and the store that its sessions are kept in. -/
structure SessionWorld where
  registry : SessionRegistry
  store : ObjectStore

namespace Session

/-- The key of a session in the object store. -/
def storageKey (key : String) : String := "session/" ++ key

/-- A step on the object store alone. -/
def onStore {α : Type} (m : Effect ObjectStore α) : Effect SessionWorld α :=
  m.on (·.store) fun w store => { w with store := store }

/-- A step that only changes the registry. -/
def onRegistry {α : Type} (f : SessionRegistry → α × SessionRegistry) : Effect SessionWorld α :=
  .ofFun fun w => let (a, r) := f w.registry; (.ok a, { w with registry := r })

/-! ## Steps of opening -/

/-- The slot registered under a key, which is made if there is none. -/
def locate (key : String) (r : SessionRegistry) : Nat × SessionRegistry :=
  match r.registered.lookup key with
  | some slot => (slot, r)
  | none =>
    (r.slots.length, { r with
      slots := r.slots ++ [⟨key, none⟩]
      registered := r.registered ++ [(key, r.slots.length)] })

/-- The handle in a slot, once it has been loaded. -/
def handleIn? (slot : Nat) (r : SessionRegistry) : Option Nat := (r.slots[slot]?).bind (·.handle)

/-- A new handle in a slot. -/
def fill (slot : Nat) (key : String) (data : Bytes) (r : SessionRegistry) : Nat × SessionRegistry :=
  (r.handles.length, { r with
    handles := r.handles ++ [⟨key, data, r.generation⟩]
    slots := r.slots.modify slot fun s => { s with handle := some r.handles.length } })

/-- The handle in a slot, which is loaded if the slot is empty. A load that fails leaves the slot
empty, so the next opening loads again. -/
def load (slot : Nat) (key : String) : Effect SessionWorld Nat := do
  match handleIn? slot (← get).registry with
  | some handle => return handle
  | none =>
    let data ← onStore (ObjectStore.get (storageKey key))
    onRegistry (fill slot key (data.getD []))

/-- The live handle of a key. -/
def openKey (key : String) : Effect SessionWorld Nat := do
  match Store.validateKey (storageKey key) with
  | .error e => throw e
  | .ok () =>
    let slot ← onRegistry (locate key)
    load slot key

/-- Opens a key; something else happens after its slot has been found and before it is loaded. -/
def openAround {α : Type} (key : String) (meanwhile : Effect SessionWorld α) :
    Effect SessionWorld (α × Nat) := do
  match Store.validateKey (storageKey key) with
  | .error e => throw e
  | .ok () =>
    let slot ← onRegistry (locate key)
    let a ← meanwhile
    let handle ← load slot key
    return (a, handle)

/-- A slot for every one of `n` openings of a key. -/
def locateEach (key : String) : Nat → Effect SessionWorld (List Nat)
  | 0 => pure []
  | n + 1 => do
    let slot ← onRegistry (locate key)
    let others ← locateEach key n
    return slot :: others

/-- Loads slots one after the other, and tells for each whether the store was read. -/
def loadEach (key : String) : List Nat → Effect SessionWorld (List (Nat × Bool))
  | [] => pure []
  | slot :: rest => do
    let isRead := (handleIn? slot (← get).registry).isNone
    let handle ← load slot key
    let others ← loadEach key rest
    return (handle, isRead) :: others

/-- Opens a key `n` times at once: all openings find their slots before the first one loads. -/
def openAtOnce (key : String) (n : Nat) : Effect SessionWorld (List (Nat × Bool)) := do
  match Store.validateKey (storageKey key) with
  | .error e => throw e
  | .ok () =>
    let slots ← locateEach key n
    loadEach key slots

/-! ## Buffers -/

/-- The handle of a number. -/
def handle? (r : SessionRegistry) (handle : Nat) : Option SessionHandle := r.handles[handle]?

/-- What the buffer of a handle holds. -/
def contents (r : SessionRegistry) (handle : Nat) : Bytes :=
  match handle? r handle with
  | some h => h.buffer
  | none => []

/-- The buffer of a handle changed. -/
def modify (handle : Nat) (change : Bytes → Bytes) (r : SessionRegistry) : SessionRegistry :=
  { r with handles := r.handles.modify handle fun h => { h with buffer := change h.buffer } }

/-- Octets put in place of what the buffer of a handle holds. -/
def setContents (handle : Nat) (data : Bytes) (r : SessionRegistry) : SessionRegistry :=
  modify handle (fun _ => data) r

/-- Octets put behind what the buffer of a handle holds. -/
def append (handle : Nat) (data : Bytes) (r : SessionRegistry) : SessionRegistry :=
  modify handle (· ++ data) r

/-! ## Steps of closing -/

/-- The slot registered under a key and the handle in it, if it has been loaded. -/
def lookup (key : String) (r : SessionRegistry) : Option (Nat × Nat) := do
  let slot ← r.registered.lookup key
  let handle ← handleIn? slot r
  return (slot, handle)

/-- Writes the buffer of a handle to the store. An empty buffer is not written. -/
def flushHandle (handle : Nat) : Effect SessionWorld Unit := do
  match handle? (← get).registry handle with
  | none => return
  | some h =>
    if h.buffer.isEmpty then return
    else onStore (ObjectStore.put (storageKey h.key) h.buffer)

/-- Takes a key out of the registry if it still leads to this slot. -/
def evict (key : String) (slot : Nat) (r : SessionRegistry) : SessionRegistry :=
  if r.registered.lookup key = some slot then
    { r with registered := r.registered.filter (·.1 ≠ key) }
  else r

/-- Flushes the live handle of a key and takes it out of the registry. A handle that is still being
loaded stays. -/
def closeKey (key : String) : Effect SessionWorld Unit := do
  match lookup key (← get).registry with
  | none => return
  | some (slot, handle) =>
    flushHandle handle
    onRegistry fun r => ((), evict key slot r)

/-- Closes the key of a handle in the registry that the handle belongs to. If that one is gone, the
handle is flushed. -/
def closeHandle (handle : Nat) : Effect SessionWorld Unit := do
  let r := (← get).registry
  match handle? r handle with
  | none => return
  | some h => if h.generation = r.generation then closeKey h.key else flushHandle handle

/-! ## All sessions -/

/-- The live handles, in the order in which their slots were registered. -/
def live (r : SessionRegistry) : List Nat := r.registered.filterMap fun (_, slot) => handleIn? slot r

/-- How many handles are live. -/
def liveCount (r : SessionRegistry) : Nat := (live r).length

/-- Flushes handles one after the other. -/
def flushEach : List Nat → Effect SessionWorld Unit
  | [] => pure ()
  | handle :: rest => do
    flushHandle handle
    flushEach rest

/-- Flushes every live handle and counts them. -/
def flushAll : Effect SessionWorld Nat := do
  let handles := live (← get).registry
  flushEach handles
  return handles.length

/-- A new registry over the same store. Handles of the old one stay with who holds them. -/
def restart (r : SessionRegistry) : SessionRegistry :=
  { r with registered := [], generation := r.generation + 1 }

end Session
end Syndication
