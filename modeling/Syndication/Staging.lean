import Syndication.Identifier
import Syndication.Json.Reader
import Syndication.Json.Writer
import Syndication.Post
import Syndication.Store.Basic

/-!
# Staging — bundles of content and their locks

The content of a post is staged once, as a bundle of five objects under the identifier of the post,
and read by every job of the post. Beside the content each target keeps a lock until its job has
ended; a bundle is collected only when no lock is left.

## Contents
* `contentKey`, `lockKey`            — where the parts of a bundle stand
* `stage`, `load`                    — content
* `createLock`, `removeLock`, `locks`
* `collect`, `bundles`, `sweep`      — bundles that are done
-/

namespace Syndication.Staging

/-! ## Keys -/

/-- How the keys of all bundles begin. -/
def bundleStart : String := "post/"

/-- How the name of a lock begins. -/
def lockStart : String := "lock-"

/-- The key of a part of a bundle. -/
def contentKey (rootId name : String) : String := bundleStart ++ rootId ++ "/" ++ name

/-- The key of the lock of a target. -/
def lockKey (rootId target : String) : String := contentKey rootId (lockStart ++ target)

/-- The identifier of a bundle must be path-safe. -/
def checkRoot (rootId : String) : Except Error Unit :=
  if isPathSafe rootId then .ok ()
  else .error (.invalidInput ("invalid root post id '" ++ rootId ++ "'"))

/-! ## Content -/

/-- A list of texts as an object. -/
def encodeList (ss : List String) : Bytes := Utf8.encode (Json.texts ss).compact

/-- The list of texts that an object holds. -/
def decodeList? (data : Bytes) : Option (List String) :=
  (Json.ofBytes? data).bind (·.asList? Json.asText?)

/-- The five objects of a bundle. -/
def parts (c : PostContent) : List (String × Bytes) :=
  [("title", Utf8.encode c.title), ("description", Utf8.encode c.description),
    ("description-html", Utf8.encode c.htmlDescription), ("tags", encodeList c.tags),
    ("media", encodeList c.media)]

/-- Puts objects under names of a bundle, one after the other. -/
def putAll (rootId : String) : List (String × Bytes) → Effect ObjectStore Unit
  | [] => pure ()
  | (name, data) :: rest => do
    ObjectStore.put (contentKey rootId name) data
    putAll rootId rest

/-- Stages content under an identifier. -/
def stage (rootId : String) (c : PostContent) : Effect ObjectStore Unit := do
  checkRoot rootId
  putAll rootId (parts c)

/-- A text of a bundle; octets that are no text are replaced. -/
def getText (rootId name : String) : Effect ObjectStore (Option String) := do
  return (← ObjectStore.get (contentKey rootId name)).map Utf8.decodeLossy

/-- A list of a bundle. -/
def getList (rootId name : String) : Effect ObjectStore (Option (List String)) := do
  match ← ObjectStore.get (contentKey rootId name) with
  | none => return none
  | some data =>
    match decodeList? data with
    | some ss => return some ss
    | none => throw (.serialization "not a list of texts")

/-- The content staged under an identifier, if any part of it is there. -/
def load (rootId : String) : Effect ObjectStore (Option PostContent) := do
  checkRoot rootId
  let title ← getText rootId "title"
  let description ← getText rootId "description"
  let htmlDescription ← getText rootId "description-html"
  let tags ← getList rootId "tags"
  let media ← getList rootId "media"
  if title.isNone && description.isNone && htmlDescription.isNone && tags.isNone && media.isNone then
    return none
  else
    return some {
      title := title.getD ""
      description := description.getD ""
      htmlDescription := htmlDescription.getD ""
      tags := tags.getD []
      media := media.getD [] }

/-! ## Locks -/

/-- Locks a bundle for a target; the lock names the job. -/
def createLock (rootId target jobId : String) : Effect ObjectStore Unit := do
  checkRoot rootId
  ObjectStore.put (lockKey rootId target) (Utf8.encode jobId)

/-- Releases the lock of a target and says whether there was one. -/
def removeLock (rootId target : String) : Effect ObjectStore Bool := do
  checkRoot rootId
  ObjectStore.delete (lockKey rootId target)

/-- The targets that hold a lock, ascending. -/
def locks (rootId : String) : Effect ObjectStore (List String) := do
  checkRoot rootId
  let start := contentKey rootId lockStart
  return (← ObjectStore.list start).filterMap (Text.dropStart? start)

/-! ## Collecting -/

/-- What became of a bundle that was to be collected. -/
inductive CollectOutcome where
  /-- So many objects were deleted. -/
  | collected (objects : Nat)
  /-- So many locks are left; nothing was deleted. -/
  | locked (locks : Nat)
  /-- There is no object under the identifier. -/
  | missing
  deriving DecidableEq, Repr

def CollectOutcome.toJson : CollectOutcome → Json
  | .collected n => .record [("collected", .int n)]
  | .locked n => .record [("locked", .int n)]
  | .missing => .text "missing"

/-- Deletes objects one after the other and counts those that were there. -/
def deleteAll : List String → Effect ObjectStore Nat
  | [] => pure 0
  | key :: rest => do
    let found ← ObjectStore.delete key
    let others ← deleteAll rest
    return (if found then 1 else 0) + others

/-- Deletes a bundle that no target has locked. -/
def collect (rootId : String) : Effect ObjectStore CollectOutcome := do
  checkRoot rootId
  let start := bundleStart ++ rootId ++ "/"
  let keys ← ObjectStore.list start
  if keys.isEmpty then return .missing
  else
    let locked := keys.countP (Text.startsWith · (start ++ lockStart))
    if 0 < locked then return .locked locked
    else return .collected (← deleteAll keys)

/-- The identifier of the bundle that a key belongs to. -/
def rootOf? (key : String) : Option String :=
  (Text.dropStart? bundleStart key).bind fun rest => (Text.split '/' rest).head?

/-- The identifiers of all bundles, ascending. -/
def bundles : Effect ObjectStore (List String) := do
  let keys ← ObjectStore.list bundleStart
  return ((keys.filterMap rootOf?).eraseDups).mergeSort (· ≤ ·)

/-- What a sweep did. -/
structure SweepReport where
  collected : Nat := 0
  locked : Nat := 0
  deriving DecidableEq, Repr

def SweepReport.toJson (r : SweepReport) : Json :=
  .record [("collected", .int r.collected), ("locked", .int r.locked)]

/-- A sweep's report after one more bundle. A bundle that could not be collected is left out. -/
def SweepReport.add (r : SweepReport) : Except Error CollectOutcome → SweepReport
  | .ok (.collected _) => { r with collected := r.collected + 1 }
  | .ok (.locked _) => { r with locked := r.locked + 1 }
  | .ok .missing => r
  | .error _ => r

/-- Collects bundles one after the other. -/
def sweepRoots (r : SweepReport) : List String → Effect ObjectStore SweepReport
  | [] => pure r
  | root :: rest => do
    let outcome ← (collect root).settle
    sweepRoots (r.add outcome) rest

/-- Collects every bundle without locks. -/
def sweep : Effect ObjectStore SweepReport := do
  let roots ← bundles
  sweepRoots {} roots

end Syndication.Staging
