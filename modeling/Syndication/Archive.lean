import Syndication.Job.Row
import Syndication.Service

/-!
# Archive — what outlasts a program

Between two programs the tables of the database and the objects of the store rest in two JSON
documents. A table is an array of rows, and a row is an array of cells in the order in which the
record declares them, so a document has no names but those of its tables. What only a running program
needs is not kept: the sessions have been flushed, and platforms, secrets and the clock come from
outside.

## Contents
* `rows`, `ofRows?`                        — tables
* `keyRow`, `jobRow`, `messageRow` …       — a row for each kind of record, and back
* `tables`, `withTables?`                  — the database
* `objects`, `ofObjects?`                  — the object store
-/

namespace Syndication.Archive

/-! ## Tables -/

/-- A table of records. -/
def rows {α : Type} (row : α → List Json) (records : List α) : Json :=
  .array (records.map fun a => .array (row a))

/-- The records of a table. Every row has to fit. -/
def ofRows? {α : Type} (ofRow? : List Json → Option α) : Json → Option (List α)
  | .array items => items.mapM fun item =>
    match item with
    | .array cells => ofRow? cells
    | _ => none
  | _ => none

/-! ## Rows -/

/-- The row of a key. -/
def keyRow (k : ApiKey) : List Json :=
  [.text k.userId, .text k.keyId, .text k.token, .int k.createdAt]

/-- The key of a row. -/
def keyOfRow? : List Json → Option ApiKey
  | [user, key, token, created] => do
    return ⟨← user.asText?, ← key.asText?, ← token.asText?, ← created.asInt?⟩
  | _ => none

/-- The row of a job record. -/
def jobRow (r : JobRecord) : List Json :=
  let row := r.row
  [.text row.jobId, .text row.rootId, .text row.userId, .text row.target, .orNull .int row.postAt,
    .int row.status, .int row.attempts, .orNull .text row.lastError, .orNull .text row.failedParts,
    .orNull .text row.platformPostId, .orNull .int row.leaseUntil, .int row.createdAt,
    .int row.updatedAt]

/-- The job record of a row. -/
def jobOfRow? : List Json → Option JobRecord
  | [job, root, user, target, postAt, status, attempts, lastError, failedParts, posted, lease, created,
      updated] => do
    JobRow.record? {
      jobId := ← job.asText?
      rootId := ← root.asText?
      userId := ← user.asText?
      target := ← target.asText?
      postAt := ← postAt.asNullable? Json.asInt?
      status := ← status.asInt?
      attempts := ← attempts.asInt?
      lastError := ← lastError.asNullable? Json.asText?
      failedParts := ← failedParts.asNullable? Json.asText?
      platformPostId := ← posted.asNullable? Json.asText?
      leaseUntil := ← lease.asNullable? Json.asInt?
      createdAt := ← created.asInt?
      updatedAt := ← updated.asInt? }
  | _ => none

/-- The row of a message. -/
def messageRow (m : Message) : List Json :=
  [.int m.id, .text m.queue, .text m.payload, .int m.visibleAt, .int m.dequeueCount,
    .orNull (fun n : Nat => .int n) m.receipt, .int m.createdAt]

/-- The message of a row. -/
def messageOfRow? : List Json → Option Message
  | [id, queue, payload, visible, count, receipt, created] => do
    return {
      id := ← id.asNat?
      queue := ← queue.asText?
      payload := ← payload.asText?
      visibleAt := ← visible.asInt?
      dequeueCount := ← count.asNat?
      receipt := ← receipt.asNullable? Json.asNat?
      createdAt := ← created.asInt? }
  | _ => none

/-- The row of a message that a provider has sent. -/
def seenRow (e : SeenMessage) : List Json := [.text e.source, .text e.messageId, .int e.seenAt]

/-- The message that a row says a provider has sent. -/
def seenOfRow? : List Json → Option SeenMessage
  | [source, message, seen] => do
    return ⟨← source.asText?, ← message.asText?, ← seen.asInt?⟩
  | _ => none

/-- The row of a trigger that a message has fired. -/
def firedRow (e : FiredTrigger) : List Json :=
  [.text e.source, .text e.messageId, .text e.userId, .text e.triggerId, .int e.notifiedAt]

/-- The trigger that a row says a message has fired. -/
def firedOfRow? : List Json → Option FiredTrigger
  | [source, message, user, trigger, notified] => do
    return ⟨← source.asText?, ← message.asText?, ← user.asText?, ← trigger.asText?,
      ← notified.asInt?⟩
  | _ => none

/-- The row of a trigger. -/
def triggerRow (t : Trigger) : List Json :=
  [.text t.userId, .text t.triggerId, .text t.accountId, .text t.accountType, .text t.templateId,
    .text t.target, .int t.gapHours, .orNull .int t.lastNotifiedAt, .int t.createdAt]

/-- The trigger of a row. -/
def triggerOfRow? : List Json → Option Trigger
  | [user, trigger, account, type, template, target, gap, last, created] => do
    return {
      userId := ← user.asText?
      triggerId := ← trigger.asText?
      accountId := ← account.asText?
      accountType := ← type.asText?
      templateId := ← template.asText?
      target := ← target.asText?
      gapHours := ← gap.asNat?
      lastNotifiedAt := ← last.asNullable? Json.asInt?
      createdAt := ← created.asInt? }
  | _ => none

/-- The row of an interest. -/
def interestRow (i : Interest) : List Json :=
  [.text i.accountType, .text i.accountId, .text i.userId]

/-- The interest of a row. -/
def interestOfRow? : List Json → Option Interest
  | [type, account, user] => do return ⟨← type.asText?, ← account.asText?, ← user.asText?⟩
  | _ => none

/-- The row of a template. -/
def templateRow (t : Template) : List Json :=
  [.text t.userId, .text t.templateId, .text t.title, .text t.body, .int t.updatedAt]

/-- The template of a row. -/
def templateOfRow? : List Json → Option Template
  | [user, template, title, body, updated] => do
    return ⟨← user.asText?, ← template.asText?, ← title.asText?, ← body.asText?, ← updated.asInt?⟩
  | _ => none

/-- The row of a budget window. -/
def windowRow (w : RateWindow) : List Json := [.text w.target, .int w.start, .int w.count]

/-- The budget window of a row. -/
def windowOfRow? : List Json → Option RateWindow
  | [target, start, count] => do return ⟨← target.asText?, ← start.asInt?, ← count.asNat?⟩
  | _ => none

/-! ## The database -/

/-- The tables of a service. -/
def tables (s : Service) : Json :=
  .record [("keys", rows keyRow s.keys.keys), ("jobs", rows jobRow s.jobs.records),
    ("messages", rows messageRow s.messages.messages), ("nextMessage", .int s.messages.nextId),
    ("nextReceipt", .int s.messages.nextReceipt), ("seen", rows seenRow s.ledger.seen),
    ("fired", rows firedRow s.ledger.fired), ("triggers", rows triggerRow s.triggers.triggers),
    ("interests", rows interestRow s.triggers.interests),
    ("templates", rows templateRow s.triggers.templates), ("windows", rows windowRow s.windows.windows)]

/-- The names of the tables. -/
def tableNames : List (List String) :=
  [["keys"], ["jobs"], ["messages"], ["nextMessage"], ["nextReceipt"], ["seen"], ["fired"],
    ["triggers"], ["interests"], ["templates"], ["windows"]]

/-- A service with the tables of a document. -/
def withTables? (s : Service) (j : Json) : Option Service := do
  let m ← Json.Members.of? tableNames j
  return { s with
    keys := ⟨← m.required 0 (ofRows? keyOfRow?)⟩
    jobs := ⟨← m.required 1 (ofRows? jobOfRow?)⟩
    messages := ⟨← m.required 2 (ofRows? messageOfRow?), ← m.required 3 Json.asNat?,
      ← m.required 4 Json.asNat?⟩
    ledger := ⟨← m.required 5 (ofRows? seenOfRow?), ← m.required 6 (ofRows? firedOfRow?)⟩
    triggers := ⟨← m.required 7 (ofRows? triggerOfRow?), ← m.required 8 (ofRows? interestOfRow?),
      ← m.required 9 (ofRows? templateOfRow?)⟩
    windows := ⟨← m.required 10 (ofRows? windowOfRow?)⟩ }

/-! ## The object store -/

/-- The row of a file: its octets, then the names on the way to it. -/
def fileRow (f : Store.Path × Bytes) : List Json := .text (Hex.encode f.2) :: f.1.map Json.text

/-- The file of a row. -/
def fileOfRow? : List Json → Option (Store.Path × Bytes)
  | data :: names => do return (← names.mapM Json.asText?, ← data.asText?.bind Hex.decode?)
  | [] => none

/-- The directories and files of a tree. -/
def objects (t : Store.Tree) : Json :=
  .record [("directories", rows (·.map Json.text) t.dirs), ("files", rows fileRow t.files)]

/-- The tree of a document. -/
def ofObjects? (j : Json) : Option Store.Tree := do
  let m ← Json.Members.of? [["directories"], ["files"]] j
  return {
    dirs := ← m.required 0 (ofRows? (·.mapM Json.asText?))
    files := ← m.required 1 (ofRows? fileOfRow?) }

end Syndication.Archive
