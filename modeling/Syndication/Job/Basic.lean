import Syndication.Job.Status
import Syndication.Json.Reader
import Syndication.Json.Writer
import Syndication.Post
import Syndication.Report
import Syndication.Word

/-!
# Job.Basic — delivery jobs and their records

A post becomes one job per target. The job travels on the delivery queue as a JSON document; its
record stays in the job table and tells how far the job has come. A record keeps the instant of a
scheduled post in whole seconds.

## Contents
* `Job`, `Job.payload`, `Job.ofPayload?` — the job and the document that carries it
* `JobRecord`, `JobRecord.queued`        — the record of a job
* `TargetOutcome`, `Receipt`             — what a submission answers
-/

namespace Syndication

/-! ## Jobs -/

/-- The delivery of one post to one target. -/
structure Job where
  rootId : String
  jobId : String
  userId : String
  target : String
  postAt : Option Instant := none
  status : JobStatus
  media : List String := []
  deriving DecidableEq, Repr, Inhabited

namespace Job

def toJson (j : Job) : Json :=
  .record ([("rootPostId", .text j.rootId), ("postId", .text j.jobId), ("user", .text j.userId),
    ("targetPlatformServiceId", .text j.target)] ++ Json.member? "postAt" Instant.toJson j.postAt ++
    [("status", .int j.status.code), ("media", .texts j.media)])

/-- A status written as its code. -/
def statusOfJson? (j : Json) : Option JobStatus :=
  (j.asNatBelow? 256).bind JobStatus.ofCode?

def ofJson? (j : Json) : Option Job := do
  let m ← Json.Members.of? [["rootPostId"], ["postId"], ["user"], ["targetPlatformServiceId"],
    ["postAt"], ["status"], ["media"]] j
  return {
    rootId := ← m.required 0 Json.asText?
    jobId := ← m.required 1 Json.asText?
    userId := ← m.required 2 Json.asText?
    target := ← m.required 3 Json.asText?
    postAt := ← m.optional 4 Instant.ofJson?
    status := ← m.required 5 statusOfJson?
    media := ← m.withDefault 6 (·.asList? Json.asText?) [] }

/-- The document that carries a job on the delivery queue. -/
def payload (j : Job) : String := j.toJson.compact

/-- The job that a document carries. -/
def ofPayload? (s : String) : Option Job := (Json.ofText? s).bind ofJson?

end Job

/-! ## Records -/

/-- How far a job has come. Times are Unix seconds. -/
structure JobRecord where
  jobId : String
  rootId : String
  userId : String
  target : String
  postAt : Option Int
  status : JobStatus
  attempts : Nat
  lastError : Option String
  failedParts : List PartFailure
  platformPostId : Option String
  leaseUntil : Option Int
  createdAt : Int
  updatedAt : Int
  deriving DecidableEq, Repr, Inhabited

namespace JobRecord

/-- The record of a job that has just been queued. -/
def queued (j : Job) (now : Int) : JobRecord where
  jobId := j.jobId
  rootId := j.rootId
  userId := j.userId
  target := j.target
  postAt := j.postAt.map Instant.seconds
  status := .queued
  attempts := 0
  lastError := none
  failedParts := []
  platformPostId := none
  leaseUntil := none
  createdAt := now
  updatedAt := now

/-- Attempts are shown in 32 bits. -/
def shownAttempts (r : JobRecord) : Nat := r.attempts % Word.range32

def toJson (r : JobRecord) : Json :=
  .record [("jobId", .text r.jobId), ("rootPostId", .text r.rootId), ("userId", .text r.userId),
    ("targetPlatformId", .text r.target), ("postAt", .orNull .int r.postAt),
    ("status", .int r.status.code), ("attempts", .int r.shownAttempts),
    ("lastError", .orNull .text r.lastError),
    ("failedParts", .array (r.failedParts.map PartFailure.toJson)),
    ("platformPostId", .orNull .text r.platformPostId), ("leaseUntil", .orNull .int r.leaseUntil),
    ("createdAt", .int r.createdAt), ("updatedAt", .int r.updatedAt)]

end JobRecord

/-! ## Receipts -/

/-- What became of one target of a submission. -/
structure TargetOutcome where
  target : String
  jobId : String
  enqueued : Bool
  error : Option String := none
  deriving DecidableEq, Repr

namespace TargetOutcome

def toJson (o : TargetOutcome) : Json :=
  .record ([("targetPlatformId", .text o.target), ("jobId", .text o.jobId),
    ("enqueued", .bool o.enqueued)] ++ Json.member? "error" .text o.error)

def ofJson? (j : Json) : Option TargetOutcome := do
  let m ← Json.Members.of? [["targetPlatformId"], ["jobId"], ["enqueued"], ["error"]] j
  return {
    target := ← m.required 0 Json.asText?
    jobId := ← m.required 1 Json.asText?
    enqueued := ← m.required 2 Json.asBool?
    error := ← m.optional 3 Json.asText? }

end TargetOutcome

/-- What a submission answers: the identifier of the post and the outcome for every target. -/
structure Receipt where
  rootId : String
  jobs : List TargetOutcome
  deriving DecidableEq, Repr

namespace Receipt

/-- How many jobs were enqueued. -/
def enqueuedCount (r : Receipt) : Nat := r.jobs.countP (·.enqueued)

def toJson (r : Receipt) : Json :=
  .record [("rootPostId", .text r.rootId), ("jobs", .array (r.jobs.map TargetOutcome.toJson))]

def ofJson? (j : Json) : Option Receipt := do
  let m ← Json.Members.of? [["rootPostId"], ["jobs"]] j
  return {
    rootId := ← m.required 0 Json.asText?
    jobs := ← m.required 1 (·.asList? TargetOutcome.ofJson?) }

end Receipt
end Syndication
