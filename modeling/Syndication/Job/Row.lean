import Syndication.Job.Basic

/-!
# Job.Row — records as the database keeps them

A row has a cell for every part of a record, and a cell holds a text, a whole number or nothing. A status
is kept as its code. The parts that failed have one cell between them, which holds them as a JSON document,
or nothing if no part failed.

## Contents
* `JobRow`, `encodeParts`, `JobRecord.row`  — the row of a record
* `status?`, `failures?`, `JobRow.record?`  — the record of a row
-/

namespace Syndication

/-- A row of the table of jobs. -/
structure JobRow where
  jobId : String
  rootId : String
  userId : String
  target : String
  postAt : Option Int
  status : Int
  attempts : Int
  lastError : Option String
  failedParts : Option String
  platformPostId : Option String
  leaseUntil : Option Int
  createdAt : Int
  updatedAt : Int
  deriving DecidableEq, Repr

/-- What is kept of the parts that failed. -/
def encodeParts (parts : List PartFailure) : Option String :=
  if parts.isEmpty then none else some (Json.array (parts.map PartFailure.toJson)).compact

/-- The row of a record. -/
def JobRecord.row (r : JobRecord) : JobRow where
  jobId := r.jobId
  rootId := r.rootId
  userId := r.userId
  target := r.target
  postAt := r.postAt
  status := r.status.code
  attempts := r.attempts
  lastError := r.lastError
  failedParts := encodeParts r.failedParts
  platformPostId := r.platformPostId
  leaseUntil := r.leaseUntil
  createdAt := r.createdAt
  updatedAt := r.updatedAt

namespace JobRow

/-- The status of a row. A code is an octet. -/
def status? (row : JobRow) : Option JobStatus :=
  if 0 ≤ row.status ∧ row.status < 256 then JobStatus.ofCode? row.status.toNat else none

/-- The failed parts of a row. -/
def failures? (row : JobRow) : Option (List PartFailure) :=
  match row.failedParts with
  | some document => (Json.ofText? document).bind (·.asList? PartFailure.ofJson?)
  | none => some []

/-- The record of a row. A number of attempts below zero is read as none, and a large one whole: it is
when they are shown that attempts are cut to 32 bits. -/
def record? (row : JobRow) : Option JobRecord := do
  return {
    jobId := row.jobId
    rootId := row.rootId
    userId := row.userId
    target := row.target
    postAt := row.postAt
    status := ← row.status?
    attempts := row.attempts.toNat
    lastError := row.lastError
    failedParts := ← row.failures?
    platformPostId := row.platformPostId
    leaseUntil := row.leaseUntil
    createdAt := row.createdAt
    updatedAt := row.updatedAt }

end JobRow
end Syndication
