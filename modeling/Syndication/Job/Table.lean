import Syndication.Effect
import Syndication.Job.Basic
import Syndication.Word

/-!
# Job.Table — the records of all jobs

A record is written when its job is queued and never removed. Its status moves only where a guard
lets it: a job is claimed while it waits or its lease has run out, released while it is being posted,
and finished while it has not ended. Each move says whether it was made.

## Contents
* `JobTable`, `get?`, `insert`
* `JobRecord.isClaimable`, `claim`, `release`, `finish` — the moves
* `Completion`                                          — how a job ended
* `list`, `ofRoot`                                      — records for people
-/

namespace Syndication

/-- How a job ended. -/
structure Completion where
  status : JobStatus
  platformPostId : Option String := none
  failedParts : List PartFailure := []
  lastError : Option String := none
  deriving DecidableEq, Repr

namespace Completion

/-- The job failed for good. -/
def faulted (error : String) : Completion := { status := .faulted, lastError := some error }

/-- The platform took the delivery. -/
def ofReport (r : DeliveryReport) : Completion :=
  { status := r.status, platformPostId := r.platformPostId, failedParts := r.failedParts }

end Completion

namespace JobRecord

/-- A worker may take the job: it waits, or the lease of the worker that took it has run out. -/
def isClaimable (r : JobRecord) (now : Int) : Bool :=
  match r.status with
  | .queued => true
  | .posting => match r.leaseUntil with
    | some lease => lease ≤ now
    | none => true
  | _ => false

/-- The record of a job that a worker has taken. -/
def claimed (r : JobRecord) (now leaseUntil : Int) : JobRecord :=
  { r with status := .posting, attempts := r.attempts + 1, leaseUntil := some leaseUntil,
           updatedAt := now }

/-- The record of a job that waits again after a transient failure. -/
def released (r : JobRecord) (error : String) (now : Int) : JobRecord :=
  { r with status := .queued, lastError := some error, leaseUntil := none, updatedAt := now }

/-- The record of a job that has ended. -/
def finished (r : JobRecord) (c : Completion) (now : Int) : JobRecord :=
  { r with status := c.status, platformPostId := c.platformPostId, failedParts := c.failedParts,
           lastError := c.lastError, leaseUntil := none, updatedAt := now }

end JobRecord

/-- The records of all jobs, in the order in which they were written. -/
structure JobTable where
  records : List JobRecord := []
  deriving Repr, Inhabited

namespace JobTable

/-- The record of a job. -/
def get? (t : JobTable) (jobId : String) : Option JobRecord := t.records.find? (·.jobId = jobId)

/-- A new record; its identifier must be new. -/
def insert (r : JobRecord) : Effect JobTable Unit := .ofFun fun t =>
  if t.records.any (·.jobId = r.jobId) then
    (.error (.database (.operation "a job with this id exists")), t)
  else (.ok (), ⟨t.records ++ [r]⟩)

/-- The record of a job changed where it may be, and whether it was. -/
def move (t : JobTable) (jobId : String) (may : JobRecord → Bool) (change : JobRecord → JobRecord) :
    Bool × JobTable :=
  (t.records.any fun r => decide (r.jobId = jobId) && may r,
    ⟨t.records.map fun r => if r.jobId = jobId ∧ may r then change r else r⟩)

/-- Takes a job until `leaseUntil`. -/
def claim (t : JobTable) (jobId : String) (now leaseUntil : Int) : Bool × JobTable :=
  t.move jobId (·.isClaimable now) (·.claimed now leaseUntil)

/-- Gives a job back after a transient failure. -/
def release (t : JobTable) (jobId error : String) (now : Int) : Bool × JobTable :=
  t.move jobId (·.status == .posting) (·.released error now)

/-- Ends a job that has not ended. -/
def finish (t : JobTable) (jobId : String) (c : Completion) (now : Int) : Bool × JobTable :=
  t.move jobId (!·.status.isTerminal) (·.finished c now)

/-! ## For people -/

/-- Newer records first; of the same second, by identifier. -/
def isBefore (a b : JobRecord) : Bool :=
  if a.createdAt = b.createdAt then a.jobId ≤ b.jobId else b.createdAt ≤ a.createdAt

/-- A bound on the number of rows; bounds of `2^63` and more do not bound. -/
def rowLimit {α : Type} (limit : Nat) (rows : List α) : List α :=
  if limit < Word.range63 then rows.take limit else rows

/-- The newest records, of one user and with one status if these are given. -/
def list (t : JobTable) (user : Option String) (status : Option JobStatus) (limit : Nat) :
    List JobRecord :=
  let wanted := t.records.filter fun r =>
    (match user with | some u => decide (r.userId = u) | none => true) &&
      (match status with | some s => decide (r.status = s) | none => true)
  rowLimit limit (wanted.mergeSort isBefore)

/-- The records of one post, by target. -/
def ofRoot (t : JobTable) (rootId : String) : List JobRecord :=
  (t.records.filter (·.rootId = rootId)).mergeSort fun a b => a.target ≤ b.target

end JobTable
end Syndication
