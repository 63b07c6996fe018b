import Syndication.Text.Ascii

/-!
# Job.Status — how far a job has come

A job waits, is being posted, or has ended in one of three ways. Each status has a name for people
and a code for records.

## Contents
* `JobStatus`, `isTerminal`
* `code`, `ofCode?`, `name`, `ofName?`
-/

namespace Syndication

/-- How far a job has come. -/
inductive JobStatus where
  | queued
  | posting
  | posted
  | faulted
  | someFaults
  deriving DecidableEq, Repr, Inhabited

namespace JobStatus

/-- The job has ended. -/
def isTerminal : JobStatus → Bool
  | .queued | .posting => false
  | .posted | .faulted | .someFaults => true

/-- The code of a status in records. -/
def code : JobStatus → Nat
  | .queued => 0
  | .posting => 1
  | .posted => 2
  | .faulted => 3
  | .someFaults => 4

/-- The status that a code stands for. -/
def ofCode? : Nat → Option JobStatus
  | 0 => some .queued
  | 1 => some .posting
  | 2 => some .posted
  | 3 => some .faulted
  | 4 => some .someFaults
  | _ => none

@[simp] theorem ofCode?_code (s : JobStatus) : ofCode? s.code = some s := by cases s <;> rfl

/-- The name of a status. -/
def name : JobStatus → String
  | .queued => "queued"
  | .posting => "posting"
  | .posted => "posted"
  | .faulted => "faulted"
  | .someFaults => "some_faults"

/-- Why a code stands for no status. -/
def unknownCode (code : Nat) : String := "unknown job status code " ++ toString code

/-- Why a name stands for no status. -/
def unknownName (lowered : String) : String :=
  "unknown job status '" ++ lowered ++ "' (expected queued, posting, posted, faulted or some_faults)"

/-- The status of a name in any letter case; the two words of the last one may be run together. -/
def ofName? (s : String) : Except String JobStatus :=
  let lowered := Text.lower s
  if lowered = "queued" then .ok .queued
  else if lowered = "posting" then .ok .posting
  else if lowered = "posted" then .ok .posted
  else if lowered = "faulted" then .ok .faulted
  else if lowered = "some_faults" ∨ lowered = "somefaults" then .ok .someFaults
  else .error (unknownName lowered)

end JobStatus
end Syndication
