import Syndication.Json.Time
import Syndication.Service

/-!
# Worker — from a queue message to a delivery

A worker takes messages and makes deliveries of them. The queue may show a message again, so a
message is first compared with the record of its job: a job that has ended is not delivered again.
A job is delivered only by the worker that has taken it, when it is due and its target has budget
left. A failure that may pass sends the job back to wait; any other answer ends it. The message goes
away when the job has ended, after the lock of its target.

## Contents
* `leaseDeadline`, `Outcome`
* `finish`, `retryLater`         — how an attempt ends
* `attempt`, `take`, `handle`    — one message
* `handleAll`, `runOnce`         — one batch
-/

namespace Syndication.Worker

/-- The end of a lease in whole seconds, rounded up so that it does not end early. -/
def leaseDeadline (nowMillis : Int) (visibility : Span) : Int :=
  let last := laterBy nowMillis visibility
  last.fdiv 1000 + (if last.fmod 1000 = 0 then 0 else 1)

/-- What became of a message. -/
inductive Outcome where
  /-- There is nothing to deliver. -/
  | dropped (reason : String)
  /-- The job had ended before. -/
  | alreadyFinished (status : JobStatus)
  /-- It is too early, or the budget is spent. -/
  | deferred (delay : Span)
  /-- Another worker has taken the job. -/
  | busy
  /-- The attempt failed and will be repeated. -/
  | retrying (delay : Span)
  /-- The job has ended. -/
  | finished (status : JobStatus)
  deriving DecidableEq, Repr

/-- An outcome under its name, with what belongs to it. -/
def Outcome.toJson : Outcome → Json
  | .dropped reason => .record [("outcome", .text "dropped"), ("reason", .text reason)]
  | .alreadyFinished s => .record [("outcome", .text "alreadyFinished"), ("status", .text s.name)]
  | .deferred d => .record [("outcome", .text "deferred"), ("delay", d.toJson)]
  | .busy => .record [("outcome", .text "busy")]
  | .retrying d => .record [("outcome", .text "retrying"), ("delay", d.toJson)]
  | .finished s => .record [("outcome", .text "finished"), ("status", .text s.name)]

/-! ## How an attempt ends -/

/-- Removes the lock of the target that the message names. -/
def releaseLock (job : Job) : Effect Service Unit := do
  let _ ← Service.onStore (Staging.removeLock job.rootId job.target)

/-- Ends a job: first the record, then the lock, then the message. -/
def finish (m : Held) (job : Job) (completion : Completion) : Effect Service Outcome := do
  let now := (← get).nowSecs
  let _ ← Service.changeJobs (·.finish job.jobId completion now)
  releaseLock job
  let _ ← Service.acknowledge m
  return .finished completion.status

/-- Sends a job back to wait for the next attempt. -/
def retryLater (m : Held) (job : Job) (cause : Error) : Effect Service Outcome := do
  let s ← get
  let delay := s.settings.retry.interval m.dequeueCount
  let _ ← Service.changeJobs (·.release job.jobId cause.message s.nowSecs)
  let _ ← Service.defer m delay true
  return .retrying delay

/-- Puts off a message without counting the attempt. -/
def putOff (m : Held) (secs : Int) : Effect Service Outcome := do
  let delay := Span.ofSecs secs.toNat
  let _ ← Service.defer m delay false
  return .deferred delay

/-! ## One message -/

/-- Calls a platform, which is from then on as the call leaves it. -/
def callPlatform (p : Platform) (d : Delivery) : Effect Service DeliveryResult :=
  .ofFun fun s =>
    let (result, p, w) := p.deliver d s.settings.deliveryTimeout s.sessionWorld
    (.ok result, { s.withSessionWorld w with platforms := s.platforms.register p })

/-- Delivers a job to a platform and ends the attempt. -/
def deliver (m : Held) (job : Job) (content : PostContent) (p : Platform) :
    Effect Service Outcome := do
  let s ← get
  -- the call is counted before it is made, whatever comes of it
  let _ ← Service.changeWindows fun t => ((), t.record s.config.rateLimits job.target s.nowSecs)
  match ← callPlatform p ⟨{ job with status := .posting }, content, m.dequeueCount⟩ with
  | .report report => finish m job (.ofReport report)
  | .timedOut =>
    finish m job (.faulted
      ("delivery timed out after " ++ toString s.settings.deliveryTimeout.millis ++ " ms"))
  | .failed e =>
    if e.isTransient ∧ m.dequeueCount < s.settings.maxAttempts then retryLater m job e
    else finish m job (.faulted e.message)

/-- Attempts a job that this worker has taken. -/
def attempt (m : Held) (job : Job) : Effect Service Outcome := do
  if (← get).settings.maxAttempts < m.dequeueCount then
    finish m job (.faulted "retries exhausted")
  else match ← Service.onStore (Staging.load job.rootId) with
    | none => finish m job (.faulted "content bundle missing")
    | some content =>
      match (← get).platforms.get? job.target with
      | none =>
        finish m job (.faulted ("no delivery platform for target '" ++ job.target ++ "'"))
      | some p => deliver m job content p

/-- Takes a job that has not ended, if it is due, within the budget and free. -/
def take (m : Held) (job : Job) (record : JobRecord) : Effect Service Outcome := do
  let s ← get
  let now := s.nowSecs
  match record.postAt.filter (now < ·) with
  | some at' => putOff m (at' - now)
  | none =>
    -- asked before the job is taken, so that a deferral leaves the record alone
    if !s.windows.check s.config.rateLimits job.target now then
      putOff m (max (nextWindowStart now - now) 1)
    else
      let lease := leaseDeadline s.now s.settings.visibilityTimeout
      if ← Service.changeJobs (·.claim job.jobId now lease) then attempt m job
      else return .busy

/-- Handles a message of the delivery queue. -/
def handle (m : Held) : Effect Service Outcome := do
  match Job.ofPayload? m.payload with
  | none =>
    let _ ← Service.acknowledge m
    return .dropped "invalid payload: not a job"
  | some job =>
    match (← get).jobs.get? job.jobId with
    | none =>
      let _ ← Service.acknowledge m
      return .dropped ("job " ++ job.jobId ++ " not found")
    | some record =>
      -- who ended the job was stopped before its message was gone
      if record.status.isTerminal then
        releaseLock job
        let _ ← Service.acknowledge m
        return .alreadyFinished record.status
      else take m job record

/-! ## One batch -/

/-- Handles messages one after the other; a failure leaves its message to be shown again. -/
def handleAll : List Held → Effect Service (List (Except Error Outcome))
  | [] => pure []
  | m :: rest => do
    let outcome ← (handle m).settle
    let others ← handleAll rest
    return outcome :: others

/-- Takes a batch from the delivery queue, handles it, and answers how many messages it had. -/
def runOnce : Effect Service Nat := do
  let s ← get
  let batch ← Service.dequeue MessageTable.deliveryQueue s.settings.batchSize
    s.settings.visibilityTimeout
  let _ ← handleAll batch
  return batch.length

end Syndication.Worker
