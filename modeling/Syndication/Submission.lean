import Syndication.Service

/-!
# Submission — one post becomes one job per target

A request is first checked, and nothing happens unless it passes. Then the bundle of the post is
locked for every target and its content is staged: the locks come first, so that a sweep in between
finds no bundle without a lock. Then every target gets a job record and a message. A target whose
message is not taken is given up: its job has failed and its lock is removed. The others go on.

## Contents
* `validate`, `visibilityDelay`
* `stageAll`, `releaseLocks`        — the bundle
* `queueJob`, `abandon`             — one target
* `fanOut`, `submitForUser`, `submit`
-/

namespace Syndication.Submission

/-! ## Checks -/

/-- Targets after those in `seen`: each an identifier that is path-safe and new. -/
def checkTargets (seen : List String) : List String → Except Error Unit
  | [] => .ok ()
  | target :: rest =>
    if !isPathSafe target then
      .error (.invalidInput ("invalid target platform id '" ++ target ++ "'"))
    else if target ∈ seen then
      .error (.invalidInput ("duplicate target platform id '" ++ target ++ "'"))
    else checkTargets (target :: seen) rest

/-- A post needs targets that can be told apart, and content. -/
def validate (targets : List String) (content : PostContent) : Except Error Unit :=
  if targets.isEmpty then .error (.invalidInput "at least one target platform is required")
  else match checkTargets [] targets with
    | .error e => .error e
    | .ok () => if content.isEmpty then .error (.invalidInput "post has no content") else .ok ()

/-- How long a job stays hidden: until the instant of the post, or not at all. -/
def visibilityDelay (postAt : Option Instant) (now : Instant) : Span :=
  match postAt with
  | some at' => at'.spanSince now
  | none => Span.zero

/-! ## The bundle -/

/-- Locks the bundle for the target of every job. -/
def lockAll : List Job → Effect Service Unit
  | [] => pure ()
  | job :: rest => do
    Service.onStore (Staging.createLock job.rootId job.target job.jobId)
    lockAll rest

/-- Locks the bundle, then stages the content. -/
def stageAll (rootId : String) (jobs : List Job) (content : PostContent) : Effect Service Unit := do
  lockAll jobs
  Service.onStore (Staging.stage rootId content)

/-- Removes the lock of every job as far as that is possible. -/
def releaseLocks : List Job → Effect Service Unit
  | [] => pure ()
  | job :: rest => do
    let _ ← (Service.onStore (Staging.removeLock job.rootId job.target)).settle
    releaseLocks rest

/-! ## One target -/

/-- The job of a target. -/
def jobFor (rootId userId jobId target : String) (content : PostContent)
    (postAt : Option Instant) : Job where
  rootId := rootId
  jobId := jobId
  userId := userId
  target := target
  postAt := postAt
  status := .queued
  media := content.media

/-- A job with a fresh identifier for every target. -/
def drawJobs (rootId userId : String) (content : PostContent) (postAt : Option Instant) :
    List String → Effect Service (List Job)
  | [] => pure []
  | target :: rest => do
    let jobId ← Service.drawId
    let others ← drawJobs rootId userId content postAt rest
    return jobFor rootId userId jobId target content postAt :: others

/-- Writes the record of a job, then its message. -/
def enqueueJob (job : Job) (delay : Span) : Effect Service Unit := do
  Service.onJobs (JobTable.insert (JobRecord.queued job (← get).nowSecs))
  let _ ← Service.enqueue MessageTable.deliveryQueue job.payload delay

/-- Gives up a job whose message was not taken: it has failed, and its lock goes as far as that is
possible. -/
def abandon (job : Job) (cause : Error) : Effect Service Unit := do
  let now := (← get).nowSecs
  let completion := Completion.faulted ("enqueue failed: " ++ cause.message)
  let _ ← Service.changeJobs (·.finish job.jobId completion now)
  let _ ← (Service.onStore (Staging.removeLock job.rootId job.target)).settle

/-- Queues a job, or gives it up. -/
def queueJob (delay : Span) (job : Job) : Effect Service TargetOutcome := do
  match ← (enqueueJob job delay).settle with
  | .ok () => return { target := job.target, jobId := job.jobId, enqueued := true }
  | .error e =>
    abandon job e
    return { target := job.target, jobId := job.jobId, enqueued := false, error := some e.message }

/-- Queues jobs one after the other. -/
def queueJobs (delay : Span) : List Job → Effect Service (List TargetOutcome)
  | [] => pure []
  | job :: rest => do
    let outcome ← queueJob delay job
    let others ← queueJobs delay rest
    return outcome :: others

/-! ## Submissions -/

/-- Makes a bundle and jobs of a checked post. It fails if the bundle cannot be made or no job can be
queued. -/
def fanOut (userId : String) (targets : List String) (content : PostContent)
    (postAt : Option Instant) : Effect Service Receipt := do
  let rootId ← Service.drawId
  let jobs ← drawJobs rootId userId content postAt targets
  match ← (stageAll rootId jobs content).settle with
  | .error e =>
    -- content that was staged already is left to maintenance
    releaseLocks jobs
    throw e
  | .ok () =>
    let delay := visibilityDelay postAt (← get).nowInstant
    let receipt : Receipt := ⟨rootId, ← queueJobs delay jobs⟩
    if receipt.enqueuedCount = 0 then
      throw (.queue ("no delivery job could be enqueued for post " ++ rootId))
    else return receipt

/-- Submits a post for a user who is known. -/
def submitForUser (userId : String) (targets : List String) (content : PostContent)
    (postAt : Option Instant) : Effect Service Receipt := do
  match validate targets content with
  | .error e => throw e
  | .ok () =>
    if userId.isEmpty then throw (.invalidInput "user id is required")
    else fanOut userId targets content postAt

/-- Submits a post for who holds the credential of the request. -/
def submit (request : PostRequest) : Effect Service Receipt := do
  match (← get).keys.authenticate request.credential with
  | .error e => throw e
  | .ok () =>
    match validate request.targets request.content with
    | .error e => throw e
    | .ok () => fanOut request.credential.userId request.targets request.content request.postAt

end Syndication.Submission
