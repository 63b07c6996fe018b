import Syndication.Proofs.Job.Table
import Syndication.Proofs.Service
import Syndication.Proofs.Staging.Bundle
import Syndication.Worker

/-!
# Proofs.Worker.Course — the course that a message takes

What a worker does with a message is decided by the state that it finds: by the payload, the record of
the job, the clock, the budget, the content and the platforms. Here the decision stands apart from
what is done about it. A platform is called on one course only, and exactly when that course is
taken.

## Contents
* `Course`, `courseOf`          — the decision
* `courseOf_eq_call_iff`        — when a platform is called
* `Course.takes?`, `claim_of_takes` — the job that is taken
* `taken`, `called`, `ending`   — what is done before an attempt ends
* `follow`, `exec_handle`       — handling a message is following its course
-/

namespace Syndication.Worker

/-- What a worker does with a message. -/
inductive Course where
  /-- The message has no job, or one without a record: it is deleted. -/
  | drop (reason : String)
  /-- The job has ended: its lock and the message are removed. -/
  | clear (job : Job) (status : JobStatus)
  /-- It is too early, or the budget is spent: the message is put off for so many seconds. -/
  | wait (secs : Int)
  /-- Another worker has the job. -/
  | leave
  /-- The job is taken and ends without a call. -/
  | giveUp (job : Job) (reason : String)
  /-- The job is taken, and its content cannot be read. -/
  | stall (job : Job) (cause : Error)
  /-- The job is taken, and the platform is called. -/
  | call (job : Job) (content : PostContent) (p : Platform)

/-- The end of a lease that is taken now. -/
def leaseNow (s : Service) : Int := leaseDeadline s.now s.settings.visibilityTimeout

/-- The course of a job that has been taken. -/
def courseOfTaken (m : Held) (s : Service) (job : Job) : Course :=
  if s.settings.maxAttempts < m.dequeueCount then .giveUp job "retries exhausted"
  else match ((Staging.load job.rootId).exec s.store).1 with
    | .error e => .stall job e
    | .ok none => .giveUp job "content bundle missing"
    | .ok (some content) =>
      match s.platforms.get? job.target with
      | none => .giveUp job ("no delivery platform for target '" ++ job.target ++ "'")
      | some p => .call job content p

/-- The course of a job that has not ended. -/
def courseOfOpen (m : Held) (s : Service) (job : Job) (record : JobRecord) : Course :=
  match record.postAt.filter (s.nowSecs < ·) with
  | some at' => .wait (at' - s.nowSecs)
  | none =>
    if !s.windows.check s.config.rateLimits job.target s.nowSecs then
      .wait (max (nextWindowStart s.nowSecs - s.nowSecs) 1)
    else if (s.jobs.claim job.jobId s.nowSecs (leaseNow s)).1 then courseOfTaken m s job
    else .leave

/-- The course of a message. -/
def courseOf (m : Held) (s : Service) : Course :=
  match Job.ofPayload? m.payload with
  | none => .drop "invalid payload: not a job"
  | some job =>
    match s.jobs.get? job.jobId with
    | none => .drop ("job " ++ job.jobId ++ " not found")
    | some record =>
      if record.status.isTerminal then .clear job record.status else courseOfOpen m s job record

/-- The service after a job was taken. -/
def taken (s : Service) (jobId : String) : Service :=
  { s with jobs := (s.jobs.claim jobId s.nowSecs (leaseNow s)).2 }

/-- **When a platform is called**: for a job that waits and is due, within the budget and the attempts,
if the content and the platform are there. -/
theorem courseOf_eq_call_iff {m : Held} {s : Service} {job : Job} {content : PostContent}
    {p : Platform} :
    courseOf m s = .call job content p ↔ Job.ofPayload? m.payload = some job ∧
      (∃ r, s.jobs.get? job.jobId = some r ∧ r.status.isTerminal = false ∧
        r.postAt.filter (s.nowSecs < ·) = none) ∧
      s.windows.check s.config.rateLimits job.target s.nowSecs = true ∧
      (s.jobs.claim job.jobId s.nowSecs (leaseNow s)).1 = true ∧
      m.dequeueCount ≤ s.settings.maxAttempts ∧
      ((Staging.load job.rootId).exec s.store).1 = .ok (some content) ∧
      s.platforms.get? job.target = some p := by
  constructor
  · intro h
    -- at each turn where the course could have been another one, a condition is left over
    unfold courseOf at h
    split at h
    · cases h
    rename_i job' hpayload
    split at h
    · cases h
    rename_i r hr
    split at h
    · cases h
    rename_i hopen
    unfold courseOfOpen at h
    split at h
    · cases h
    rename_i hdue
    split at h
    · cases h
    rename_i hbudget
    split at h
    case isFalse => cases h
    rename_i hclaim
    unfold courseOfTaken at h
    split at h
    · cases h
    rename_i hattempts
    split at h
    · cases h
    · cases h
    rename_i content' hload
    split at h
    · cases h
    rename_i p' hp
    cases h
    exact ⟨hpayload, ⟨r, hr, by simpa using hopen, hdue⟩, by simpa using hbudget, hclaim,
      Nat.le_of_not_lt hattempts, hload, hp⟩
  · rintro ⟨hpayload, ⟨r, hr, hopen, hdue⟩, hbudget, hclaim, hattempts, hload, hp⟩
    simp [courseOf, courseOfOpen, courseOfTaken, hpayload, hr, hopen, hdue, hbudget, hclaim,
      Nat.not_lt.mpr hattempts, hload, hp]

/-! ## Taking a job -/

/-- The job that is taken on a course, if one is. -/
def Course.takes? : Course → Option Job
  | .giveUp job _ | .stall job _ | .call job _ _ => some job
  | .drop _ | .clear _ _ | .wait _ | .leave => none

theorem takes?_courseOfTaken (m : Held) (s : Service) (job : Job) :
    (courseOfTaken m s job).takes? = some job := by
  unfold courseOfTaken
  split
  · rfl
  split
  · rfl
  · rfl
  split <;> rfl

/-- **A job is taken** by a claim that succeeds. -/
theorem claim_of_takes {m : Held} {s : Service} {job : Job} (h : (courseOf m s).takes? = some job) :
    (s.jobs.claim job.jobId s.nowSecs (leaseNow s)).1 = true := by
  unfold courseOf at h
  split at h
  · cases h
  split at h
  · cases h
  split at h
  · cases h
  unfold courseOfOpen at h
  split at h
  · cases h
  split at h
  · cases h
  split at h
  case isFalse => cases h
  rename_i hclaim
  rw [takes?_courseOfTaken] at h
  rwa [← Option.some.inj h]

/-! ## Calls -/

/-- What the platform is handed. -/
def deliveryOf (m : Held) (job : Job) (content : PostContent) : Delivery :=
  ⟨{ job with status := .posting }, content, m.dequeueCount⟩

/-- The answer of the platform, and what the call leaves of the platform and the sessions. -/
def callOf (m : Held) (s : Service) (job : Job) (content : PostContent) (p : Platform) :
    DeliveryResult × Platform × SessionWorld :=
  p.deliver (deliveryOf m job content) s.settings.deliveryTimeout s.sessionWorld

/-- The service after a call, which counts in the budget of the target. -/
def called (m : Held) (s : Service) (job : Job) (content : PostContent) (p : Platform) : Service :=
  { s.withSessionWorld (callOf m s job content p).2.2 with
    platforms := s.platforms.register (callOf m s job content p).2.1
    windows := s.windows.record s.config.rateLimits job.target s.nowSecs }

/-- How an attempt ends after a call: with a completion, or with a failure that lets the job be tried
again. -/
def ending (m : Held) (s : Service) : DeliveryResult → Except Error Completion
  | .report report => .ok (.ofReport report)
  | .timedOut =>
    .ok (.faulted
      ("delivery timed out after " ++ toString s.settings.deliveryTimeout.millis ++ " ms"))
  | .failed e =>
    if e.isTransient ∧ m.dequeueCount < s.settings.maxAttempts then .error e
    else .ok (.faulted e.message)

/-- The end of an attempt. -/
def endAttempt (m : Held) (job : Job) : Except Error Completion → Effect Service Outcome
  | .ok completion => finish m job completion
  | .error cause => retryLater m job cause

/-! ## Following a course -/

/-- Clears away the message of a job that has ended. -/
def clearAway (m : Held) (job : Job) (status : JobStatus) : Effect Service Outcome := do
  releaseLock job
  let _ ← Service.acknowledge m
  return .alreadyFinished status

/-- What is done with a message on a course. -/
def follow (m : Held) (s : Service) : Course → Except Error Outcome × Service
  | .drop reason => (.ok (.dropped reason), { s with messages := (s.messages.acknowledge m).2 })
  | .clear job status => (clearAway m job status).exec s
  | .wait secs => (putOff m secs).exec s
  | .leave => (.ok .busy, s)
  | .giveUp job reason => (finish m job (.faulted reason)).exec (taken s job.jobId)
  | .stall job cause => (.error cause, taken s job.jobId)
  | .call job content p =>
    (endAttempt m job (ending m s (callOf m (taken s job.jobId) job content p).1)).exec
      (called m (taken s job.jobId) job content p)

variable {m : Held} {s : Service} {job : Job}

/-- A delivery is a call and the end of the attempt. -/
theorem exec_deliver (m : Held) (job : Job) (content : PostContent) (p : Platform) (s : Service) :
    (deliver m job content p).exec s =
      (endAttempt m job (ending m s (callOf m s job content p).1)).exec
        (called m s job content p) := by
  have hcall : (callPlatform p (deliveryOf m job content)).exec
      { s with windows := s.windows.record s.config.rateLimits job.target s.nowSecs } =
      (.ok (callOf m s job content p).1, called m s job content p) := rfl
  rw [deliver, Effect.exec_bind_ok (Effect.exec_get s),
    Effect.exec_bind_ok (Service.exec_changeWindows s _)]
  refine (Effect.exec_bind_ok hcall).trans ?_
  cases (callOf m s job content p).1 with
  | report report => rfl
  | timedOut => rfl
  | failed e =>
    simp only [ending]
    split <;> rfl

/-- An attempt of a job that has been taken. -/
theorem exec_attempt : (attempt m job).exec (taken s job.jobId) = follow m s (courseOfTaken m s job) := by
  have hload : (Service.onStore (Staging.load job.rootId)).exec (taken s job.jobId) =
      (((Staging.load job.rootId).exec s.store).1, taken s job.jobId) := by
    rw [Service.exec_onStore]
    exact congrArg (fun st => (_, { taken s job.jobId with store := st }))
      (Staging.readOnly_load job.rootId s.store)
  rw [attempt, Effect.exec_bind_ok (Effect.exec_get _), courseOfTaken]
  by_cases hspent : s.settings.maxAttempts < m.dequeueCount
  · rw [if_pos hspent]
    exact congrArg (Effect.exec · _) (if_pos hspent)
  rw [if_neg hspent]
  refine (congrArg (Effect.exec · _) (if_neg hspent)).trans ?_
  rw [Effect.exec_bind, hload]
  rcases ((Staging.load job.rootId).exec s.store).1 with e | _ | content
  · rfl
  · rfl
  · simp only [Effect.exec_bind_ok (Effect.exec_get _)]
    change Effect.exec (match s.platforms.get? job.target with | none => _ | some p => _) _ = _
    cases s.platforms.get? job.target with
    | none => rfl
    | some p => exact exec_deliver m job content p _

/-- The taking of a job that has not ended. -/
theorem exec_take (record : JobRecord) :
    (take m job record).exec s = follow m s (courseOfOpen m s job record) := by
  rw [take, Effect.exec_bind_ok (Effect.exec_get s), courseOfOpen]
  simp only
  cases record.postAt.filter (fun at' => decide (s.nowSecs < at')) with
  | some at' => rfl
  | none =>
    simp only
    split
    · rfl
    refine (Effect.exec_bind_ok
      (Service.exec_changeJobs s (·.claim job.jobId s.nowSecs (leaseNow s)))).trans ?_
    by_cases hclaim : (s.jobs.claim job.jobId s.nowSecs (leaseNow s)).1 = true
    · rw [if_pos hclaim, if_pos hclaim]
      exact exec_attempt
    · rw [if_neg hclaim, if_neg hclaim]
      exact congrArg (fun t => (_, { s with jobs := t }))
        (JobTable.move_eq_self (Bool.eq_false_iff.mpr hclaim))

/-- **Handling a message is following its course.** -/
theorem exec_handle (m : Held) (s : Service) : (handle m).exec s = follow m s (courseOf m s) := by
  rw [handle, courseOf]
  cases Job.ofPayload? m.payload with
  | none => rfl
  | some job =>
    simp only [Effect.exec_bind_ok (Effect.exec_get s)]
    cases s.jobs.get? job.jobId with
    | none => rfl
    | some record =>
      simp only
      by_cases hended : record.status.isTerminal = true
      · rw [if_pos hended, if_pos hended]
        rfl
      · rw [if_neg hended, if_neg hended]
        exact exec_take record

end Syndication.Worker
