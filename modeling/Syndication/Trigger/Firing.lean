import Syndication.Submission
import Syndication.Trigger.Rendering

/-!
# Trigger.Firing — from an event to posts

An event fires every trigger on its account: a post is made from the trigger's template and submitted
for the trigger's user. A ledger entry keeps the trigger from firing again for the same message, and
a stamp keeps it from firing before its gap has passed. Both are made before the post is submitted and
taken back if that fails, so an event that is processed again fires the triggers that did not fire.

## Contents
* `FiringReport`, `FiringResult`
* `fire`, `consider`             — one trigger
* `process`                      — one event
* `handle`, `handleAll`, `runOnce` — messages of the trigger queue
-/

namespace Syndication

/-- What became of the triggers of an event. -/
structure FiringReport where
  submitted : Nat := 0
  /-- Triggers whose gap has not passed. -/
  throttled : Nat := 0
  /-- Triggers that have fired for the same message before. -/
  alreadyFired : Nat := 0
  /-- Triggers whose post may be submitted later. -/
  failed : Nat := 0
  deriving DecidableEq, Repr

def FiringReport.toJson (r : FiringReport) : Json :=
  .record [("submitted", .int r.submitted), ("throttled", .int r.throttled),
    ("alreadyFired", .int r.alreadyFired), ("failed", .int r.failed)]

/-- What became of one trigger. -/
inductive FiringResult where
  | submitted
  | throttled
  | alreadyFired
  /-- The post was not submitted, but may be later. -/
  | failed
  /-- The post cannot be submitted. -/
  | hopeless
  deriving DecidableEq, Repr

/-- A report after one more trigger. -/
def FiringReport.add (r : FiringReport) : FiringResult → FiringReport
  | .submitted => { r with submitted := r.submitted + 1 }
  | .throttled => { r with throttled := r.throttled + 1 }
  | .alreadyFired => { r with alreadyFired := r.alreadyFired + 1 }
  | .failed => { r with failed := r.failed + 1 }
  | .hopeless => r

namespace Firing

/-! ## One trigger -/

/-- The content of the post that a template makes of an event. -/
def contentOf (t : Template) (e : TriggerEvent) : PostContent :=
  { title := renderTemplate t.title e, description := renderTemplate t.body e }

/-- Submits the post of a trigger for an event. -/
def fire (t : Trigger) (e : TriggerEvent) : Effect Service Unit := do
  match (← get).triggers.template? t.userId t.templateId with
  | none => throw (.notFound ("template " ++ t.templateId))
  | some template =>
    let _ ← Submission.submitForUser t.userId [t.target] (contentOf template e) none

/-- Forgets that an event has fired a trigger. -/
def forgetFired (e : TriggerEvent) (userId triggerId : String) : Effect Service Unit :=
  Service.changeLedger fun l => ((), l.forgetFired e.source e.messageId userId triggerId)

/-- The failure will be the same the next time. -/
def isHopeless : Error → Bool
  | .invalidInput _ | .notFound _ => true
  | _ => false

/-- Fires a trigger for an event, unless it has fired for it before or its gap has not passed. -/
def consider (e : TriggerEvent) (userId : String) (t : Trigger) : Effect Service FiringResult := do
  let now := (← get).nowSecs
  if !(← Service.changeLedger (·.recordFired e.source e.messageId userId t.triggerId now)) then
    return .alreadyFired
  else if !(← Service.changeTriggers (·.tryMarkNotified userId t.triggerId now)) then
    forgetFired e userId t.triggerId
    return .throttled
  else match ← (fire t e).settle with
    | .ok () => return .submitted
    | .error cause =>
      Service.changeTriggers fun table =>
        ((), table.restoreNotified userId t.triggerId now t.lastNotifiedAt)
      forgetFired e userId t.triggerId
      return if isHopeless cause then .hopeless else .failed

/-! ## One event -/

/-- Considers triggers of a user one after the other. -/
def considerAll (e : TriggerEvent) (userId : String) (r : FiringReport) :
    List Trigger → Effect Service FiringReport
  | [] => pure r
  | t :: rest => do
    let result ← consider e userId t
    considerAll e userId (r.add result) rest

/-- Considers the triggers of users one after the other. -/
def considerUsers (e : TriggerEvent) (accountType : String) (r : FiringReport) :
    List String → Effect Service FiringReport
  | [] => pure r
  | userId :: rest => do
    let triggers := (← get).triggers.ofAccount userId accountType e.accountId
    let r ← considerAll e userId r triggers
    considerUsers e accountType r rest

/-- Considers every trigger on the account of an event. -/
def process (e : TriggerEvent) : Effect Service FiringReport := do
  let accountType := Text.lower e.accountType
  let users := (← get).triggers.interestedUsers accountType e.accountId
  considerUsers e accountType {} users

/-! ## Messages -/

/-- Handles a message of the trigger queue. It is shown again if a post may be submitted later. -/
def handle (m : Held) : Effect Service FiringReport := do
  match TriggerEvent.ofPayload? m.payload with
  | none =>
    let _ ← Service.acknowledge m
    return {}
  | some e =>
    let r ← process e
    let settings := (← get).settings
    if 0 < r.failed ∧ m.dequeueCount < settings.maxAttempts then
      let _ ← Service.defer m (settings.retry.interval m.dequeueCount) true
    else
      let _ ← Service.acknowledge m
    return r

/-- Handles messages one after the other. -/
def handleAll : List Held → Effect Service (List (Except Error FiringReport))
  | [] => pure []
  | m :: rest => do
    let report ← (handle m).settle
    let others ← handleAll rest
    return report :: others

/-- Takes a batch from the trigger queue, handles it, and answers how many messages it had. -/
def runOnce : Effect Service Nat := do
  let s ← get
  let batch ← Service.dequeue MessageTable.triggerQueue s.settings.batchSize
    s.settings.visibilityTimeout
  let _ ← handleAll batch
  return batch.length

end Firing
end Syndication
