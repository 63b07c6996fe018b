import Syndication.CommandLine.Program
import Syndication.Maintenance
import Syndication.Trigger.Firing
import Syndication.Word
import Syndication.Worker

/-!
# CommandLine.Daemon — the program that works the queues

The program takes a batch from the trigger queue and then one from the delivery queue, since events
become deliveries. It does so once, or again and again until it is told to stop. A batch that could
not be taken is no reason to stop. At the end every session is flushed.

## Contents
* `processQueues`, `once`
* `turn`, `isIdle`, `turns`      — the daemon
* `run`, `rest?`                 — the program
-/

namespace Syndication.CommandLine.Daemon

/-- The messages of a batch, or none if it could not be taken. -/
def batchSize : Except Error Nat → Nat
  | .ok n => n
  | .error _ => 0

/-- A batch from each queue; answers how many messages they had. -/
def processQueues : Effect Service (Nat × Nat) := do
  let generated ← Firing.runOnce.settle
  let delivered ← Worker.runOnce.settle
  return (batchSize generated, batchSize delivered)

/-- Flushes every session. -/
def flushSessions : Effect Service Unit := do
  let _ ← Service.onSessions Session.flushAll

/-- A batch from each queue and a maintenance pass. -/
def once : Effect Service Unit := do
  let _ ← processQueues
  let _ ← Maintenance.maintainAsConfigured

/-! ## Again and again -/

/-- So many seconds after the last maintenance pass it is time for another one. -/
def isSweepDue (c : Config) (elapsed : Nat) : Bool := c.queue.sweepSecs ≤ elapsed

/-- One turn: a batch from each queue, and a maintenance pass if it is time for one. -/
def turn (elapsed : Nat) : Effect Service Unit := do
  let _ ← processQueues
  if isSweepDue (← get).config elapsed then
    let _ ← Maintenance.maintainAsConfigured.settle
  else return

/-- Every job has ended and both queues are empty. -/
def isIdle (s : Service) : Bool :=
  s.jobs.records.all (·.status.isTerminal) && s.messages.count MessageTable.deliveryQueue == 0 &&
    s.messages.count MessageTable.triggerQueue == 0

/-- Turns until there is nothing left to do or the list is over, which tells for each turn how many
seconds have passed since the last maintenance pass. -/
def turns : List Nat → Effect Service Unit
  | [] => pure ()
  | elapsed :: rest => do
    turn elapsed
    if isIdle (← get) then return else turns rest

/-! ## The program -/

def name : String := "crosspost-worker"

/-- How the program is used, in a line. -/
def usage : String := "Usage: " ++ name ++ " [--poll-interval MILLIS] [-v] [--once]"

/-- The milliseconds of a rest are below this. -/
def maxMillis : Nat := Word.range64

/-- The options. -/
def arguments : Command :=
  .leaf [{ name := "poll-interval", accepts := fun v => (natural? maxMillis v).isSome },
    { name := "verbose", short := some 'v', takesValue := false },
    { name := "once", takesValue := false }] 0

/-- The service with the platforms of its configuration, which are called over `network`. -/
def withPlatforms (network : String → Endpoint) (s : Service) : Except Error Service :=
  match PlatformRegistry.ofConfig s.config s.secrets network with
  | .ok platforms => .ok { s with platforms := platforms }
  | .error e => .error e

/-- What the program does with an open service: work once, or turn after turn. -/
def work (isOnce : Bool) (elapsed : List Nat) : Effect Service Output := do
  if isOnce then once else turns elapsed
  flushSessions
  return {}

/-- Runs the program. If its arguments do not fit, nothing is opened. -/
def run (args : List String) (network : String → Endpoint) (elapsed : List Nat) (setting : Setting) :
    Ending × Option Service :=
  match Arguments.parse [] arguments args with
  | .error halt => (halt.ending name usage, none)
  | .ok a =>
    match setting.start.bind (withPlatforms network) with
    | .error e => (.ofError e, none)
    | .ok s =>
      let (ending, s) := finish (work (a.has "once") elapsed) s
      (ending, some s)

/-- How long the program rests before its next turn; `none` if there is no next turn. -/
def rest? (args : List String) (c : Config) : Option Span :=
  match Arguments.parse [] arguments args with
  | .error _ => none
  | .ok a =>
    if a.has "once" then none
    else match (a.value? "poll-interval").bind (natural? maxMillis) with
      | some n => some (.ofMillis n)
      | none => some c.queue.pollInterval

end Syndication.CommandLine.Daemon
