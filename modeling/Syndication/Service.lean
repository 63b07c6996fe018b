import Syndication.ApiKey
import Syndication.Job.Table
import Syndication.Ledger
import Syndication.Platform.Registry
import Syndication.Queue
import Syndication.Staging
import Syndication.Trigger.Table

/-!
# Service — everything the program works on

The state of the service: the tables of the database, the object store and the sessions over it, the
platforms, and what the world around it decides, which is the time, the secrets and the payloads that
the queue will not take. Each part has its own operations; here they become steps of the whole.

## Contents
* `Service`, `nowSecs`, `nowInstant`, `hasClock`
* `onStore`, `onSessions`, `onKeys`, `onJobs`, `onTriggers`, `onMessages` — steps on one part
* `enqueue`, `acknowledge`, `defer`                                       — messages
* `drawId`                                                                — a fresh identifier
-/

namespace Syndication

/-- The state of the service. -/
structure Service where
  config : Config
  settings : WorkerSettings
  secrets : SecretStore
  /-- The milliseconds since 1970 that the clock shows. Not every number of them can be read. -/
  now : Int
  /-- The payloads that a queue does not take, by the name of the queue. -/
  refuses : String → String → Bool := fun _ _ => false
  issuer : Issuer
  keys : KeyRing := {}
  jobs : JobTable := {}
  messages : MessageTable := {}
  ledger : Ledger := {}
  triggers : TriggerTable := {}
  windows : RateWindows := {}
  sessions : SessionRegistry := {}
  store : ObjectStore
  platforms : PlatformRegistry := {}

namespace Service

/-- The whole second that the clock shows. -/
def nowSecs (s : Service) : Int := secondOf s.now

/-- The instant that the clock shows. -/
def nowInstant (s : Service) : Instant := .ofMillis s.now

/-- The clock can be read: it stands neither before 1970 nor beyond the calendar. A program ends where it
reads a clock that cannot be read; the steps of the service are those of a program that goes on. -/
def hasClock (s : Service) : Bool := decide (0 ≤ s.now) && Instant.inCalendar s.nowSecs

/-! ## Steps on one part -/

/-- A step on the object store. -/
def onStore {α : Type} (m : Effect ObjectStore α) : Effect Service α :=
  m.on (·.store) fun s store => { s with store := store }

/-- The sessions and the store that they are kept in. -/
def sessionWorld (s : Service) : SessionWorld := ⟨s.sessions, s.store⟩

/-- The service with other sessions and another store. -/
def withSessionWorld (s : Service) (w : SessionWorld) : Service :=
  { s with sessions := w.registry, store := w.store }

/-- A step on the sessions. -/
def onSessions {α : Type} (m : Effect SessionWorld α) : Effect Service α :=
  m.on sessionWorld withSessionWorld

/-- A step on the keys. -/
def onKeys {α : Type} (m : Effect KeyRing α) : Effect Service α :=
  m.on (·.keys) fun s keys => { s with keys := keys }

/-- A step on the job records. -/
def onJobs {α : Type} (m : Effect JobTable α) : Effect Service α :=
  m.on (·.jobs) fun s jobs => { s with jobs := jobs }

/-- A step on the triggers. -/
def onTriggers {α : Type} (m : Effect TriggerTable α) : Effect Service α :=
  m.on (·.triggers) fun s triggers => { s with triggers := triggers }

/-- A change of the keys that cannot fail. -/
def changeKeys {α : Type} (f : KeyRing → α × KeyRing) : Effect Service α :=
  onKeys (.ofFun fun r => let (a, r) := f r; (.ok a, r))

/-- A change of the job records that cannot fail. -/
def changeJobs {α : Type} (f : JobTable → α × JobTable) : Effect Service α :=
  onJobs (.ofFun fun t => let (a, t) := f t; (.ok a, t))

/-- A change of the triggers that cannot fail. -/
def changeTriggers {α : Type} (f : TriggerTable → α × TriggerTable) : Effect Service α :=
  onTriggers (.ofFun fun t => let (a, t) := f t; (.ok a, t))

/-- A change of the messages that cannot fail. -/
def changeMessages {α : Type} (f : MessageTable → α × MessageTable) : Effect Service α :=
  .ofFun fun s => let (a, t) := f s.messages; (.ok a, { s with messages := t })

/-- A change of the ledgers that cannot fail. -/
def changeLedger {α : Type} (f : Ledger → α × Ledger) : Effect Service α :=
  .ofFun fun s => let (a, t) := f s.ledger; (.ok a, { s with ledger := t })

/-- A change of the budget windows that cannot fail. -/
def changeWindows {α : Type} (f : RateWindows → α × RateWindows) : Effect Service α :=
  .ofFun fun s => let (a, t) := f s.windows; (.ok a, { s with windows := t })

/-! ## Messages -/

/-- The failure of a queue that does not take a payload. -/
def queueUnavailable : Error := .queue "queue unavailable"

/-- Puts a payload on a queue and answers the id of the message. -/
def enqueue (queue payload : String) (delay : Span) : Effect Service Nat := do
  let s ← get
  if s.refuses queue payload then throw queueUnavailable
  else changeMessages (·.enqueue queue payload s.now delay)

/-- Takes messages from a queue. -/
def dequeue (queue : String) (max : Nat) (hideFor : Span) : Effect Service (List Held) := do
  let s ← get
  changeMessages (·.dequeue queue s.now max hideFor)

/-- Deletes a message. -/
def acknowledge (m : Held) : Effect Service Bool := changeMessages (·.acknowledge m)

/-- Shows a message again after a delay. -/
def defer (m : Held) (delay : Span) (counts : Bool) : Effect Service Bool := do
  let s ← get
  changeMessages (·.defer m s.now delay counts)

/-! ## Identifiers -/

/-- A fresh identifier. -/
def drawId : Effect Service String :=
  .ofFun fun s => let (id, issuer) := s.issuer.nextId; (.ok id, { s with issuer := issuer })

/-- A fresh token. -/
def drawToken : Effect Service String :=
  .ofFun fun s => let (token, issuer) := s.issuer.nextToken; (.ok token, { s with issuer := issuer })

/-! ## Keys -/

/-- A key made for a user. -/
def generateKey (userId : String) : Effect Service GeneratedKey := do
  if !isPathSafe userId then throw (.invalidInput ("invalid user id '" ++ userId ++ "'"))
  else
    let keyId ← drawId
    let token ← drawToken
    onKeys (KeyRing.insert ⟨userId, keyId, token, (← get).nowSecs⟩)
    return ⟨userId, keyId, token⟩

end Service
end Syndication
