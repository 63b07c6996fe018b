import Syndication.Proofs.Effect
import Syndication.Service

/-!
# Proofs.Service — steps of the whole, read off their parts

Each step of the service changes one part of it, as the operation of that part does, and leaves the
other parts as they are.

## Contents
* `exec_onStore`, `exec_onKeys`, `exec_onJobs`, `exec_changeJobs`, `exec_changeMessages` …
* `exec_enqueue`, `exec_dequeue`, `exec_acknowledge`, `exec_defer`, `exec_drawId`, `exec_drawToken`
* `started`                         — a service that has just been started
-/

namespace Syndication.Service

variable {α : Type} (s : Service)

@[simp] theorem exec_onStore (m : Effect ObjectStore α) :
    (onStore m).exec s = ((m.exec s.store).1, { s with store := (m.exec s.store).2 }) := rfl

@[simp] theorem exec_onKeys (m : Effect KeyRing α) :
    (onKeys m).exec s = ((m.exec s.keys).1, { s with keys := (m.exec s.keys).2 }) := rfl

@[simp] theorem exec_onJobs (m : Effect JobTable α) :
    (onJobs m).exec s = ((m.exec s.jobs).1, { s with jobs := (m.exec s.jobs).2 }) := rfl

@[simp] theorem exec_onTriggers (m : Effect TriggerTable α) :
    (onTriggers m).exec s = ((m.exec s.triggers).1, { s with triggers := (m.exec s.triggers).2 }) := rfl

@[simp] theorem exec_changeKeys (f : KeyRing → α × KeyRing) :
    (changeKeys f).exec s = (.ok (f s.keys).1, { s with keys := (f s.keys).2 }) := rfl

@[simp] theorem exec_changeJobs (f : JobTable → α × JobTable) :
    (changeJobs f).exec s = (.ok (f s.jobs).1, { s with jobs := (f s.jobs).2 }) := rfl

@[simp] theorem exec_changeTriggers (f : TriggerTable → α × TriggerTable) :
    (changeTriggers f).exec s = (.ok (f s.triggers).1, { s with triggers := (f s.triggers).2 }) := rfl

@[simp] theorem exec_changeMessages (f : MessageTable → α × MessageTable) :
    (changeMessages f).exec s = (.ok (f s.messages).1, { s with messages := (f s.messages).2 }) := rfl

@[simp] theorem exec_changeLedger (f : Ledger → α × Ledger) :
    (changeLedger f).exec s = (.ok (f s.ledger).1, { s with ledger := (f s.ledger).2 }) := rfl

@[simp] theorem exec_changeWindows (f : RateWindows → α × RateWindows) :
    (changeWindows f).exec s = (.ok (f s.windows).1, { s with windows := (f s.windows).2 }) := rfl

/-! ## Messages -/

/-- A queue takes a payload unless it refuses it; then nothing happens. -/
theorem exec_enqueue (queue payload : String) (delay : Span) :
    (enqueue queue payload delay).exec s =
      if s.refuses queue payload then (.error queueUnavailable, s)
      else (.ok (s.messages.enqueue queue payload s.now delay).1,
        { s with messages := (s.messages.enqueue queue payload s.now delay).2 }) := by
  rw [enqueue, Effect.exec_bind_ok (Effect.exec_get s)]
  split <;> rfl

@[simp] theorem exec_dequeue (queue : String) (max : Nat) (hideFor : Span) :
    (dequeue queue max hideFor).exec s =
      (.ok (s.messages.dequeue queue s.now max hideFor).1,
        { s with messages := (s.messages.dequeue queue s.now max hideFor).2 }) := rfl

@[simp] theorem exec_acknowledge (m : Held) :
    (acknowledge m).exec s =
      (.ok (s.messages.acknowledge m).1, { s with messages := (s.messages.acknowledge m).2 }) := rfl

@[simp] theorem exec_defer (m : Held) (delay : Span) (counts : Bool) :
    (defer m delay counts).exec s =
      (.ok (s.messages.defer m s.now delay counts).1,
        { s with messages := (s.messages.defer m s.now delay counts).2 }) := rfl

/-! ## Identifiers -/

@[simp] theorem exec_drawId :
    drawId.exec s =
      (.ok (s.issuer.idOf s.issuer.ids), { s with issuer := { s.issuer with ids := s.issuer.ids + 1 } }) :=
  rfl

@[simp] theorem exec_drawToken :
    drawToken.exec s = (.ok (s.issuer.tokenOf s.issuer.tokens),
      { s with issuer := { s.issuer with tokens := s.issuer.tokens + 1 } }) :=
  rfl

/-! ## The beginning -/

/-- A service that has just been started, with these keys, and with its objects in memory. -/
def started (c : Config) (keys : List ApiKey) : Service where
  config := c
  settings := c.queue.settings
  secrets := .fixed []
  now := 0
  issuer := ⟨0, 0, 0, 0⟩
  keys := ⟨keys⟩
  store := .inMemory

/-- The keys of a service with one user. -/
def sampleKeys : List ApiKey := [⟨"ada", "k1", "secret", 0⟩]

/-- A post of that user for two targets. -/
def samplePost : PostRequest where
  credential := ⟨"ada", "k1", none⟩
  targets := ["blog", "x"]
  title := "News"

end Syndication.Service
