import Syndication.Config.Basic
import Syndication.Platform.Hook
import Syndication.Platform.Mock
import Syndication.Secret

/-!
# Platform.Registry — the platforms that posts can go to

A target names a platform by its identifier. A delivery hands the platform a job, the content and the
number of the attempt, and ends with a report, a failure, or not in time.

## Contents
* `Platform`, `PlatformRegistry`, `register`, `get?`, `ids`
* `PlatformRegistry.ofConfig`
* `Delivery`, `DeliveryResult`, `Platform.deliver`
-/

namespace Syndication

/-- A platform that posts can go to. -/
inductive Platform where
  | mock (m : Mock)
  | hook (h : Hook)
  deriving Repr

/-- The identifier of a platform. -/
def Platform.id : Platform → String
  | .mock m => m.id
  | .hook h => h.id

/-- The platforms, no two with one identifier. -/
structure PlatformRegistry where
  platforms : List Platform := []
  deriving Repr

namespace PlatformRegistry

/-- A platform put in place of the one with its identifier. -/
def register (r : PlatformRegistry) (p : Platform) : PlatformRegistry :=
  if r.platforms.any (·.id = p.id) then
    ⟨r.platforms.map fun q => if q.id = p.id then p else q⟩
  else ⟨r.platforms ++ [p]⟩

/-- The platform of an identifier. -/
def get? (r : PlatformRegistry) (id : String) : Option Platform := r.platforms.find? (·.id = id)

/-- The identifiers, ascending. -/
def ids (r : PlatformRegistry) : List String := (r.platforms.map (·.id)).mergeSort (· ≤ ·)

/-- The platform that a configuration describes. What an address leads to is told by `network`. -/
def platformOf (secrets : SecretStore) (network : String → Endpoint) (p : PlatformConfig) :
    Except Error Platform :=
  match p.kind with
  | .mock => .ok (.mock { id := p.id })
  | .http =>
    match p.urlSecret with
    | none => .error (.config (.missingField ("platforms[" ++ p.id ++ "].url_secret")))
    | some name =>
      match secrets.lookup? name with
      | none => .error (.config (.missingField ("secret '" ++ name ++ "'")))
      | some address =>
        .ok (.hook { id := p.id, endpoint := network address, timeout := Span.ofSecs p.timeoutSecs })

/-- Platforms registered one after the other. -/
def registerAll (secrets : SecretStore) (network : String → Endpoint) (r : PlatformRegistry) :
    List PlatformConfig → Except Error PlatformRegistry
  | [] => .ok r
  | p :: rest => do
    let platform ← platformOf secrets network p
    registerAll secrets network (r.register platform) rest

/-- The platforms of a configuration. It fails for the first one whose address is not known. -/
def ofConfig (c : Config) (secrets : SecretStore) (network : String → Endpoint) :
    Except Error PlatformRegistry :=
  registerAll secrets network {} c.platforms

end PlatformRegistry

/-! ## Deliveries -/

/-- What a platform is handed. -/
structure Delivery where
  job : Job
  content : PostContent
  attempt : Nat
  deriving Repr

/-- How a delivery ended. -/
inductive DeliveryResult where
  | report (r : DeliveryReport)
  | failed (e : Error)
  | timedOut
  deriving DecidableEq, Repr

/-- A mock's answer to a delivery that may take `limit`. -/
def Mock.deliver (m : Mock) (d : Delivery) (limit : Span) (w : SessionWorld) :
    DeliveryResult × Mock × SessionWorld :=
  let called := { m with calls := m.calls + 1 }
  if 0 < m.delay.nanos ∧ limit.nanos ≤ m.delay.nanos then (.timedOut, called, w)
  else match m.verdict called.calls d.job.jobId with
    | .error cause => (.failed (.platform cause), called, w)
    | .ok report =>
      match (m.note d.job.jobId).exec w with
      | (.error e, w) => (.failed e, called, w)
      | (.ok (), w) =>
        (.report report, { called with delivered := m.delivered ++ [d.job.jobId] }, w)

/-- A hook's answer to a delivery that may take `limit`. -/
def Hook.deliver (h : Hook) (d : Delivery) (limit : Span) : DeliveryResult × Hook :=
  match h.endpoint.next? with
  | none =>
    (.failed (.platform (.network (h.id ++ " request failed: nobody answers"))), h)
  | some answer =>
    let sent := { h with
      endpoint := h.endpoint.advance
      received := h.received ++ [hookRequest d.job d.content d.attempt] }
    let wait := answer.delay.min h.timeout
    if 0 < wait.nanos ∧ limit.nanos ≤ wait.nanos then (.timedOut, sent)
    else if h.timeout.nanos ≤ answer.delay.nanos then
      (.failed (.platform (.posting (h.id ++ " request timed out: no answer in time"))), sent)
    else if answer.closes then
      (.failed (.platform (.network (h.id ++ " request failed: the connection was closed"))), sent)
    else match answer.result with
      | .ok report => (.report report, sent)
      | .error cause => (.failed (.platform cause), sent)

/-- A platform's answer to a delivery that may take `limit`. -/
def Platform.deliver (p : Platform) (d : Delivery) (limit : Span) (w : SessionWorld) :
    DeliveryResult × Platform × SessionWorld :=
  match p with
  | .mock m => let (result, m, w) := m.deliver d limit w; (result, .mock m, w)
  | .hook h => let (result, h) := h.deliver d limit; (result, .hook h, w)

end Syndication
