import Syndication.Json.Reader
import Syndication.Json.Writer
import Syndication.Post

/-!
# Trigger.Basic — events, triggers and templates

Something happens on an account elsewhere; the provider's callback becomes an event. A trigger says
which user wants a post for the events of which account, from which template and to which target,
and how many hours have to lie between two posts.

## Contents
* `TriggerEvent`   — an event, and the document that carries it on the trigger queue
* `Trigger`, `Trigger.nextAllowedAt`
* `Template`
-/

namespace Syndication

/-! ## Events -/

/-- Something that happened on an account elsewhere. -/
structure TriggerEvent where
  source : String
  messageId : String
  accountType : String
  accountId : String
  accountName : String := ""
  kind : String
  title : Option String := none
  category : Option String := none
  url : Option String := none
  occurredAt : Instant
  deriving DecidableEq, Repr, Inhabited

namespace TriggerEvent

def toJson (e : TriggerEvent) : Json :=
  .record [("source", .text e.source), ("messageId", .text e.messageId),
    ("externalAccountType", .text e.accountType), ("externalAccountId", .text e.accountId),
    ("accountName", .text e.accountName), ("kind", .text e.kind),
    ("title", .orNull .text e.title), ("category", .orNull .text e.category),
    ("url", .orNull .text e.url), ("occurredAt", e.occurredAt.toJson)]

def ofJson? (j : Json) : Option TriggerEvent := do
  let m ← Json.Members.of? [["source"], ["messageId"], ["externalAccountType"],
    ["externalAccountId"], ["accountName"], ["kind"], ["title"], ["category"], ["url"],
    ["occurredAt"]] j
  return {
    source := ← m.required 0 Json.asText?
    messageId := ← m.required 1 Json.asText?
    accountType := ← m.required 2 Json.asText?
    accountId := ← m.required 3 Json.asText?
    accountName := ← m.withDefault 4 Json.asText? ""
    kind := ← m.required 5 Json.asText?
    title := ← m.optional 6 Json.asText?
    category := ← m.optional 7 Json.asText?
    url := ← m.optional 8 Json.asText?
    occurredAt := ← m.required 9 Instant.ofJson? }

/-- The document that carries an event on the trigger queue. -/
def payload (e : TriggerEvent) : String := e.toJson.compact

/-- The event that a document carries. -/
def ofPayload? (s : String) : Option TriggerEvent := (Json.ofText? s).bind ofJson?

end TriggerEvent

/-! ## Triggers -/

/-- A user's wish for posts about the events of an account. Times are Unix seconds. -/
structure Trigger where
  userId : String
  triggerId : String
  accountId : String
  accountType : String
  templateId : String
  target : String
  gapHours : Nat
  lastNotifiedAt : Option Int
  createdAt : Int
  deriving DecidableEq, Repr, Inhabited

namespace Trigger

/-- The earliest second at which a trigger that has fired may fire again. -/
def nextAllowedAt (t : Trigger) : Option Int := t.lastNotifiedAt.map (· + t.gapHours * 3600)

/-- The gap has passed, or the trigger has not fired yet. -/
def mayNotify (t : Trigger) (now : Int) : Bool :=
  match t.nextAllowedAt with
  | some at' => at' ≤ now
  | none => true

def toJson (t : Trigger) : Json :=
  .record [("userId", .text t.userId), ("triggerId", .text t.triggerId),
    ("externalAccountId", .text t.accountId), ("externalAccountType", .text t.accountType),
    ("postTemplateId", .text t.templateId), ("targetPlatformId", .text t.target),
    ("notifyFrequencyHours", .int t.gapHours), ("lastNotifiedAt", .orNull .int t.lastNotifiedAt),
    ("createdAt", .int t.createdAt)]

end Trigger

/-! ## Templates -/

/-- The title and the body of posts to come. -/
structure Template where
  userId : String
  templateId : String
  title : String
  body : String
  updatedAt : Int
  deriving DecidableEq, Repr, Inhabited

def Template.toJson (t : Template) : Json :=
  .record [("userId", .text t.userId), ("templateId", .text t.templateId), ("title", .text t.title),
    ("body", .text t.body), ("updatedAt", .int t.updatedAt)]

end Syndication
