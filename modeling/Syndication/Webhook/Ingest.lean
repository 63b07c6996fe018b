import Syndication.Service
import Syndication.Webhook.EventSub

/-!
# Webhook.Ingest — taking callbacks of providers

A callback is believed only if its signature is right and it is not too old. A notification is
recorded under its message id, so that one that is sent again is not taken again; its event goes on
the trigger queue. If the queue does not take the event, the message id is forgotten, so that the
provider may send the notification again.

## Contents
* `Ack`
* `authenticate`     — what a callback asks for, if it is to be believed
* `acceptNotification`, `ingest`
-/

namespace Syndication.Webhook

/-- How a callback is answered. -/
inductive Ack where
  /-- The text to echo. -/
  | challenge (text : String)
  /-- The event is on the queue. -/
  | queued
  /-- The notification has been taken before. -/
  | duplicate
  /-- There is nothing to do. -/
  | ignored (reason : String)
  deriving DecidableEq, Repr

def Ack.toJson : Ack → Json
  | .challenge text => .record [("ack", .text "challenge"), ("text", .text text)]
  | .queued => .record [("ack", .text "queued")]
  | .duplicate => .record [("ack", .text "duplicate")]
  | .ignored reason => .record [("ack", .text "ignored"), ("text", .text reason)]

/-- What a callback asks for and its message id, if it is signed and not too old. -/
def authenticate (s : Service) (headers : Http.Headers) (body : Bytes) :
    Except WebhookError (String × EventSub.Callback) := do
  let h ← EventSub.EventSubHeaders.of? headers
  match s.secrets.lookup? s.config.webhooks.signingSecret with
  | none =>
    throw (.inside (.config (.missingField ("secret " ++ s.config.webhooks.signingSecret))))
  | some secret =>
    if !EventSub.verifySignature (Utf8.encode secret) h.messageId h.timestamp body h.signature then
      throw (.unauthorized "signature mismatch")
    else
      let sent ← EventSub.checkFreshness h.timestamp s.nowInstant s.config.webhooks.maxAgeSecs
      let callback ← EventSub.Callback.of? h sent body
      return (h.messageId, callback)

/-- Takes a notification once: its message id goes into the ledger and its event, if any, on the
trigger queue. -/
def acceptNotification (source messageId : String) (event : Option TriggerEvent) :
    Effect Service Ack := do
  let now := (← get).nowSecs
  if !(← Service.changeLedger (·.recordMessage source messageId now)) then return .duplicate
  else match event with
    | none => return .ignored "event type does not trigger posts"
    | some e =>
      match ← (Service.enqueue MessageTable.triggerQueue e.payload Span.zero).settle with
      | .ok _ => return .queued
      | .error cause =>
        Service.changeLedger fun l => ((), l.forgetMessage source messageId)
        throw cause

/-- Answers a callback that is to be believed. -/
def answer (messageId : String) : EventSub.Callback → Effect Service Ack
  | .challenge text => return .challenge text
  | .revoked subscription reason =>
    return .ignored ("subscription " ++ subscription ++ " revoked: " ++ reason)
  | .unknown messageType => return .ignored ("message type " ++ messageType)
  | .notification event => acceptNotification EventSub.source messageId event

/-- Takes a callback of a provider. -/
def ingest (provider : String) (headers : Http.Headers) (body : Bytes) (s : Service) :
    Except WebhookError Ack × Service :=
  if provider ≠ EventSub.source then (.error (.unknownProvider provider), s)
  else match authenticate s headers body with
    | .error e => (.error e, s)
    | .ok (messageId, callback) =>
      match (answer messageId callback).exec s with
      | (.ok ack, s) => (.ok ack, s)
      | (.error cause, s) => (.error (.inside cause), s)

end Syndication.Webhook
