import Syndication.Digest.ConstantTime
import Syndication.Digest.Hmac
import Syndication.Error
import Syndication.Http.Message
import Syndication.Text.Blank
import Syndication.Trigger.Basic

/-!
# Webhook.EventSub — callbacks of the Twitch EventSub service

Every callback carries four headers: a message id, a timestamp, a signature and a type. The
signature is the keyed hash of message id, timestamp and body. A callback asks for one of three
things: to echo a challenge, to note that a subscription has ended, or to take a notification; only
some notifications are events that triggers can wait for.

## Contents
* `EventSubHeaders`, `EventSubHeaders.of?`
* `signature`, `signatureHeader`, `verifySignature`
* `checkFreshness`
* `Callback`, `Callback.of?`
-/

namespace Syndication.EventSub

/-- The name of the provider, in addresses, events and dedup records. -/
def source : String := "twitch"

/-! ## Headers -/

def messageIdHeader : String := "twitch-eventsub-message-id"
def timestampHeader : String := "twitch-eventsub-message-timestamp"
def signatureHeaderName : String := "twitch-eventsub-message-signature"
def typeHeader : String := "twitch-eventsub-message-type"

/-- The four headers of a callback. -/
structure EventSubHeaders where
  messageId : String
  timestamp : String
  signature : String
  messageType : String
  deriving DecidableEq, Repr

def EventSubHeaders.toJson (h : EventSubHeaders) : Json :=
  .record [("id", .text h.messageId), ("timestamp", .text h.timestamp),
    ("signature", .text h.signature), ("type", .text h.messageType)]

/-- The trimmed value of a header, which must be readable and not empty. -/
def header (headers : Http.Headers) (name : String) : Except WebhookError String :=
  let value := ((Http.first? headers name).bind Http.visible?).map Text.trim
  match value.filter (!·.isEmpty) with
  | some v => .ok v
  | none => .error (.badRequest ("missing header " ++ name))

/-- The headers of a callback; the case of the type does not matter. -/
def EventSubHeaders.of? (headers : Http.Headers) : Except WebhookError EventSubHeaders := do
  let messageId ← header headers messageIdHeader
  let timestamp ← header headers timestampHeader
  let signature ← header headers signatureHeaderName
  let messageType ← header headers typeHeader
  return ⟨messageId, timestamp, signature, Text.lower messageType⟩

/-! ## Signatures -/

/-- The tag of a callback under the signing secret. -/
def signature (secret : Bytes) (messageId timestamp : String) (body : Bytes) : Bytes :=
  Digest.hmacSha256 secret (Utf8.encode messageId ++ Utf8.encode timestamp ++ body)

/-- A tag as it stands in the signature header. -/
def signatureHeader (tag : Bytes) : String := "sha256=" ++ Hex.encode tag

/-- The header carries the tag of this callback. -/
def verifySignature (secret : Bytes) (messageId timestamp : String) (body : Bytes)
    (header : String) : Bool :=
  match (Text.dropStart? "sha256=" header).bind Hex.decode? with
  | some tag => Digest.constantTimeEq tag (signature secret messageId timestamp body)
  | none => false

/-! ## Age -/

/-- The instant at which a callback was sent, unless that is more than `maxAge` whole seconds ago. -/
def checkFreshness (timestamp : String) (now : Instant) (maxAge : Int) :
    Except WebhookError Instant :=
  match Stamp.strict? timestamp with
  | none => .error (.badRequest "invalid message timestamp: not an RFC 3339 date and time")
  | some sent =>
    if maxAge < now.secondsSince sent then
      .error (.unauthorized
        ("message timestamp " ++ timestamp ++ " is older than " ++ toString maxAge ++ " seconds"))
    else .ok sent

/-! ## Bodies -/

/-- The subscription that a callback belongs to. -/
structure Subscription where
  kind : String
  status : Option String

def Subscription.ofJson? (j : Json) : Option Subscription := do
  let m ← Json.Members.of? [["type"], ["status"]] j
  return { kind := ← m.required 0 Json.asText?, status := ← m.optional 1 Json.asText? }

/-- What every body holds. -/
structure Envelope where
  subscription : Subscription
  challenge : Option String

def Envelope.ofJson? (j : Json) : Option Envelope := do
  let m ← Json.Members.of? [["subscription"], ["challenge"]] j
  return {
    subscription := ← m.required 0 Subscription.ofJson?
    challenge := ← m.optional 1 Json.asText? }

/-- A stream that has begun. -/
structure StreamOnline where
  userId : String
  userLogin : String
  userName : String
  startedAt : Instant

def StreamOnline.ofJson? (j : Json) : Option StreamOnline := do
  let m ← Json.Members.of? [["broadcaster_user_id"], ["broadcaster_user_login"],
    ["broadcaster_user_name"], ["started_at"]] j
  return {
    userId := ← m.required 0 Json.asText?
    userLogin := ← m.required 1 Json.asText?
    userName := ← m.withDefault 2 Json.asText? ""
    startedAt := ← m.required 3 Instant.ofJson? }

/-- A channel whose title or category has changed. -/
structure ChannelUpdate where
  userId : String
  userLogin : String
  userName : String
  title : Option String
  category : Option String

def ChannelUpdate.ofJson? (j : Json) : Option ChannelUpdate := do
  let m ← Json.Members.of? [["broadcaster_user_id"], ["broadcaster_user_login"],
    ["broadcaster_user_name"], ["title"], ["category_name"]] j
  return {
    userId := ← m.required 0 Json.asText?
    userLogin := ← m.required 1 Json.asText?
    userName := ← m.withDefault 2 Json.asText? ""
    title := ← m.optional 3 Json.asText?
    category := ← m.optional 4 Json.asText? }

/-- The event of a notification. -/
def notificationOf? {α : Type} (read : Json → Option α) (j : Json) : Option α := do
  let m ← Json.Members.of? [["event"]] j
  m.required 0 read

/-- The name to show for a channel: its display name, or the login if there is none. -/
def displayName (name login : String) : String := if name.isEmpty then login else name

/-- The address of a channel. -/
def channelUrl (login : String) : String := "https://twitch.tv/" ++ login

/-! ## Callbacks -/

/-- What a callback asks for. -/
inductive Callback where
  | challenge (text : String)
  | revoked (subscription reason : String)
  | notification (event : Option TriggerEvent)
  | unknown (messageType : String)
  deriving DecidableEq, Repr

def Callback.toJson : Callback → Json
  | .challenge text => .record [("kind", .text "challenge"), ("challenge", .text text)]
  | .revoked subscription reason =>
    .record [("kind", .text "revoked"), ("subscription", .text subscription),
      ("reason", .text reason)]
  | .notification event =>
    .record [("kind", .text "notification"), ("event", .orNull TriggerEvent.toJson event)]
  | .unknown messageType => .record [("kind", .text "unknown"), ("type", .text messageType)]

/-- A part of a body, which must be readable. -/
def part {α : Type} (found : Option α) : Except WebhookError α :=
  match found with
  | some a => .ok a
  | none => .error (.badRequest "invalid EventSub payload: not a body of this message type")

/-- The event of a stream that has begun. -/
def StreamOnline.event (s : StreamOnline) (messageId kind : String) : TriggerEvent where
  source := source
  messageId := messageId
  accountType := source
  accountId := s.userId
  accountName := displayName s.userName s.userLogin
  kind := kind
  title := none
  category := none
  url := some (channelUrl s.userLogin)
  occurredAt := s.startedAt

/-- The event of a changed channel, which happened when the callback was sent. -/
def ChannelUpdate.event (c : ChannelUpdate) (messageId kind : String) (sent : Instant) :
    TriggerEvent where
  source := source
  messageId := messageId
  accountType := source
  accountId := c.userId
  accountName := displayName c.userName c.userLogin
  kind := kind
  title := c.title
  category := c.category
  url := some (channelUrl c.userLogin)
  occurredAt := sent

/-- What an authenticated callback asks for. -/
def Callback.of? (headers : EventSubHeaders) (sent : Instant) (body : Bytes) :
    Except WebhookError Callback := do
  if headers.messageType = "webhook_callback_verification" then
    let envelope ← part ((Json.ofBytes? body).bind Envelope.ofJson?)
    match envelope.challenge with
    | some text => return .challenge text
    | none => throw (.badRequest "verification without challenge")
  else if headers.messageType = "revocation" then
    let envelope ← part ((Json.ofBytes? body).bind Envelope.ofJson?)
    return .revoked envelope.subscription.kind (envelope.subscription.status.getD "")
  else if headers.messageType = "notification" then
    let envelope ← part ((Json.ofBytes? body).bind Envelope.ofJson?)
    let kind := envelope.subscription.kind
    if kind = "stream.online" then
      let s ← part ((Json.ofBytes? body).bind (notificationOf? StreamOnline.ofJson?))
      return .notification (some (s.event headers.messageId kind))
    else if kind = "channel.update" then
      let c ← part ((Json.ofBytes? body).bind (notificationOf? ChannelUpdate.ofJson?))
      return .notification (some (c.event headers.messageId kind sent))
    else return .notification none
  else return .unknown headers.messageType

end Syndication.EventSub
