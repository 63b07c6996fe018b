import Syndication.Proofs.Ledger
import Syndication.Proofs.Service
import Syndication.Proofs.Trigger.Payload
import Syndication.Webhook.Ingest

/-!
# Proofs.Webhook.Ingest — what a callback changes

A callback changes something only if it is believed, and only if it is a notification: then its message
id is in the ledger, which it was not before, and its event, if it has one, is on the trigger queue. A
callback that fails has changed nothing, also when the queue did not take the event.

## Contents
* `Signed`, `authenticate_eq`, `signed_of_authenticate` — callbacks that are believed
* `notification_of_of?`                                 — notifications and their events
* `acceptNotification_old`, `acceptNotification_new`
* `Ingested`, `ingest_spec`                             — the four ways of an answer
* `sampleSigned`, `ingest_sample`
* `ingest_effects`
-/

namespace Syndication

namespace EventSub

/-- An answer of two steps is one of the second on an answer of the first. -/
theorem bind_eq_ok {α β : Type} {x : Except WebhookError α} {f : α → Except WebhookError β} {b : β} :
    x >>= f = .ok b ↔ ∃ a, x = .ok a ∧ f a = .ok b := by
  cases x <;> simp [bind, Except.bind]

theorem checkFreshness_eq_ok_iff {timestamp : String} {now sent : Instant} {maxAge : Int} :
    checkFreshness timestamp now maxAge = .ok sent ↔
      Stamp.strict? timestamp = some sent ∧ now.secondsSince sent ≤ maxAge := by
  rw [checkFreshness]
  cases Stamp.strict? timestamp with
  | none => simp
  | some sent' =>
    simp only [Option.some.injEq]
    split
    · rename_i hold
      refine iff_of_false (by simp) ?_
      rintro ⟨rfl, hfresh⟩
      omega
    · rename_i hfresh
      rw [Except.ok.injEq, iff_self_and]
      rintro rfl
      omega

/-- What is read of a body under its key. -/
theorem part_eq_ok_iff {α : Type} {found : Option α} {a : α} : part found = .ok a ↔ found = some a := by
  cases found <;> simp [part]

/-! ## Events -/

/-- An instant that a body gives was read, so it can be written. -/
theorem inCalendar_of_streamOnline {j : Json} {c : StreamOnline} (h : StreamOnline.ofJson? j = some c) :
    c.startedAt.InCalendar := by
  simp only [StreamOnline.ofJson?, Option.bind_eq_bind, Option.bind_eq_some_iff] at h
  obtain ⟨m, -, _, -, _, -, _, -, startedAt, hstarted, h⟩ := h
  obtain rfl := Option.some.inj h
  obtain ⟨value, -, hread⟩ := Option.bind_eq_some_iff.mp hstarted
  obtain ⟨text, -, hloose⟩ := Option.bind_eq_some_iff.mp hread
  exact (Stamp.isHeld_of_loose? hloose).calendar

/-- **The event of a notification** carries the message id of the callback, and can be written. -/
theorem notification_of_of? {fields : EventSubHeaders} {sent : Instant} {body : Bytes}
    {event : Option TriggerEvent} (hsent : sent.InCalendar)
    (h : Callback.of? fields sent body = .ok (.notification event)) :
    fields.messageType = "notification" ∧
      ∀ e ∈ event, e.source = source ∧ e.messageId = fields.messageId ∧ e.InCalendar := by
  rw [Callback.of?] at h
  split at h
  · obtain ⟨envelope, -, h⟩ := bind_eq_ok.mp h
    cases hchallenge : envelope.challenge <;> rw [hchallenge] at h <;> cases h
  split at h
  · obtain ⟨envelope, -, h⟩ := bind_eq_ok.mp h
    cases h
  split at h
  case isFalse => cases h
  rename_i htype
  refine ⟨htype, ?_⟩
  obtain ⟨envelope, -, h⟩ := bind_eq_ok.mp h
  simp only at h
  -- a stream brings the time when it began, and an update is dated when it was sent
  split at h
  · obtain ⟨stream, hstream, h⟩ := bind_eq_ok.mp h
    obtain rfl := Callback.notification.inj (Except.ok.inj h)
    rintro e ⟨⟩
    obtain ⟨j, -, hread⟩ := Option.bind_eq_some_iff.mp (part_eq_ok_iff.mp hstream)
    obtain ⟨m, -, hmember⟩ := Option.bind_eq_some_iff.mp hread
    obtain ⟨value, -, hvalue⟩ := Option.bind_eq_some_iff.mp hmember
    exact ⟨rfl, rfl, inCalendar_of_streamOnline hvalue⟩
  split at h
  · obtain ⟨channel, -, h⟩ := bind_eq_ok.mp h
    obtain rfl := Callback.notification.inj (Except.ok.inj h)
    rintro e ⟨⟩
    exact ⟨rfl, rfl, hsent⟩
  · obtain rfl := Callback.notification.inj (Except.ok.inj h)
    rintro e ⟨⟩

end EventSub

namespace Webhook

open EventSub Ledger

variable {s s' : Service} {headers : Http.Headers} {body : Bytes} {messageId : String}

/-! ## Callbacks that are believed -/

/-- A callback with its four headers, signed with the configured secret and not too old. -/
structure Signed (s : Service) (headers : Http.Headers) (body : Bytes) where
  messageId : String
  timestamp : String
  signature : String
  messageType : String
  secret : String
  sent : Instant
  hasMessageId : header headers messageIdHeader = .ok messageId
  hasTimestamp : header headers timestampHeader = .ok timestamp
  hasSignature : header headers signatureHeaderName = .ok signature
  hasType : header headers typeHeader = .ok messageType
  hasSecret : s.secrets.lookup? s.config.webhooks.signingSecret = some secret
  verifies : verifySignature (Utf8.encode secret) messageId timestamp body signature = true
  reads : Stamp.strict? timestamp = some sent
  isFresh : s.nowInstant.secondsSince sent ≤ s.config.webhooks.maxAgeSecs

namespace Signed

/-- The headers as they are handed on; the case of the type does not matter. -/
def fields (c : Signed s headers body) : EventSubHeaders :=
  ⟨c.messageId, c.timestamp, c.signature, Text.lower c.messageType⟩

/-- The callback is a notification. -/
def IsNotification (c : Signed s headers body) : Prop := Text.lower c.messageType = "notification"

/-- What a callback that is believed asks for is what its body says. -/
theorem authenticate_eq (c : Signed s headers body) :
    authenticate s headers body = (Callback.of? c.fields c.sent body).map (c.messageId, ·) := by
  have hfields : EventSubHeaders.of? headers = .ok c.fields := by
    simp [EventSubHeaders.of?, c.hasMessageId, c.hasTimestamp, c.hasSignature, c.hasType, fields, bind,
      Except.bind, pure, Except.pure]
  have hfresh := checkFreshness_eq_ok_iff.mpr ⟨c.reads, c.isFresh⟩
  have hverifies : verifySignature (Utf8.encode c.secret) c.fields.messageId c.fields.timestamp body
      c.fields.signature = true := c.verifies
  have hfresh' : checkFreshness c.fields.timestamp s.nowInstant s.config.webhooks.maxAgeSecs =
      .ok c.sent := hfresh
  simp only [authenticate, hfields, c.hasSecret, hverifies, hfresh', bind, Except.bind]
  cases Callback.of? c.fields c.sent body <;> rfl

end Signed

/-- Only such a callback is believed. -/
theorem signed_of_authenticate {callback : Callback}
    (h : authenticate s headers body = .ok (messageId, callback)) :
    ∃ c : Signed s headers body, c.messageId = messageId ∧
      Callback.of? c.fields c.sent body = .ok callback := by
  obtain ⟨fields, hfields, h⟩ := bind_eq_ok.mp h
  obtain ⟨id, hid, hfields⟩ := bind_eq_ok.mp hfields
  obtain ⟨timestamp, htimestamp, hfields⟩ := bind_eq_ok.mp hfields
  obtain ⟨signature, hsignature, hfields⟩ := bind_eq_ok.mp hfields
  obtain ⟨messageType, htype, hfields⟩ := bind_eq_ok.mp hfields
  obtain rfl := Except.ok.inj hfields
  split at h
  · cases h
  rename_i secret hsecret
  split at h
  · cases h
  rename_i hverifies
  obtain ⟨sent, hsent, h⟩ := bind_eq_ok.mp h
  obtain ⟨callback', hcallback, h⟩ := bind_eq_ok.mp h
  obtain ⟨rfl, rfl⟩ := Prod.mk.inj (Except.ok.inj h)
  obtain ⟨hreads, hfresh⟩ := checkFreshness_eq_ok_iff.mp hsent
  exact ⟨⟨id, timestamp, signature, messageType, secret, sent, hid, htimestamp, hsignature, htype,
    hsecret, by simpa using hverifies, hreads, hfresh⟩, rfl, hcallback⟩

/-! ## Notifications -/

/-- The service with a message id in its ledger. -/
def noted (s : Service) (messageId : String) : Service :=
  { s with ledger := s.ledger.withMessage source messageId s.nowSecs }

/-- The service with an event on its trigger queue. -/
def mailed (s : Service) (e : TriggerEvent) : Service :=
  { s with messages := (s.messages.enqueue MessageTable.triggerQueue e.payload s.now Span.zero).2 }

/-- A notification that was taken before is not taken again. -/
theorem acceptNotification_old (h : s.ledger.HasSeen source messageId) (event : Option TriggerEvent) :
    (acceptNotification source messageId event).exec s = (.ok .duplicate, s) := by
  unfold acceptNotification
  rw [Effect.exec_bind_ok (Effect.exec_get s),
    Effect.exec_bind_ok (Service.exec_changeLedger s _), recordMessage_old h]
  rfl

/-- **A new notification** is noted, and its event is queued; if the queue does not take the event, the
note is taken back. -/
theorem acceptNotification_new (h : ¬ s.ledger.HasSeen source messageId)
    (event : Option TriggerEvent) :
    (acceptNotification source messageId event).exec s =
      match event with
      | none => (.ok (.ignored "event type does not trigger posts"), noted s messageId)
      | some e =>
        if s.refuses MessageTable.triggerQueue e.payload then (.error Service.queueUnavailable, s)
        else (.ok .queued, mailed (noted s messageId) e) := by
  unfold acceptNotification
  rw [Effect.exec_bind_ok (Effect.exec_get s),
    Effect.exec_bind_ok (Service.exec_changeLedger s _), recordMessage_new h]
  cases event with
  | none => rfl
  | some e =>
    rw [if_neg (by simp)]
    refine (Effect.exec_settle_bind _ _ (noted s messageId)).trans ?_
    have hrefuses : (noted s messageId).refuses = s.refuses := rfl
    rw [Service.exec_enqueue, hrefuses]
    by_cases hrefused : s.refuses MessageTable.triggerQueue e.payload = true
    · rw [if_pos hrefused]
      refine Eq.trans ?_ (if_pos hrefused).symm
      exact congrArg (fun l => (Except.error Service.queueUnavailable, { s with ledger := l }))
        (forgetMessage_recorded h s.nowSecs)
    · rw [if_neg hrefused]
      exact (if_neg hrefused).symm

/-! ## Answers -/

/-- **The four ways of an answer**: the callback fails, or nothing is done, or a notification without an
event is noted, or one with an event is noted and its event queued. -/
inductive Ingested (provider : String) (headers : Http.Headers) (body : Bytes) (s : Service) :
    Except WebhookError Ack → Service → Prop
  | failed (e : WebhookError) : Ingested provider headers body s (.error e) s
  | quiet (ack : Ack) (silent : ack ≠ .queued) : Ingested provider headers body s (.ok ack) s
  | noted (c : Signed s headers body) (known : provider = source) (notification : c.IsNotification)
      (new : ¬ s.ledger.HasSeen source c.messageId) (reason : String) :
      Ingested provider headers body s (.ok (.ignored reason)) (noted s c.messageId)
  | queued (c : Signed s headers body) (known : provider = source) (notification : c.IsNotification)
      (new : ¬ s.ledger.HasSeen source c.messageId) (e : TriggerEvent)
      (messageId : e.messageId = c.messageId) (calendar : e.InCalendar) :
      Ingested provider headers body s (.ok .queued) (mailed (noted s c.messageId) e)

/-- Every callback is answered in one of these ways. -/
theorem ingest_spec (provider : String) (headers : Http.Headers) (body : Bytes) (s : Service) :
    Ingested provider headers body s (ingest provider headers body s).1
      (ingest provider headers body s).2 := by
  rw [ingest]
  by_cases hknown : provider = source
  case neg =>
    rw [if_pos hknown]
    exact .failed _
  rw [if_neg (not_not_intro hknown)]
  cases hbelieved : authenticate s headers body with
  | error e => exact .failed e
  | ok answer =>
    obtain ⟨messageId, callback⟩ := answer
    obtain ⟨c, rfl, hcallback⟩ := signed_of_authenticate hbelieved
    cases callback with
    | challenge text => exact .quiet _ (by simp)
    | revoked subscription reason => exact .quiet _ (by simp)
    | unknown messageType => exact .quiet _ (by simp)
    | notification event =>
      obtain ⟨hnotification, hevent⟩ := notification_of_of? (Stamp.isHeld_of_strict? c.reads).calendar hcallback
      simp only [answer]
      by_cases hnew : s.ledger.HasSeen source c.messageId
      · rw [acceptNotification_old hnew]
        exact .quiet _ (by simp)
      rw [acceptNotification_new hnew]
      cases event with
      | none => exact .noted c hknown hnotification hnew _
      | some e =>
        obtain ⟨-, hid, hcalendar⟩ := hevent e rfl
        simp only
        by_cases hrefused : s.refuses MessageTable.triggerQueue e.payload = true
        · rw [if_pos hrefused]
          exact .failed _
        · rw [if_neg hrefused]
          exact .queued c hknown hnotification hnew e hid hcalendar

/-- **A new notification that is believed** is queued, if it has an event and the queue takes it. -/
theorem ingest_notification (c : Signed s headers body) {e : TriggerEvent}
    (hcallback : Callback.of? c.fields c.sent body = .ok (.notification (some e)))
    (hnew : ¬ s.ledger.HasSeen source c.messageId)
    (htakes : s.refuses MessageTable.triggerQueue e.payload = false) :
    ingest source headers body s = (.ok .queued, mailed (noted s c.messageId) e) := by
  rw [ingest, if_neg (by simp), c.authenticate_eq, hcallback]
  simp only [Except.map, answer]
  rw [acceptNotification_new hnew]
  simp only [htakes]
  rfl

/-! ## A callback that is believed -/

/-- A service with a signing secret. -/
def sampleService : Service :=
  { Service.started {} [] with secrets := .fixed [("twitch_webhook_secret", "s3cret")] }

/-- A channel has changed. -/
def sampleBody : Bytes :=
  Utf8.encode "\x7b\"subscription\":\x7b\"type\":\"channel.update\"\x7d,\"event\":[\"7\",\"ada\"]\x7d"

/-- The headers of the callback, signed with the secret. -/
def sampleHeaders : Http.Headers :=
  [("Twitch-Eventsub-Message-Id", Utf8.encode "m1"),
    ("Twitch-Eventsub-Message-Timestamp", Utf8.encode "1970-01-01T00:00:00Z"),
    ("Twitch-Eventsub-Message-Signature",
      Utf8.encode "sha256=e934a48f64e97cdf242082bba554fd53b0029af576fe57c82d5f9820c54be139"),
    ("Twitch-Eventsub-Message-Type", Utf8.encode "notification")]

/-- The callback is believed. -/
def sampleSigned : Signed sampleService sampleHeaders sampleBody where
  messageId := "m1"
  timestamp := "1970-01-01T00:00:00Z"
  signature := "sha256=e934a48f64e97cdf242082bba554fd53b0029af576fe57c82d5f9820c54be139"
  messageType := "notification"
  secret := "s3cret"
  sent := ⟨0, 0⟩
  hasMessageId := Effect.toOption_eq_some.mp (by decide +kernel)
  hasTimestamp := Effect.toOption_eq_some.mp (by decide +kernel)
  hasSignature := Effect.toOption_eq_some.mp (by decide +kernel)
  hasType := Effect.toOption_eq_some.mp (by decide +kernel)
  hasSecret := by decide +kernel
  verifies := by decide +kernel
  reads := by decide +kernel
  isFresh := by decide +kernel

/-- Its event. -/
def sampleEvent : TriggerEvent :=
  ChannelUpdate.event ⟨"7", "ada", "", none, none⟩ "m1" "channel.update" ⟨0, 0⟩

theorem callback_sample : Callback.of? sampleSigned.fields sampleSigned.sent sampleBody =
    .ok (.notification (some sampleEvent)) :=
  Effect.toOption_eq_some.mp (by decide +kernel)

theorem new_sample : ¬ sampleService.ledger.HasSeen source sampleSigned.messageId := by
  rintro ⟨x, hx, -⟩
  cases hx

theorem ingest_sample : ingest source sampleHeaders sampleBody sampleService =
    (.ok .queued, mailed (noted sampleService "m1") sampleEvent) :=
  ingest_notification sampleSigned callback_sample new_sample rfl

/-! ## What a callback changes -/

/-- **Callbacks that are not believed change nothing, and neither do those that fail.** For every provider,
headers, body and state, whatever the trigger queue refuses: an error leaves the state as it was; and an
answer leaves it so too, unless the provider is the one there is and the callback is signed, not too old,
and a notification with a new message id. Then this id is the one new entry of the ledger; and `queued`
is answered exactly when one message has come to the trigger queue, which carries an event with that
id. Such a notification, if it has an event that the queue takes, is queued. -/
theorem ingest_effects (provider : String) (headers : Http.Headers) (body : Bytes) (s : Service) :
    (match ingest provider headers body s with
    | (.error _, s') => s' = s
    | (.ok ack, s') =>
      (ack ≠ .queued ∧ s' = s) ∨ provider = source ∧ ∃ c : Signed s headers body,
        c.IsNotification ∧ ¬ s.ledger.HasSeen source c.messageId ∧
          ((ack ≠ .queued ∧ s' = noted s c.messageId) ∨
            ack = .queued ∧ ∃ e at', s' = mailed (noted s c.messageId) e ∧
              TriggerEvent.ofPayload? e.payload = some { e with occurredAt := at' } ∧
                e.messageId = c.messageId)) ∧
    ∀ (c : Signed s headers body) (e : TriggerEvent), provider = source →
      Callback.of? c.fields c.sent body = .ok (.notification (some e)) →
      ¬ s.ledger.HasSeen source c.messageId →
      s.refuses MessageTable.triggerQueue e.payload = false →
      ingest provider headers body s = (.ok .queued, mailed (noted s c.messageId) e) := by
  constructor
  case right =>
    rintro c e rfl hcallback hnew htakes
    exact ingest_notification c hcallback hnew htakes
  have hspec := ingest_spec provider headers body s
  generalize ingest provider headers body s = answer at hspec
  obtain ⟨r, s'⟩ := answer
  cases hspec with
  | failed e => rfl
  | quiet ack silent => exact .inl ⟨silent, rfl⟩
  | noted c known notification new reason =>
    exact .inr ⟨known, c, notification, new, .inl ⟨by simp, rfl⟩⟩
  | queued c known notification new e messageId calendar =>
    obtain ⟨at', hpayload⟩ := TriggerEvent.ofPayload?_payload calendar
    exact .inr ⟨known, c, notification, new, .inr ⟨rfl, e, at', rfl, hpayload, messageId⟩⟩

/-- A notification that is queued. -/
theorem ingest_effects_queued : ¬ sampleService.ledger.HasSeen source "m1" ∧
    ingest source sampleHeaders sampleBody sampleService =
      (.ok .queued, mailed (noted sampleService "m1") sampleEvent) :=
  ⟨new_sample, (ingest_effects source sampleHeaders sampleBody sampleService).2 sampleSigned sampleEvent rfl
    callback_sample new_sample rfl⟩

end Webhook
end Syndication
