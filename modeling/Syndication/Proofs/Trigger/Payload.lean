import Syndication.Proofs.Job.Payload
import Syndication.Trigger.Basic

/-!
# Proofs.Trigger.Payload — a queued document carries its event

The document of an event names all its members; what an event does not say stands there as `null`. Read
back, every member is what it was, and so is the instant if it is one that can be held. An event that
came with a callback happened at an instant that was read, which can be written.

## Contents
* `written_toJson`, `members`, `members_toJson`
* `ofPayload?_payload`        — the event that a document carries
* `ofPayload?_payload_settled` — with an instant that may lie in any leap second
* `isHeld_of_ofPayload?`      — the instant that a document gives
-/

namespace Syndication

namespace Json

/-- A text or nothing is read back. -/
theorem asNullable?_orNull_text (s : Option String) : (orNull text s).asNullable? asText? = some s := by
  cases s <;> rfl

theorem written_orNull_text (s : Option String) : Written (orNull text s) := by
  cases s with
  | none => exact .null
  | some s => exact .text s

end Json

namespace TriggerEvent

/-- The instant of the event can be written. -/
def InCalendar (e : TriggerEvent) : Prop := e.occurredAt.InCalendar

theorem written_toJson (e : TriggerEvent) : Json.Written e.toJson := by
  apply Json.Written.record
  intro m hm
  simp only [List.mem_cons, List.not_mem_nil, or_false] at hm
  rcases hm with rfl | rfl | rfl | rfl | rfl | rfl | rfl | rfl | rfl | rfl
  · exact .text _
  · exact .text _
  · exact .text _
  · exact .text _
  · exact .text _
  · exact .text _
  · exact Json.written_orNull_text _
  · exact Json.written_orNull_text _
  · exact Json.written_orNull_text _
  · exact .text _

/-- The members of the document of an event, none of which is missing. -/
def members (e : TriggerEvent) : Json.Members :=
  ⟨[some (.text e.source), some (.text e.messageId), some (.text e.accountType),
    some (.text e.accountId), some (.text e.accountName), some (.text e.kind),
    some (.orNull .text e.title), some (.orNull .text e.category), some (.orNull .text e.url),
    some e.occurredAt.toJson]⟩

/-- Every member is found in its place. -/
theorem members_toJson (e : TriggerEvent) :
    Json.Members.of? [["source"], ["messageId"], ["externalAccountType"], ["externalAccountId"],
      ["accountName"], ["kind"], ["title"], ["category"], ["url"], ["occurredAt"]] e.toJson =
      some e.members := by
  simp [members, toJson, Json.record, Json.Members.of?, Json.Members.insert?,
    Json.Members.position?, List.findIdx?_cons]

/-- The document of an event carries the event, with the instant as it is read. -/
theorem ofPayload?_payload_asRead {e : TriggerEvent} (h : e.InCalendar) :
    ofPayload? e.payload = some { e with occurredAt := e.occurredAt.asRead } := by
  rw [ofPayload?, payload, Json.ofText?_compact (written_toJson _), Option.bind_some, ofJson?,
    members_toJson]
  simp [members, Json.Members.required, Json.Members.optional, Json.Members.withDefault,
    Json.Members.get?, Json.asNullable?_orNull_text, Instant.ofJson?_toJson h]

/-- **An event travels whole**, up to the instant at which it happened. -/
theorem ofPayload?_payload {e : TriggerEvent} (h : e.InCalendar) :
    ∃ at', ofPayload? e.payload = some { e with occurredAt := at' } :=
  ⟨_, ofPayload?_payload_asRead h⟩

/-- **An event travels as it is** if its instant can be held. -/
theorem ofPayload?_payload_eq {e : TriggerEvent} (h : e.occurredAt.IsHeld) :
    ofPayload? e.payload = some e := by
  rw [ofPayload?_payload_asRead h.calendar, Instant.asRead_eq h]

/-- **Whatever its instant**, an event travels with nothing changed but that the instant is settled. -/
theorem ofPayload?_payload_settled {e : TriggerEvent} (h : e.occurredAt.IsRepresented) :
    ofPayload? e.payload = some { e with occurredAt := e.occurredAt.settled } := by
  rw [ofPayload?_payload_asRead h.calendar, Instant.asRead_eq_settled h]

/-- An event is the same with its instant settled exactly if a leap second there ends a minute. -/
theorem settled_eq_iff {e : TriggerEvent} :
    { e with occurredAt := e.occurredAt.settled } = e ↔ e.occurredAt.EndsMinute := by
  obtain ⟨source, messageId, accountType, accountId, accountName, kind, title, category, url, occurredAt⟩ := e
  simp [Instant.settled_eq_iff]

/-- The instant of an event that was read can be held. -/
theorem isHeld_of_ofPayload? {s : String} {e : TriggerEvent} (h : ofPayload? s = some e) :
    e.occurredAt.IsHeld := by
  obtain ⟨document, -, h⟩ := Option.bind_eq_some_iff.mp h
  simp only [ofJson?, Option.bind_eq_bind, Option.bind_eq_some_iff] at h
  obtain ⟨m, -, _, -, _, -, _, -, _, -, _, -, _, -, _, -, _, -, _, -, occurredAt, hread, he⟩ := h
  obtain ⟨member, -, hmember⟩ := Option.bind_eq_some_iff.mp hread
  rw [← Option.some.inj he]
  exact Instant.isHeld_of_ofJson? hmember

end TriggerEvent
end Syndication
