import Syndication.Proofs.Trigger.Payload

/-!
# Proofs.Queue.Payload — what is taken from a queue is what was put there

Jobs and events travel as documents, and both are read back as they were: every text, list and status,
what is missing and what is there, and the instant with its fraction. A leap second is written as second
60 of its minute, so it has to be the last one there: one that was set within a minute is written like the
second after it, and that is what is read. No reader gives such an instant, so a job or an event that came
out of one queue can be put into another without changing.

## Contents
* `Job.requeued`, `TriggerEvent.requeued` — documents that were read
* `payloads_carryWhole`                   — jobs and events of any content
* `payloads_meet`                         — a leap second within a minute
-/

namespace Syndication

/-- A job that was read is written so that it is read again. -/
theorem Job.requeued {s : String} {j : Job} (h : ofPayload? s = some j) :
    ofPayload? j.payload = some j :=
  ofPayload?_payload_eq (isHeld_of_ofPayload? h)

/-- An event that was read is written so that it is read again. -/
theorem TriggerEvent.requeued {s : String} {e : TriggerEvent} (h : ofPayload? s = some e) :
    ofPayload? e.payload = some e :=
  ofPayload?_payload_eq (isHeld_of_ofPayload? h)

/-- **What is taken from a queue is what was put there.** The document of a job is read as that job and
the document of an event as that event, exactly if a leap second that they name ends a minute. In any
case all but the instant is as it was, and a leap second within a minute has become the second after it. -/
theorem payloads_carryWhole :
    (∀ j : Job, (∀ t ∈ j.postAt, t.IsRepresented) →
      Job.ofPayload? j.payload = some { j with postAt := j.postAt.map Instant.settled } ∧
        (Job.ofPayload? j.payload = some j ↔ ∀ t ∈ j.postAt, t.EndsMinute)) ∧
      ∀ e : TriggerEvent, e.occurredAt.IsRepresented →
        TriggerEvent.ofPayload? e.payload = some { e with occurredAt := e.occurredAt.settled } ∧
          (TriggerEvent.ofPayload? e.payload = some e ↔ e.occurredAt.EndsMinute) := by
  constructor
  · intro j hj
    have hread := Job.ofPayload?_payload_settled hj
    refine ⟨hread, ?_⟩
    rw [hread, Option.some.injEq]
    exact Job.settled_eq_iff
  · intro e he
    have hread := TriggerEvent.ofPayload?_payload_settled he
    refine ⟨hread, ?_⟩
    rw [hread, Option.some.injEq]
    exact TriggerEvent.settled_eq_iff

/-- A job with every kind of character in its texts, for the leap second at the end of June of the year
12026, and an event in a leap second of the year −44. -/
theorem payloads_carryWhole_leapSeconds :
    let job : Job := ⟨"r\"\\/", "\x00\x1f\x7f\u2028", "😀é", "", some ⟨317352383999, 1999999999⟩,
      .faulted, ["", "a\nb", "𝕏"]⟩
    let event : TriggerEvent := ⟨"s", "\"", "\\u0041", "\t", "\r", "k", none, some "", some "null",
      ⟨-63549273601, 1500000000⟩⟩
    Job.ofPayload? job.payload = some job ∧ TriggerEvent.ofPayload? event.payload = some event := by
  intro job event
  refine ⟨(payloads_carryWhole.1 job ?_).2.mpr ?_, (payloads_carryWhole.2 event ?_).2.mpr ?_⟩
  · rintro t ⟨⟩
    exact ⟨by decide, by decide⟩
  · rintro t ⟨⟩
    decide
  · exact ⟨by decide, by decide⟩
  · decide

/-- A job for an instant. -/
def jobAt (t : Instant) : Job := ⟨"r", "p", "u", "d", some t, .queued, []⟩

/-- An event that happened at an instant. -/
def eventAt (t : Instant) : TriggerEvent := ⟨"s", "m", "t", "a", "n", "k", none, none, none, t⟩

/-- **A leap second within a minute** has the document of the second after it. Read back, the job is due a
second later than its record says. -/
theorem payloads_meet :
    (⟨30, 1500000000⟩ : Instant).IsRepresented ∧
      (jobAt ⟨30, 1500000000⟩).payload =
        "\x7b\"rootPostId\":\"r\",\"postId\":\"p\",\"user\":\"u\",\"targetPlatformServiceId\":\"d\"," ++
          "\"postAt\":\"1970-01-01T00:00:31.500Z\",\"status\":0,\"media\":[]\x7d" ∧
      Job.ofPayload? (jobAt ⟨30, 1500000000⟩).payload = some (jobAt ⟨31, 500000000⟩) ∧
      Job.ofPayload? (jobAt ⟨30, 1500000000⟩).payload ≠ some (jobAt ⟨30, 1500000000⟩) ∧
      (JobRecord.queued (jobAt ⟨30, 1500000000⟩) 0).postAt = some 30 ∧
      (JobRecord.queued (jobAt ⟨31, 500000000⟩) 0).postAt = some 31 ∧
      TriggerEvent.ofPayload? (eventAt ⟨30, 1500000000⟩).payload ≠ some (eventAt ⟨30, 1500000000⟩) := by
  have hinstant : (⟨30, 1500000000⟩ : Instant).IsRepresented := ⟨by decide, by decide⟩
  have hjob : Job.ofPayload? (jobAt ⟨30, 1500000000⟩).payload = some (jobAt ⟨31, 500000000⟩) := by
    rw [Job.ofPayload?_payload_settled (by rintro t ⟨⟩; exact hinstant)]
    rfl
  have hevent : TriggerEvent.ofPayload? (eventAt ⟨30, 1500000000⟩).payload =
      some (eventAt ⟨31, 500000000⟩) := by
    rw [TriggerEvent.ofPayload?_payload_settled hinstant]
    rfl
  refine ⟨hinstant, by decide +kernel, hjob, ?_, rfl, rfl, ?_⟩
  · rw [hjob]
    decide
  · rw [hevent]
    decide

end Syndication
