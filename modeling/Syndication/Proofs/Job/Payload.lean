import Syndication.Job.Basic
import Syndication.Proofs.Json.RoundTrip
import Syndication.Proofs.Time.Stamp

/-!
# Proofs.Job.Payload — a queued document carries its job

The document of a job is a record with its members in the order of their declaration, each under its
one name, so reading it finds every member in its place. All of them are read as they were written;
the instant of a scheduled post must be one that the calendar holds, or it could not be written, and is
read as itself if it is one that can be held.

## Contents
* `written_toJson`         — the document of a job is one that can be read
* `asList?_map`            — lists
* `asNat?_int`             — numbers
* `Instant.ofJson?_toJson`, `isHeld_of_optional` — instants
* `members`                — the members of the document
* `ofPayload?_payload`     — the job that a document carries
* `ofPayload?_payload_settled` — with an instant that may lie in any leap second
* `isHeld_of_ofPayload?`   — the instant that a document gives
-/

namespace Syndication

namespace Json

@[simp] theorem asText?_text (s : String) : (text s).asText? = some s := rfl

/-- Items that are read back one by one are read back as a list. -/
theorem asList?_map {α : Type} {read : Json → Option α} {write : α → Json} {items : List α}
    (h : ∀ a ∈ items, read (write a) = some a) :
    (array (items.map write)).asList? read = some items := by
  show (items.map write).mapM read = some items
  induction items with
  | nil => rfl
  | cons a items ih =>
    rw [List.forall_mem_cons] at h
    simp [h.1, ih h.2]

@[simp] theorem asList?_texts (ss : List String) : (texts ss).asList? asText? = some ss :=
  asList?_map fun s _ => asText?_text s

theorem isDigit_toDigits (n : Nat) : ∀ c ∈ Nat.toDigits 10 n, c.isDigit = true := fun _ hc =>
  Nat.isDigit_of_mem_toDigits (by decide) (by decide) hc

theorem asNat?_toDigits (n : Nat) : (number (String.ofList (Nat.toDigits 10 n))).asNat? = some n := by
  have hvalue := Nat.ofDigitChars_ten_toDigits (n := n)
  rw [Nat.ofDigitChars_eq_foldl] at hvalue
  rw [asNat?, String.toList_ofList, if_pos (List.all_eq_true.mpr (isDigit_toDigits n))]
  exact congrArg some hvalue

theorem asNat?_int (n : Nat) : (int n).asNat? = some n := by
  have hspelled : toString (n : Int) = String.ofList (Nat.toDigits 10 n) := by
    rw [← String.toList_inj, String.toList_ofList, repr_toList, if_neg (by omega),
      Int.natAbs_natCast]
  rw [int, hspelled, asNat?_toDigits]

end Json

/-- An instant in the calendar is read back. -/
theorem Instant.ofJson?_toJson {t : Instant} (h : t.InCalendar) : ofJson? t.toJson = some t.asRead := by
  rw [ofJson?, toJson, Json.asText?_text, Option.bind_some, loose?_text_eq h]

theorem Instant.isHeld_of_ofJson? {j : Json} {t : Instant} (h : ofJson? j = some t) : t.IsHeld := by
  obtain ⟨s, -, hs⟩ := Option.bind_eq_some_iff.mp h
  exact Stamp.isHeld_of_loose? hs

/-- An instant that a member gives, if it gives one, can be held. -/
theorem Instant.isHeld_of_optional {m : Json.Members} {i : Nat} {read : Option Instant}
    (h : m.optional i ofJson? = some read) : ∀ t ∈ read, t.IsHeld := by
  rintro t rfl
  simp only [Json.Members.optional, Json.Members.withDefault] at h
  split at h
  · simp only [Json.asNullable?] at h
    split at h
    · cases h
    · obtain ⟨t', hread, heq⟩ := Option.map_eq_some_iff.mp h
      rw [← Option.some.inj heq]
      exact isHeld_of_ofJson? hread
  · cases h

namespace Job

/-- The instant of a scheduled job can be written. -/
def InCalendar (j : Job) : Prop := ∀ t ∈ j.postAt, t.InCalendar

theorem written_toJson (j : Job) : Json.Written j.toJson := by
  apply Json.Written.record
  intro m hm
  simp only [List.mem_append, List.mem_cons, List.not_mem_nil, or_false] at hm
  rcases hm with ((rfl | rfl | rfl | rfl) | hm) | rfl | rfl
  · exact .text _
  · exact .text _
  · exact .text _
  · exact .text _
  · cases h : j.postAt with
    | none => rw [h] at hm; cases hm
    | some t =>
      rw [h] at hm
      obtain rfl := List.mem_singleton.mp hm
      exact .text _
  · exact .int _
  · exact .texts _

@[simp] theorem statusOfJson?_code (s : JobStatus) : statusOfJson? (.int s.code) = some s := by
  rw [statusOfJson?, Json.asNatBelow?, Json.asNat?_int]
  cases s <;> rfl

/-- The members of the document of a job; only the instant may be missing. -/
def members (j : Job) : Json.Members :=
  ⟨[some (.text j.rootId), some (.text j.jobId), some (.text j.userId), some (.text j.target),
    j.postAt.map Instant.toJson, some (.int j.status.code), some (.texts j.media)]⟩

/-- Every member is found in its place. -/
theorem members_toJson (j : Job) :
    Json.Members.of? [["rootPostId"], ["postId"], ["user"], ["targetPlatformServiceId"],
      ["postAt"], ["status"], ["media"]] j.toJson = some j.members := by
  obtain ⟨rootId, jobId, userId, target, postAt, status, media⟩ := j
  cases postAt <;>
    simp [members, toJson, Json.record, Json.member?, Json.Members.of?, Json.Members.insert?,
      Json.Members.position?, List.findIdx?_cons]

/-- The instant of the post is read back. -/
theorem optional_postAt {j : Job} (h : j.InCalendar) :
    j.members.optional 4 Instant.ofJson? = some (j.postAt.map Instant.asRead) := by
  cases hp : j.postAt with
  | none =>
    simp [members, hp, Json.Members.optional, Json.Members.withDefault, Json.Members.get?]
  | some t =>
    have hnullable : t.toJson.asNullable? Instant.ofJson? = some (some t.asRead) :=
      congrArg (·.map some) (Instant.ofJson?_toJson (h t hp))
    simp [members, hp, Json.Members.optional, Json.Members.withDefault, Json.Members.get?, hnullable]

/-- The document of a job carries the job, with the instant as it is read. -/
theorem ofPayload?_payload_asRead {j : Job} (h : j.InCalendar) :
    ofPayload? j.payload = some { j with postAt := j.postAt.map Instant.asRead } := by
  rw [ofPayload?, payload, Json.ofText?_compact (written_toJson _), Option.bind_some, ofJson?,
    members_toJson]
  simp only [Option.bind_eq_bind, Option.bind_some, optional_postAt h]
  simp [members, Json.Members.required, Json.Members.withDefault, Json.Members.get?]

/-- **A job travels whole**, up to the instant of the post. -/
theorem ofPayload?_payload {j : Job} (h : j.InCalendar) :
    ∃ postAt, ofPayload? j.payload = some { j with postAt := postAt } :=
  ⟨_, ofPayload?_payload_asRead h⟩

/-- **A job travels as it is** if its instant can be held. -/
theorem ofPayload?_payload_eq {j : Job} (h : ∀ t ∈ j.postAt, t.IsHeld) :
    ofPayload? j.payload = some j := by
  have hread : j.postAt.map Instant.asRead = j.postAt := by
    cases hp : j.postAt with
    | none => rfl
    | some t => exact congrArg some (Instant.asRead_eq (h t hp))
  rw [ofPayload?_payload_asRead fun t ht => (h t ht).calendar, hread]

/-- **Whatever its instant**, a job travels with nothing changed but that the instant is settled. -/
theorem ofPayload?_payload_settled {j : Job} (h : ∀ t ∈ j.postAt, t.IsRepresented) :
    ofPayload? j.payload = some { j with postAt := j.postAt.map Instant.settled } := by
  have hread : j.postAt.map Instant.asRead = j.postAt.map Instant.settled :=
    Option.map_congr fun t ht => Instant.asRead_eq_settled (h t ht)
  rw [ofPayload?_payload_asRead fun t ht => (h t ht).calendar, hread]

/-- A job is the same with its instant settled exactly if a leap second there ends a minute. -/
theorem settled_eq_iff {j : Job} :
    { j with postAt := j.postAt.map Instant.settled } = j ↔ ∀ t ∈ j.postAt, t.EndsMinute := by
  obtain ⟨rootId, jobId, userId, target, postAt, status, media⟩ := j
  cases postAt with
  | none => simp
  | some t => simp [Instant.settled_eq_iff]

/-- The instant of a job that was read can be held. -/
theorem isHeld_of_ofPayload? {s : String} {j : Job} (h : ofPayload? s = some j) :
    ∀ t ∈ j.postAt, t.IsHeld := by
  obtain ⟨document, -, h⟩ := Option.bind_eq_some_iff.mp h
  simp only [ofJson?, Option.bind_eq_bind, Option.bind_eq_some_iff] at h
  obtain ⟨m, -, _, -, _, -, _, -, _, -, postAt, hpostAt, _, -, _, -, hj⟩ := h
  rw [← Option.some.inj hj]
  exact Instant.isHeld_of_optional hpostAt

end Job
end Syndication
