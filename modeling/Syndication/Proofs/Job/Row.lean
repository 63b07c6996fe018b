import Syndication.Job.Row
import Syndication.Proofs.Job.Payload

/-!
# Proofs.Job.Row — a row gives its record back

The parts that failed stand in their cell as a document that the reader of JSON takes, and no part stands
there as nothing, which is read as no part. Every other cell holds what it is read as, so each record is
read back from its row as it is.

## Contents
* `PartFailure.ofJson?_toJson`, `failures?_row` — the parts that failed
* `record?_row`                                 — the record of a row
-/

namespace Syndication

/-! ## Parts that failed -/

namespace PartFailure

theorem written_toJson (p : PartFailure) : Json.Written p.toJson := by
  apply Json.Written.record
  intro m hm
  simp only [List.mem_cons, List.not_mem_nil, or_false] at hm
  rcases hm with rfl | rfl
  · exact .text _
  · exact .text _

theorem ofJson?_toJson (p : PartFailure) : ofJson? p.toJson = some p := by
  have hmembers : Json.Members.of? [["part"], ["error"]] p.toJson =
      some ⟨[some (.text p.part), some (.text p.error)]⟩ := by
    simp [toJson, Json.record, Json.Members.of?, Json.Members.insert?, Json.Members.position?,
      List.findIdx?_cons]
  rw [ofJson?, hmembers]
  rfl

end PartFailure

/-- The failed parts of a record are read from its row. -/
theorem JobRow.failures?_row (r : JobRecord) : r.row.failures? = some r.failedParts := by
  rw [failures?, JobRecord.row, encodeParts]
  cases hempty : r.failedParts.isEmpty with
  | true => exact congrArg some (List.isEmpty_iff.mp hempty).symm
  | false =>
    have hwritten : Json.Written (.array (r.failedParts.map PartFailure.toJson)) := by
      apply Json.Written.array
      intro item hitem
      obtain ⟨p, -, rfl⟩ := List.mem_map.mp hitem
      exact p.written_toJson
    show (Json.ofText? _).bind _ = _
    rw [Json.ofText?_compact hwritten, Option.bind_some]
    exact Json.asList?_map fun p _ => p.ofJson?_toJson

/-! ## Rows -/

theorem JobRow.status?_row (r : JobRecord) : r.row.status? = some r.status := by
  have hoctet : 0 ≤ r.row.status ∧ r.row.status < 256 := by
    show 0 ≤ (r.status.code : Int) ∧ (r.status.code : Int) < 256
    cases r.status <;> decide
  rw [status?, if_pos hoctet]
  exact JobStatus.ofCode?_code r.status

/-- **A row gives its record back.** -/
theorem JobRow.record?_row (r : JobRecord) : r.row.record? = some r := by
  rw [record?, status?_row, failures?_row]
  rfl

end Syndication
