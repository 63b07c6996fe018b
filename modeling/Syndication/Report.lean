import Syndication.Json.Members
import Syndication.Job.Status

/-!
# Report — what a platform says about a delivery

A platform that took a delivery names the post it made of it and the parts it could not post. A
delivery with such parts is posted with faults.

## Contents
* `PartFailure`, `DeliveryReport`, `DeliveryReport.status`
* their written forms
-/

namespace Syndication

/-- A part of a post that was not posted, and why. -/
structure PartFailure where
  part : String
  error : String
  deriving DecidableEq, Repr

namespace PartFailure

def toJson (p : PartFailure) : Json := .record [("part", .text p.part), ("error", .text p.error)]

def ofJson? (j : Json) : Option PartFailure := do
  let m ← Json.Members.of? [["part"], ["error"]] j
  return { part := ← m.required 0 Json.asText?, error := ← m.required 1 Json.asText? }

end PartFailure

/-- What a platform says about a delivery that it took. -/
structure DeliveryReport where
  platformPostId : Option String := none
  failedParts : List PartFailure := []
  deriving DecidableEq, Repr

namespace DeliveryReport

/-- Posted, or posted with faults if parts failed. -/
def status (r : DeliveryReport) : JobStatus :=
  if r.failedParts.isEmpty then .posted else .someFaults

def toJson (r : DeliveryReport) : Json :=
  .record [("platformPostId", .orNull .text r.platformPostId),
    ("failedParts", .array (r.failedParts.map PartFailure.toJson))]

def ofJson? (j : Json) : Option DeliveryReport := do
  let m ← Json.Members.of? [["platformPostId"], ["failedParts"]] j
  return {
    platformPostId := ← m.optional 0 Json.asText?
    failedParts := ← m.withDefault 1 (·.asList? PartFailure.ofJson?) [] }

end DeliveryReport
end Syndication
