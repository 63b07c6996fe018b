import Syndication.Json.Basic
import Syndication.Time.Instant

/-!
# Json.Time — spans and instants as numbers

Where a document is meant for programs, a span or an instant is a record of whole seconds and the
nanoseconds past them.

## Contents
* `Span.toJson`, `Instant.toUnixJson`
-/

namespace Syndication

/-- Whole seconds, and the nanoseconds past them. -/
def secondsJson (seconds : Int) (nanos : Nat) : Json :=
  .record [("s", .int seconds), ("ns", .int nanos)]

/-- A span as a record. -/
def Span.toJson (d : Span) : Json := secondsJson d.secs d.subsecNanos

/-- An instant as a record. -/
def Instant.toUnixJson (t : Instant) : Json := secondsJson t.seconds t.nanos

end Syndication
