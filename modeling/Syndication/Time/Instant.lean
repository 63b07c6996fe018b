import Syndication.Text.Ascii
import Syndication.Time.Calendar
import Syndication.Time.Span

/-!
# Time.Instant — points in time and how they are written

An instant is a second counted from 1970 and a part of it in nanoseconds. A leap second is the last
second of a minute with a part of one second or more, so it needs no number of its own. Written, an
instant is a UTC date and time with as many digits of the fraction as it takes, in threes.

## Contents
* `Instant`, `ofMillis`, `secondOfDay`, `IsLeapSecond`
* `nanosSince`, `secondsSince`, `spanSince` — the time from one instant to another
* `Instant.text`, `clockText`               — the two written forms
-/

namespace Syndication

/-- A point in time: `seconds` since 1970-01-01T00:00:00Z and `nanos` past them. A value of `nanos`
of a second or more lies in the leap second that follows `seconds`. -/
structure Instant where
  seconds : Int
  nanos : Nat
  deriving DecidableEq, Repr, Inhabited

namespace Instant

/-- The instant of a reading in milliseconds. -/
def ofMillis (ms : Int) : Instant := ⟨ms.fdiv 1000, ((ms.fmod 1000) * 1000000).toNat⟩

/-- Seconds since midnight. -/
def secondOfDay (t : Instant) : Int := t.seconds.fmod 86400

/-- The instant lies in a leap second. -/
def IsLeapSecond (t : Instant) : Prop := nanosPerSec ≤ t.nanos

instance (t : Instant) : Decidable t.IsLeapSecond := by unfold IsLeapSecond; infer_instance

/-- Nanoseconds from `earlier` to `later`. A leap second counts once it has been passed, which is
read off the time of day of the two instants. -/
def nanosSince (later earlier : Instant) : Int :=
  let passed : Int :=
    if earlier.secondOfDay < later.secondOfDay then (if earlier.IsLeapSecond then 1 else 0)
    else if later.secondOfDay < earlier.secondOfDay then (if later.IsLeapSecond then -1 else 0)
    else 0
  (later.seconds - earlier.seconds + passed) * nanosPerSec + ((later.nanos : Int) - earlier.nanos)

/-- Whole seconds from `earlier` to `later`, the fraction cut off. -/
def secondsSince (later earlier : Instant) : Int := (nanosSince later earlier).tdiv nanosPerSec

/-- The span from `earlier` to `later`, or no time if `later` is the earlier one. -/
def spanSince (later earlier : Instant) : Span := ⟨(nanosSince later earlier).toNat⟩

/-! ## Written forms -/

/-- A year in at least four digits, with a sign if it lies outside 0 to 9999. -/
def yearText (year : Int) : String :=
  if year < 0 then "-" ++ Text.zeroPadded 4 year.natAbs
  else if year ≤ 9999 then Text.zeroPadded 4 year.natAbs
  else "+" ++ Text.zeroPadded 4 year.natAbs

/-- The digits of a fraction of a second: none, three, six or nine. -/
def fractionText (nanos : Nat) : String :=
  if nanos = 0 then ""
  else if nanos % 1000000 = 0 then "." ++ Text.zeroPadded 3 (nanos / 1000000)
  else if nanos % 1000 = 0 then "." ++ Text.zeroPadded 6 (nanos / 1000)
  else "." ++ Text.zeroPadded 9 nanos

/-- Year, month and day. -/
def dateText (d : Date) : String :=
  yearText d.year ++ "-" ++ Text.zeroPadded 2 d.month ++ "-" ++ Text.zeroPadded 2 d.day

/-- Hour, minute and second; `sec` may be 60. -/
def timeText (secondOfDay sec : Nat) : String :=
  Text.zeroPadded 2 (secondOfDay / 3600) ++ ":" ++ Text.zeroPadded 2 (secondOfDay / 60 % 60) ++ ":" ++
    Text.zeroPadded 2 sec

/-- The instant in UTC with `T`, a fraction where there is one, and `Z`. -/
def text (t : Instant) : String :=
  let ofDay := t.secondOfDay.toNat
  let leap := decide t.IsLeapSecond
  let sec := ofDay % 60 + (if leap then 1 else 0)
  dateText (Date.ofDays (t.seconds.fdiv 86400)) ++ "T" ++ timeText ofDay sec ++
    fractionText (t.nanos % nanosPerSec) ++ "Z"

/-- The calendar holds the day of this second. -/
def inCalendar (seconds : Int) : Bool :=
  let d := Date.ofDays (seconds.fdiv 86400)
  Date.minYear ≤ d.year && d.year ≤ Date.maxYear

/-- A second as a date and a time with a blank between them; a second outside the calendar as its
number. -/
def clockText (seconds : Int) : String :=
  if inCalendar seconds then
    let ofDay := (seconds.fmod 86400).toNat
    dateText (Date.ofDays (seconds.fdiv 86400)) ++ " " ++ timeText ofDay (ofDay % 60)
  else toString seconds

end Instant
end Syndication
