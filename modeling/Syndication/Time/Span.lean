import Syndication.Word

/-!
# Time.Span — lengths of time

A span is a whole number of nanoseconds, never negative, and at most `2^64 - 1` seconds and
`999999999` nanoseconds. Arithmetic that would leave this range stops at its ends.

## Contents
* `Span`, `ofSecs`, `ofMillis`, `secs`, `subsecNanos`, `millis`
* `Span.longest`                          — the greatest span
* `mul?`, `sub`                           — a multiple that may be too long, a difference cut at zero
* `clampMillis`, `clampSecs`              — whole units that fit a signed 64-bit clock
-/

namespace Syndication

/-- Nanoseconds in a second. -/
def nanosPerSec : Nat := 1000000000

/-- The greatest value of a signed 64-bit clock. -/
def clockMax : Int := 9223372036854775807

/-- A number read as a signed 64-bit word. -/
def toSigned64 (n : Nat) : Int := Int.bmod n Word.range64

/-- A length of time in nanoseconds. -/
structure Span where
  nanos : Nat
  deriving DecidableEq, Repr, Inhabited

namespace Span

/-- No time at all. -/
def zero : Span := ⟨0⟩

/-- The greatest span: `2^64 - 1` seconds and one nanosecond less than a second. -/
def longest : Span := ⟨18446744073709551615 * nanosPerSec + 999999999⟩

/-- Whole seconds. -/
def ofSecs (n : Nat) : Span := ⟨n * nanosPerSec⟩

/-- Whole milliseconds. -/
def ofMillis (n : Nat) : Span := ⟨n * 1000000⟩

/-- The whole seconds of a span. -/
def secs (d : Span) : Nat := d.nanos / nanosPerSec

/-- The nanoseconds past the last whole second. -/
def subsecNanos (d : Span) : Nat := d.nanos % nanosPerSec

/-- The whole milliseconds of a span. -/
def millis (d : Span) : Nat := d.nanos / 1000000

/-- A multiple, unless it is longer than the greatest span. -/
def mul? (d : Span) (n : Nat) : Option Span :=
  if d.nanos * n ≤ longest.nanos then some ⟨d.nanos * n⟩ else none

/-- The difference, or no time if the second span is the longer one. -/
def sub (a b : Span) : Span := ⟨a.nanos - b.nanos⟩

/-- An `n`-th part, rounded down to a nanosecond. -/
def div (d : Span) (n : Nat) : Span := ⟨d.nanos / n⟩

/-- The shorter of two spans. -/
def min (a b : Span) : Span := if a.nanos ≤ b.nanos then a else b

/-- Whole milliseconds, at most what a signed 64-bit clock holds. -/
def clampMillis (d : Span) : Int := Min.min (d.millis : Int) clockMax

end Span

/-- A clock reading in milliseconds moved on by a span, stopping at the end of the clock. -/
def laterBy (now : Int) (d : Span) : Int := Min.min (now + d.clampMillis) clockMax

/-- The whole second that a millisecond reading falls into. -/
def secondOf (millis : Int) : Int := Int.fdiv millis 1000

end Syndication
