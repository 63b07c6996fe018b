import Syndication.Text.Ascii
import Syndication.Text.Blank
import Syndication.Time.Span

/-!
# Time.Phrase — reading spans that people write

A span is written as numbers with units, such as `1h 30m` or `2weeks`. The units follow their numbers
with or without blanks between, a number may have a decimal fraction, and the spans add up. A month is
30.44 days and a year 365.25 days. A lone zero needs no unit.

## Contents
* `TimeUnit`, `TimeUnit.ofName?`, `whole?`, `part?`
* `Span.ofPhrase?`
-/

namespace Syndication

/-- A unit: so many seconds, or so many nanoseconds if it is shorter than a second. -/
inductive TimeUnit where
  | nanos (n : Nat)
  | secs (n : Nat)
  deriving DecidableEq, Repr

namespace TimeUnit

/-- The unit of a name. Case tells minutes from months. -/
def ofName? (name : String) : Option TimeUnit :=
  if name ∈ ["nanos", "nsec", "ns"] then some (.nanos 1)
  else if name ∈ ["usec", "us", "µs"] then some (.nanos 1000)
  else if name ∈ ["millis", "msec", "ms"] then some (.nanos 1000000)
  else if name ∈ ["seconds", "second", "secs", "sec", "s"] then some (.secs 1)
  else if name ∈ ["minutes", "minute", "min", "mins", "m"] then some (.secs 60)
  else if name ∈ ["hours", "hour", "hr", "hrs", "h"] then some (.secs 3600)
  else if name ∈ ["days", "day", "d"] then some (.secs 86400)
  else if name ∈ ["weeks", "week", "wks", "wk", "w"] then some (.secs 604800)
  else if name ∈ ["months", "month", "M"] then some (.secs 2630016)
  else if name ∈ ["years", "year", "yrs", "yr", "y"] then some (.secs 31557600)
  else none

/-- The greatest number in any part of a phrase. -/
def maxCount : Nat := 18446744073709551615

/-- A number that is not too great. -/
def bounded? (n : Nat) : Option Nat := if n ≤ maxCount then some n else none

/-- So many units, in nanoseconds. -/
def whole? (n : Nat) : TimeUnit → Option Nat
  | .nanos unit => bounded? (n * unit)
  | .secs unit => (bounded? (n * unit)).map (· * nanosPerSec)

/-- The part `numerator / denominator` of a unit, in nanoseconds. Of units of an hour and more only
whole seconds are kept; a nanosecond has no parts. -/
def part? (numerator denominator : Nat) : TimeUnit → Option Nat
  | .nanos 1 => none
  | .nanos unit => (bounded? (numerator * unit)).map (· / denominator)
  | .secs unit =>
    if unit ≤ 60 then (bounded? (numerator * (unit * nanosPerSec))).map (· / denominator)
    else (bounded? (numerator * unit)).map (· / denominator * nanosPerSec)

end TimeUnit

namespace Phrase

/-- A character that a unit may hold. -/
def isUnitChar (c : Char) : Bool := c.isAlpha || c == 'µ'

/-- The digits of a number, between and after which there may be blanks. -/
def digits : List Char → List Char × List Char
  | [] => ([], [])
  | c :: rest =>
    if c.isDigit then let (ds, rest) := digits rest; (c :: ds, rest)
    else if isBlank c then digits rest
    else ([], c :: rest)

/-- The fraction of a number, if there is one, as numerator and denominator. -/
def fraction? : List Char → Option (Option (Nat × Nat) × List Char)
  | '.' :: rest =>
    let (ds, rest) := digits rest
    let denominator := Nat.pow 10 ds.length
    if ds.isEmpty || TimeUnit.maxCount < denominator then none
    else some (some (Text.digitsValue ds, denominator), rest)
  | cs => some (none, cs)

/-- One number with its unit, in nanoseconds, and what follows. -/
def item? (cs : List Char) : Option (Nat × List Char) := do
  let (ds, rest) := digits cs
  let n ← TimeUnit.bounded? (Text.digitsValue ds)
  let (fraction, rest) ← fraction? rest
  let unit ← TimeUnit.ofName? (String.ofList (rest.takeWhile isUnitChar))
  let whole ← unit.whole? n
  let part ← match fraction with
    | some (numerator, denominator) => unit.part? numerator denominator
    | none => some 0
  return (whole + part, rest.dropWhile isUnitChar)

/-- Numbers with units until the end, added up. Every one of them takes at least a character. -/
def items? : Nat → Nat → List Char → Option Nat
  | 0, _, _ => none
  | fuel + 1, total, cs =>
    match Text.trimStart cs with
    | [] => some total
    | c :: rest =>
      if c.isDigit then
        match item? (c :: rest) with
        | some (nanos, rest) => items? fuel (total + nanos) rest
        | none => none
      else none

end Phrase

/-- The span that a phrase spells. It must name one, and its seconds must not be too many. -/
def Span.ofPhrase? (s : String) : Option Span :=
  if s = "0" then some Span.zero
  else if Text.isBlankText s then none
  else do
    let nanos ← Phrase.items? (s.length + 1) 0 s.toList
    if nanos ≤ Span.longest.nanos then some ⟨nanos⟩ else none

end Syndication
