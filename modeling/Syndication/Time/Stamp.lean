import Syndication.Text.Blank
import Syndication.Time.Instant

/-!
# Time.Stamp — reading written instants

Two notations are read. The strict one is the profile of RFC 3339: fixed widths, one separator, an
offset of hours, colon and minutes or a `Z`. The loose one is what clients may send: blanks around
the parts, one digit where two are usual, a sign before the year, `UTC` for the offset and any
colons or blanks inside it. Both keep the first nine digits of a fraction and read second 60 as a
leap second.

## Contents
* `digits`, `fraction`, `offset` — the parts
* `Fields`, `Fields.instant?`    — what was read, and the instant it names
* `Stamp.strict?`, `Stamp.loose?`
-/

namespace Syndication.Stamp

open Text

/-- A run of at least `least` and at most `most` digits, taken as long as possible. -/
def digits (least most : Nat) (cs : List Char) : Option (Nat × List Char) :=
  let run := (cs.take most).takeWhile Char.isDigit
  if run.length < least then none else some (digitsValue run, cs.drop run.length)

/-- A run of digits of any length, at least one. -/
def number (cs : List Char) : Option (Nat × List Char) := digits 1 cs.length cs

/-- The character `c`. -/
def literal (c : Char) : List Char → Option (List Char)
  | d :: rest => if c = d then some rest else none
  | [] => none

/-- A fraction of a second after its point, in nanoseconds; digits after the ninth are dropped. -/
def fraction : List Char → Option (Nat × List Char)
  | '.' :: rest => do
    let (value, left) ← digits 1 9 rest
    let read := rest.length - left.length
    return (value * Nat.pow 10 (9 - read), left.dropWhile Char.isDigit)
  | cs => some (0, cs)

/-- The sign of an offset: a hyphen or a minus sign means west. -/
def west? : List Char → Option (Bool × List Char)
  | '+' :: rest => some (false, rest)
  | '-' :: rest => some (true, rest)
  | '\u2212' :: rest => some (true, rest)
  | _ => none

/-- An offset from UTC in seconds: `Z`, or hours and minutes with what `separator` takes between
them. -/
def offset (separator : List Char → Option (List Char)) : List Char → Option (Int × List Char)
  | 'Z' :: rest => some (0, rest)
  | 'z' :: rest => some (0, rest)
  | cs => do
    let (west, cs) ← west? cs
    let (hours, cs) ← digits 2 2 cs
    let cs ← separator cs
    let (minutes, cs) ← digits 2 2 cs
    if minutes < 60 then
      let seconds : Int := hours * 3600 + minutes * 60
      return (if west then -seconds else seconds, cs)
    else none

/-- What a stamp says, before it is known to name an instant. -/
structure Fields where
  date : Date
  hour : Nat
  minute : Nat
  second : Nat
  nanos : Nat
  offset : Int
  deriving Repr

/-- The instant that the fields name, if the date exists, the time of day does, and the offset is
less than a day. -/
def Fields.instant? (f : Fields) : Option Instant :=
  if f.date.IsValid ∧ f.hour < 24 ∧ f.minute < 60 ∧ f.second ≤ 60 ∧ f.offset.natAbs < 86400 then
    let leap := f.second = 60
    let second := if leap then 59 else f.second
    let onSite := f.date.toDays * 86400 + f.hour * 3600 + f.minute * 60 + second
    let seconds := onSite - f.offset
    if Instant.inCalendar seconds then
      some ⟨seconds, (if leap then nanosPerSec else 0) + f.nanos⟩
    else none
  else none

/-- The mark between date and time. -/
def dateEnd : List Char → Option (List Char)
  | 't' :: rest => some rest
  | 'T' :: rest => some rest
  | ' ' :: rest => some rest
  | _ => none

/-- The strict notation. -/
def strict? (s : String) : Option Instant := do
  let (year, cs) ← digits 4 4 s.toList
  let cs ← literal '-' cs
  let (month, cs) ← digits 2 2 cs
  let cs ← literal '-' cs
  let (day, cs) ← digits 2 2 cs
  let cs ← dateEnd cs
  let (hour, cs) ← digits 2 2 cs
  let cs ← literal ':' cs
  let (minute, cs) ← digits 2 2 cs
  let cs ← literal ':' cs
  let (second, cs) ← digits 2 2 cs
  let (nanos, cs) ← fraction cs
  let (offset, cs) ← offset (literal ':') cs
  if cs.isEmpty && offset.natAbs ≤ (23 * 60 + 59) * 60 then
    Fields.instant? ⟨⟨year, month, day⟩, hour, minute, second, nanos, offset⟩
  else none

/-- A year: four digits at most, or a sign and any number of them. -/
def looseYear (cs : List Char) : Option (Int × List Char) :=
  match trimStart cs with
  | '-' :: rest => (number rest).map fun (n, left) => (-(n : Int), left)
  | '+' :: rest => (number rest).map fun (n, left) => ((n : Int), left)
  | cs => (digits 1 4 cs).map fun (n, left) => ((n : Int), left)

/-- One or two digits after any blanks. -/
def loosePair (cs : List Char) : Option (Nat × List Char) := digits 1 2 (trimStart cs)

/-- The character `c` after any blanks. -/
def looseLiteral (c : Char) (cs : List Char) : Option (List Char) := literal c (trimStart cs)

/-- The letters `UTC` in any case, or an offset with any colons and blanks inside. -/
def looseOffset (cs : List Char) : Option (Int × List Char) :=
  match trimStart cs with
  | u :: t :: c :: rest =>
    if u.toUpper = 'U' ∧ t.toUpper = 'T' ∧ c.toUpper = 'C' then some (0, rest)
    else offset (fun cs => some (cs.dropWhile fun c => c = ':' || isBlank c)) (u :: t :: c :: rest)
  | cs => offset (fun cs => some (cs.dropWhile fun c => c = ':' || isBlank c)) cs

/-- The loose notation. -/
def loose? (s : String) : Option Instant := do
  let (year, cs) ← looseYear s.toList
  let cs ← looseLiteral '-' cs
  let (month, cs) ← loosePair cs
  let cs ← looseLiteral '-' cs
  let (day, cs) ← loosePair cs
  let cs ← dateEnd cs
  let (hour, cs) ← loosePair cs
  let cs ← looseLiteral ':' cs
  let (minute, cs) ← loosePair cs
  let cs ← looseLiteral ':' cs
  let (second, cs) ← loosePair cs
  let (nanos, cs) ← fraction cs
  let (offset, cs) ← looseOffset cs
  if (trimStart cs).isEmpty then
    Fields.instant? ⟨⟨year, month, day⟩, hour, minute, second, nanos, offset⟩
  else none

end Syndication.Stamp
