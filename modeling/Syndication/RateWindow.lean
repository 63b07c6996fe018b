import Syndication.Word

/-!
# RateWindow — hourly budgets of targets

A target may have a limit of deliveries an hour. Hours are fixed windows, not sliding ones: a
delivery counts in the hour that its second falls into.

## Contents
* `windowStart`, `nextWindowStart`
* `RateLimits`, `RateWindows`
* `remaining`, `check`, `record`, `checkAndRecord`, `cleanup`
-/

namespace Syndication

/-- The seconds of a window. -/
def windowSecs : Int := 3600

/-- The start of the hour that a second falls into. -/
def windowStart (second : Int) : Int := second.fdiv windowSecs * windowSecs

/-- The start of the hour after the one that a second falls into. -/
def nextWindowStart (second : Int) : Int := windowStart second + windowSecs

/-- The limits of targets; a target without one has no budget to spend. -/
abbrev RateLimits := List (String × Nat)

/-- The deliveries to a target in one hour. -/
structure RateWindow where
  target : String
  start : Int
  count : Nat
  deriving DecidableEq, Repr

/-- The windows of all targets. -/
structure RateWindows where
  windows : List RateWindow := []
  deriving Repr, Inhabited

namespace RateWindows

/-- The window is this one. -/
def isWindow (target : String) (start : Int) (w : RateWindow) : Bool :=
  decide (w.target = target) && decide (w.start = start)

/-- The deliveries to a target in the hour of a second, shown in 32 bits. -/
def used (t : RateWindows) (target : String) (second : Int) : Nat :=
  match t.windows.find? (isWindow target (windowStart second)) with
  | some w => w.count % Word.range32
  | none => 0

/-- What a target may still receive in the hour of a second, if it has a limit. -/
def remaining (t : RateWindows) (limits : RateLimits) (target : String) (second : Int) : Option Nat :=
  (limits.lookup target).map (· - t.used target second)

/-- Another delivery fits. -/
def check (t : RateWindows) (limits : RateLimits) (target : String) (second : Int) : Bool :=
  match t.remaining limits target second with
  | some left => 0 < left
  | none => true

/-- Counts a delivery in the window that starts at `start`. -/
def increment (t : RateWindows) (target : String) (start : Int) : RateWindows :=
  if t.windows.any (isWindow target start) then
    ⟨t.windows.map fun w => if isWindow target start w then { w with count := w.count + 1 } else w⟩
  else ⟨t.windows ++ [⟨target, start, 1⟩]⟩

/-- Counts a delivery to a target that has a limit. -/
def record (t : RateWindows) (limits : RateLimits) (target : String) (second : Int) : RateWindows :=
  match limits.lookup target with
  | some _ => t.increment target (windowStart second)
  | none => t

/-- Counts a delivery if it fits, and says whether it does. -/
def checkAndRecord (t : RateWindows) (limits : RateLimits) (target : String) (second : Int) :
    Bool × RateWindows :=
  if t.check limits target second then (true, t.record limits target second) else (false, t)

/-- Removes the windows before the hour of `cutoff`, and counts them. -/
def cleanup (t : RateWindows) (cutoff : Int) : Nat × RateWindows :=
  (t.windows.countP (·.start < windowStart cutoff),
    ⟨t.windows.filter (windowStart cutoff ≤ ·.start)⟩)

end RateWindows
end Syndication
