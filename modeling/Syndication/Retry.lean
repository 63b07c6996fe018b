import Syndication.Time.Span

/-!
# Retry — how long to wait before the next attempt

The delay grows by a constant factor with every attempt and stops at a maximum. The power saturates
at 32 bits and the product at the longest span, so no attempt number is too large.

## Contents
* `RetryPolicy`, `factor`, `interval`
-/

namespace Syndication

/-- The first delay, the factor from one to the next, and the longest one. -/
structure RetryPolicy where
  coefficient : Nat
  initial : Span
  maximum : Option Span
  deriving DecidableEq, Repr

namespace RetryPolicy

/-- The greatest factor. -/
def maxFactor : Nat := 4294967295

/-- Doubling from one second, without a longest delay. -/
def standard : RetryPolicy := ⟨2, Span.ofSecs 1, none⟩

/-- `base ^ exponent` in 32 bits, `none` where it does not fit. The exponent is used up one by one
and the power only grows, so it is given up as soon as it leaves the range. -/
def power? (base : Nat) : Nat → Option Nat
  | 0 => some 1
  | exponent + 1 =>
    match power? base exponent with
    | none => none
    | some p => if p * base ≤ maxFactor then some (p * base) else none

/-- The factor before attempt number `attempt`. A base of one or less gives the same power for every
positive exponent, and any other base leaves the range within 32 steps. -/
def factor (r : RetryPolicy) (attempt : Nat) : Nat :=
  (power? r.coefficient (min (attempt - 1) 33)).getD maxFactor

/-- The delay after attempt number `attempt` has failed; the first attempt has number 1. -/
def interval (r : RetryPolicy) (attempt : Nat) : Span :=
  let candidate := (r.initial.mul? (r.factor attempt)).getD Span.longest
  match r.maximum with
  | some longest => candidate.min longest
  | none => candidate

end RetryPolicy
end Syndication
