import Mathlib.Algebra.Group.Nat.Defs
import Mathlib.Order.Bounds.Defs
import Syndication.Retry

/-!
# Proofs.Retry — delays grow and stop at the least of three bounds

The power saturates at 32 bits, the product at the longest span, and a policy may have a longest delay
of its own. However the three meet, a delay is the least of the initial delay times the saturated power,
the longest span and the longest delay. The saturated power grows with the number of the attempt, so the
delay does, and where the power has not saturated the delay is exact.

## Contents
* `Span.nanos_min`, `Span.nanos_mul?`  — spans in nanoseconds
* `power?_eq`, `factor_eq`             — the saturated power
* `bounds`, `isLeast_interval`         — a delay is the least of its bounds
* `interval_grows`
-/

namespace Syndication

namespace Span

theorem nanos_min (a b : Span) : (a.min b).nanos = Min.min a.nanos b.nanos := by
  unfold Span.min
  by_cases hle : a.nanos ≤ b.nanos
  · rw [if_pos hle, Nat.min_eq_left hle]
  · rw [if_neg hle, Nat.min_eq_right (by omega)]

/-- A multiple that stops at the longest span. -/
theorem nanos_mul? (d : Span) (n : Nat) :
    ((d.mul? n).getD longest).nanos = Min.min (d.nanos * n) longest.nanos := by
  unfold mul?
  by_cases hle : d.nanos * n ≤ longest.nanos
  · rw [if_pos hle, Nat.min_eq_left hle]
    rfl
  · rw [if_neg hle, Nat.min_eq_right (by omega)]
    rfl

end Span

namespace RetryPolicy

variable (r : RetryPolicy)

/-! ## The factor -/

/-- **A power in 32 bits** is the power where it fits. A power that does not fit stays too large, since
only a base of one or more leaves the range. -/
theorem power?_eq (base exponent : Nat) :
    power? base exponent = if base ^ exponent ≤ maxFactor then some (base ^ exponent) else none := by
  induction exponent with
  | zero => rfl
  | succ exponent ih =>
    rw [power?, ih]
    by_cases hfits : base ^ exponent ≤ maxFactor
    · rw [if_pos hfits, Nat.pow_succ]
    · have hpos : 0 < base := by
        apply Nat.pos_of_ne_zero
        rintro rfl
        cases exponent with
        | zero => exact hfits (by decide)
        | succ e => exact hfits (by rw [Nat.zero_pow (Nat.succ_pos e)]; exact Nat.zero_le _)
      have hgrows : base ^ exponent ≤ base ^ (exponent + 1) := Nat.pow_le_pow_right hpos (by omega)
      rw [if_neg hfits, if_neg (by omega)]

theorem lt_pow_of_two_le {base exponent : Nat} (hbase : 2 ≤ base) (hexponent : 33 ≤ exponent) :
    maxFactor < base ^ exponent := by
  calc maxFactor < 2 ^ 33 := by decide
    _ ≤ 2 ^ exponent := Nat.pow_le_pow_right (by decide) hexponent
    _ ≤ base ^ exponent := Nat.pow_le_pow_left hbase exponent

/-- **The factor** is the power, cut at 32 bits. -/
theorem factor_eq (attempt : Nat) :
    r.factor attempt = min (r.coefficient ^ (attempt - 1)) maxFactor := by
  unfold factor
  -- the exponent is cut where every power has saturated or does not change any more
  have hcut : min (r.coefficient ^ min (attempt - 1) 33) maxFactor =
      min (r.coefficient ^ (attempt - 1)) maxFactor := by
    by_cases hshort : attempt - 1 ≤ 33
    · rw [Nat.min_eq_left hshort]
    · have hlong : 33 ≤ attempt - 1 := by omega
      rw [Nat.min_eq_right hlong]
      match r.coefficient with
      | 0 => rw [Nat.zero_pow (by omega), Nat.zero_pow (by omega)]
      | 1 => rw [Nat.one_pow, Nat.one_pow]
      | base + 2 =>
        have hcut := lt_pow_of_two_le (show 2 ≤ base + 2 by omega) (Nat.le_refl 33)
        have hwhole := lt_pow_of_two_le (show 2 ≤ base + 2 by omega) hlong
        rw [Nat.min_eq_right (by omega), Nat.min_eq_right (by omega)]
  rw [power?_eq, ← hcut]
  by_cases hfits : r.coefficient ^ min (attempt - 1) 33 ≤ maxFactor
  · rw [if_pos hfits, Nat.min_eq_left hfits]
    rfl
  · rw [if_neg hfits, Nat.min_eq_right (by omega)]
    rfl

/-! ## The delay -/

/-- What a delay with this factor may not exceed, in nanoseconds: the initial delay times the factor, the
longest span, and the longest delay, if there is one. -/
def bounds (factor : Nat) : Set Nat :=
  { n | n = r.initial.nanos * factor ∨ n = Span.longest.nanos ∨ ∃ longest ∈ r.maximum, n = longest.nanos }

/-- **A delay is the least of its bounds.** -/
theorem isLeast_interval (attempt : Nat) :
    IsLeast (r.bounds (min (r.coefficient ^ (attempt - 1)) maxFactor)) (r.interval attempt).nanos := by
  unfold interval
  rw [← factor_eq]
  -- a product that does not fit counts as the longest span
  have hcandidate := r.initial.nanos_mul? (r.factor attempt)
  generalize (r.initial.mul? (r.factor attempt)).getD Span.longest = candidate at hcandidate ⊢
  cases hmaximum : r.maximum with
  | none =>
    show IsLeast _ candidate.nanos
    constructor
    · show candidate.nanos = _ ∨ candidate.nanos = _ ∨ _
      omega
    · rintro n (rfl | rfl | ⟨longest, hlongest, -⟩)
      · omega
      · omega
      · rw [hmaximum] at hlongest
        cases hlongest
  | some longest =>
    show IsLeast _ (candidate.min longest).nanos
    rw [Span.nanos_min]
    constructor
    · by_cases hle : candidate.nanos ≤ longest.nanos
      · rw [Nat.min_eq_left hle]
        show candidate.nanos = _ ∨ candidate.nanos = _ ∨ _
        omega
      · rw [Nat.min_eq_right (by omega)]
        exact .inr (.inr ⟨longest, hmaximum, rfl⟩)
    · rintro n (rfl | rfl | ⟨other, hother, rfl⟩)
      · omega
      · omega
      · obtain rfl : other = longest := Option.some.inj (hother.symm.trans hmaximum)
        omega

/-- **Delays grow, stop at the longest delay, and never overflow.** As long as the power of the factor has
32 bits, the delay is exactly the least of the initial delay times that power, the longest delay and the
longest span; from then on the power counts as the greatest number of 32 bits. -/
theorem interval_grows (h : 1 ≤ r.coefficient) :
    (∀ m n, m ≤ n → (r.interval m).nanos ≤ (r.interval n).nanos) ∧
      (∀ n, ∀ longest ∈ r.maximum, (r.interval n).nanos ≤ longest.nanos) ∧
      (∀ n, (r.interval n).nanos ≤ Span.longest.nanos) ∧
      (∀ n, r.coefficient ^ (n - 1) ≤ maxFactor →
        IsLeast (r.bounds (r.coefficient ^ (n - 1))) (r.interval n).nanos) ∧
      ∀ n, maxFactor < r.coefficient ^ (n - 1) →
        IsLeast (r.bounds maxFactor) (r.interval n).nanos := by
  refine ⟨?_, ?_, ?_, ?_, ?_⟩
  · intro m n hmn
    obtain ⟨-, hleast⟩ := r.isLeast_interval m
    obtain ⟨hbound, -⟩ := r.isLeast_interval n
    -- the later delay is one of its bounds, and no bound has become smaller
    rcases hbound with hproduct | hlongest | ⟨longest, hmem, hmaximum⟩
    · have hpow : r.coefficient ^ (m - 1) ≤ r.coefficient ^ (n - 1) :=
        Nat.pow_le_pow_right h (by omega)
      have hfactor : min (r.coefficient ^ (m - 1)) maxFactor ≤ min (r.coefficient ^ (n - 1)) maxFactor := by
        omega
      rw [hproduct]
      exact Nat.le_trans (hleast (.inl rfl)) (Nat.mul_le_mul_left _ hfactor)
    · rw [hlongest]
      exact hleast (.inr (.inl rfl))
    · rw [hmaximum]
      exact hleast (.inr (.inr ⟨longest, hmem, rfl⟩))
  · intro n longest hmem
    exact (r.isLeast_interval n).2 (.inr (.inr ⟨longest, hmem, rfl⟩))
  · intro n
    exact (r.isLeast_interval n).2 (.inr (.inl rfl))
  · intro n hfits
    have hleast := r.isLeast_interval n
    rwa [Nat.min_eq_left hfits] at hleast
  · intro n hlong
    have hleast := r.isLeast_interval n
    rwa [Nat.min_eq_right (by omega)] at hleast

/-- Thirty seconds, doubled with every attempt, and a hundred at most: the second delay is exact, and the
delay of an attempt whose power has long saturated is not smaller and keeps to the maximum. -/
theorem interval_grows_doubling :
    let r : RetryPolicy := ⟨2, .ofSecs 30, some (.ofSecs 100)⟩
    1 ≤ r.coefficient ∧ IsLeast (r.bounds 2) 60000000000 ∧
      60000000000 ≤ (r.interval 4294967295).nanos ∧
      (r.interval 4294967295).nanos ≤ (Span.ofSecs 100).nanos := by
  intro r
  have hcoefficient : 1 ≤ r.coefficient := by decide
  have hsecond : (r.interval 2).nanos = 60000000000 := by decide
  obtain ⟨hgrows, hcapped, -, hexact, -⟩ := r.interval_grows hcoefficient
  refine ⟨hcoefficient, ?_, ?_, hcapped _ _ rfl⟩
  · exact hsecond ▸ hexact 2 (by decide)
  · exact hsecond ▸ hgrows 2 4294967295 (by omega)

end RetryPolicy
end Syndication
