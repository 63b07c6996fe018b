import Syndication.Time.Instant

/-!
# Proofs.Time.Order — earlier and later instants

Instants are ordered by their seconds and then by what lies past them; a leap second comes before the
second that follows it. A clock shows milliseconds, and most of what is kept in the tables is cut to
whole seconds. Here stands what such a cut can lose: one second at most, in either direction.

## Contents
* `a ≤ b` for instants
* `secondOf_mono`, `nanos_ofMillis_lt`
* `le_ofMillis_of_whole`, `nanosSince_ofMillis_le` — an instant whose second the clock has reached
* `secondOf_le_of_age`                             — a clock at which something is not too old
-/

namespace Syndication

theorem secondOf_mono {a b : Int} (h : a ≤ b) : secondOf a ≤ secondOf b := by
  rw [secondOf, secondOf, Int.fdiv_eq_ediv_of_nonneg _ (by decide),
    Int.fdiv_eq_ediv_of_nonneg _ (by decide)]
  exact Int.ediv_le_ediv (by decide) h

namespace Instant

/-- By seconds, then by what lies past them. -/
instance : LE Instant where
  le a b := a.seconds < b.seconds ∨ a.seconds = b.seconds ∧ a.nanos ≤ b.nanos

instance (a b : Instant) : Decidable (a ≤ b) :=
  inferInstanceAs (Decidable (a.seconds < b.seconds ∨ a.seconds = b.seconds ∧ a.nanos ≤ b.nanos))

theorem le_def {a b : Instant} :
    a ≤ b ↔ a.seconds < b.seconds ∨ a.seconds = b.seconds ∧ a.nanos ≤ b.nanos := Iff.rfl

variable {a b : Instant} {now : Int}

@[simp] theorem seconds_ofMillis (now : Int) : (ofMillis now).seconds = secondOf now := rfl

/-- A clock never shows a leap second. -/
theorem nanos_ofMillis_lt (now : Int) : (ofMillis now).nanos < nanosPerSec := by
  have hlt : now.fmod 1000 < 1000 := Int.fmod_lt_of_pos now (by decide)
  show (now.fmod 1000 * 1000000).toNat < 1000000000
  omega

/-! ## Instants that a clock has reached -/

/-- An instant on a whole second is reached with its second. -/
theorem le_ofMillis_of_whole (hwhole : a.nanos = 0) (h : a.seconds ≤ secondOf now) :
    a ≤ ofMillis now := by
  rw [le_def, seconds_ofMillis, hwhole]
  omega

/-- Where the second of an instant is reached, the instant is ahead by its fraction at most. -/
theorem nanosSince_ofMillis_le (h : a.seconds ≤ secondOf now) :
    a.nanosSince (ofMillis now) ≤ a.nanos := by
  have hno : ¬ (ofMillis now).IsLeapSecond := Nat.not_le.mpr (nanos_ofMillis_lt now)
  simp only [nanosSince, seconds_ofMillis, if_neg hno, nanosPerSec]
  split
  · omega
  · split
    · split <;> omega
    · omega

/-! ## Ages -/

/-- More time than the difference of the seconds has passed only since a leap second. -/
theorem le_nanosSince_ofMillis (now : Int) (a : Instant) :
    (secondOf now - a.seconds) * nanosPerSec + ((ofMillis now).nanos - a.nanos) ≤
      (ofMillis now).nanosSince a := by
  have hno : ¬ (ofMillis now).IsLeapSecond := Nat.not_le.mpr (nanos_ofMillis_lt now)
  simp only [nanosSince, seconds_ofMillis, if_neg hno, nanosPerSec]
  split
  · split <;> omega
  · split <;> omega

/-- An age is less than the whole seconds that are counted of it, and one more. -/
theorem nanosSince_lt_of_secondsSince_le {maxAge : Int} (h : b.secondsSince a ≤ maxAge) :
    b.nanosSince a < (maxAge + 1) * nanosPerSec := by
  have hrest : (b.nanosSince a).tmod nanosPerSec < nanosPerSec := Int.tmod_lt_of_pos _ (by decide)
  have hparts : nanosPerSec * (b.nanosSince a).tdiv nanosPerSec +
      (b.nanosSince a).tmod nanosPerSec = b.nanosSince a := Int.mul_tdiv_add_tmod _ _
  have hcount : (b.nanosSince a).tdiv nanosPerSec ≤ maxAge := h
  simp only [nanosPerSec] at *
  omega

/-- **A clock at which something is not too old.** It was sent no later than another reading of the
clock, so this one is ahead of that by the greatest age and one second at most: what the cut of the age
loses and what the cut of the reading loses do not add up. -/
theorem secondOf_le_of_age {first maxAge : Int} (hsent : a ≤ ofMillis first)
    (hread : a.nanos < 2 * nanosPerSec) (hage : (ofMillis now).secondsSince a ≤ maxAge) :
    secondOf now ≤ secondOf first + maxAge + 1 := by
  have hlow := le_nanosSince_ofMillis now a
  have hhigh := nanosSince_lt_of_secondsSince_le hage
  have hfirst := nanos_ofMillis_lt first
  rw [le_def, seconds_ofMillis] at hsent
  simp only [nanosPerSec] at *
  omega

end Instant
end Syndication
