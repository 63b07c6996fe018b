import Syndication.Config.Reader

/-!
# Proofs.Config — what an accepted configuration promises

A document is accepted exactly when it has the right shape and every check passes, and together the checks
say what a configuration can be used for: nothing that must be there is missing, a worker takes messages
and attempts them, platforms can be told apart and stand in keys, and each of them gives up before a
message is shown again. The settings of a worker are derived from that.

## Contents
* `checkPlatform_eq_ok_iff`, `checkPlatforms_eq_ok_iff`
* `IsUsable`, `validate_eq_ok_iff`, `ofToml?_eq_ok_iff` — accepted configurations
* `deliveryDeadline_between`, `IsUsable.settings`       — the settings of a worker
-/

namespace Syndication.Config

/-! ## Platforms -/

/-- A platform that can be used: its identifier can stand in a key, it gives up before a message is shown
again, and if it is reached by requests there is a secret for its address. -/
structure IsUsablePlatform (visibilitySecs : Nat) (p : PlatformConfig) : Prop where
  safe : isPathSafe p.id = true
  timely : p.timeoutSecs < visibilitySecs
  addressed : p.kind = .http → p.urlSecret.isSome = true

theorem checkPlatform_eq_ok_iff (visibilitySecs : Nat) (seen : List String) (p : PlatformConfig) :
    checkPlatform visibilitySecs seen p = .ok () ↔ IsUsablePlatform visibilitySecs p ∧ p.id ∉ seen := by
  unfold checkPlatform
  by_cases hsafe : isPathSafe p.id = true
  case neg =>
    rw [if_pos (by simpa using hsafe)]
    exact iff_of_false nofun fun h => hsafe h.1.safe
  rw [if_neg (by simpa using hsafe)]
  by_cases hseen : p.id ∈ seen
  · rw [if_pos hseen]
    exact iff_of_false nofun fun h => h.2 hseen
  rw [if_neg hseen]
  by_cases hlate : visibilitySecs ≤ p.timeoutSecs
  · rw [if_pos hlate]
    exact iff_of_false nofun fun h => absurd h.1.timely (by omega)
  rw [if_neg hlate]
  by_cases hbare : p.kind = .http ∧ p.urlSecret = none
  · rw [if_pos hbare]
    refine iff_of_false nofun fun h => ?_
    have haddressed := h.1.addressed hbare.1
    rw [hbare.2] at haddressed
    cases haddressed
  · rw [if_neg hbare]
    refine iff_of_true rfl ⟨⟨hsafe, by omega, fun hkind => ?_⟩, hseen⟩
    rw [Option.isSome_iff_ne_none]
    exact fun hnone => hbare ⟨hkind, hnone⟩

/-- Platforms pass one after the other if each of them can be used and no two share an identifier. By
induction on the platforms, with the identifiers that were seen before. -/
theorem checkPlatforms_eq_ok_iff (visibilitySecs : Nat) (seen : List String) (ps : List PlatformConfig) :
    checkPlatforms visibilitySecs seen ps = .ok () ↔
      (∀ p ∈ ps, IsUsablePlatform visibilitySecs p) ∧ (ps.map (·.id)).Nodup ∧ ∀ p ∈ ps, p.id ∉ seen := by
  induction ps generalizing seen with
  | nil => exact iff_of_true rfl ⟨nofun, List.nodup_nil, nofun⟩
  | cons p ps ih =>
    have hsplit : checkPlatforms visibilitySecs seen (p :: ps) = .ok () ↔
        checkPlatform visibilitySecs seen p = .ok () ∧
          checkPlatforms visibilitySecs (p.id :: seen) ps = .ok () := by
      rw [checkPlatforms]
      rcases checkPlatform visibilitySecs seen p with e | ⟨⟩
      · exact iff_of_false nofun fun h => by cases h.1
      · exact (and_iff_right rfl).symm
    rw [hsplit, checkPlatform_eq_ok_iff, ih, List.forall_mem_cons, List.forall_mem_cons, List.map_cons,
      List.nodup_cons]
    -- the others have seen the first one, which is what makes them differ from it
    constructor
    · rintro ⟨⟨hp, hseen⟩, hps, hnodup, hnew⟩
      refine ⟨⟨hp, hps⟩, ⟨?_, hnodup⟩, hseen, ?_⟩
      · intro hmem
        obtain ⟨q, hq, hid⟩ := List.mem_map.mp hmem
        exact hnew q hq (hid ▸ List.mem_cons_self)
      · exact fun q hq hold => hnew q hq (List.mem_cons_of_mem _ hold)
    · rintro ⟨⟨hp, hps⟩, ⟨hfirst, hnodup⟩, hseen, hnew⟩
      refine ⟨⟨hp, hseen⟩, hps, hnodup, ?_⟩
      intro q hq hmem
      rcases List.mem_cons.mp hmem with hid | hold
      · exact hfirst (hid ▸ List.mem_map_of_mem hq)
      · exact hnew q hq hold

/-! ## Configurations -/

/-- **A configuration that can be used.** -/
structure IsUsable (c : Config) : Prop where
  database : Text.isBlankText c.databasePath = false
  storage : Text.isBlankText c.storageRoot = false
  attempts : 1 ≤ c.queue.maxAttempts
  batch : 1 ≤ c.queue.batchSize
  visibility : 1 ≤ c.queue.visibilitySecs
  platforms : ∀ p ∈ c.platforms, IsUsablePlatform c.queue.visibilitySecs p
  distinct : (c.platforms.map (·.id)).Nodup

theorem bind_eq_ok_iff {x : Except ConfigError Unit} {f : Unit → Except ConfigError Unit} :
    x >>= f = .ok () ↔ x = .ok () ∧ f () = .ok () := by
  rcases x with e | ⟨⟩
  · exact iff_of_false nofun fun h => by cases h.1
  · exact (and_iff_right rfl).symm

theorem checkText_eq_ok_iff (field text : String) :
    checkText field text = .ok () ↔ Text.isBlankText text = false := by
  unfold checkText
  by_cases hblank : Text.isBlankText text = true
  · rw [if_pos hblank, hblank]
    exact iff_of_false nofun nofun
  · rw [if_neg hblank]
    exact iff_of_true rfl (Bool.eq_false_iff.mpr hblank)

theorem checkPositive_eq_ok_iff (field : String) (n : Nat) : checkPositive field n = .ok () ↔ 1 ≤ n := by
  unfold checkPositive
  split
  · exact iff_of_false nofun (by omega)
  · exact iff_of_true rfl (by omega)

/-- **The checks pass** for the configurations that can be used, and for no others. -/
theorem validate_eq_ok_iff (c : Config) : c.validate = .ok () ↔ c.IsUsable := by
  unfold validate
  simp only [bind_eq_ok_iff, checkText_eq_ok_iff, checkPositive_eq_ok_iff, checkPlatforms_eq_ok_iff]
  constructor
  · rintro ⟨hdatabase, hstorage, hattempts, hbatch, hvisibility, hplatforms, hdistinct, -⟩
    exact ⟨hdatabase, hstorage, hattempts, hbatch, hvisibility, hplatforms, hdistinct⟩
  · intro h
    exact ⟨h.database, h.storage, h.attempts, h.batch, h.visibility, h.platforms, h.distinct,
      fun _ _ => List.not_mem_nil⟩

/-- A document is accepted as the configuration that its fields give, if that can be used. -/
theorem ofToml?_eq_ok_iff (text : String) (c : Config) :
    ofToml? text = .ok c ↔ (Toml.ofText? text).bind ofFields? = some c ∧ c.IsUsable := by
  unfold ofToml?
  rw [← validate_eq_ok_iff]
  rcases (Toml.ofText? text).bind ofFields? with _ | d
  · exact iff_of_false nofun fun h => by cases h.1
  · rcases hcheck : d.validate with e | ⟨⟩
    · refine iff_of_false (by simp [hcheck]) ?_
      rintro ⟨heq, hvalid⟩
      rw [Option.some.inj heq, hvalid] at hcheck
      cases hcheck
    · simp only [hcheck, Except.ok.injEq, Option.some.injEq]
      constructor
      · rintro rfl
        exact ⟨rfl, hcheck⟩
      · exact And.left

end Syndication.Config

namespace Syndication

/-! ## The settings of a worker -/

/-- What is left of a lease of five nanoseconds or more is some time, and less than the lease. -/
theorem deliveryDeadline_between {visibility : Span} (h : 5 ≤ visibility.nanos) :
    0 < (deliveryDeadline visibility).nanos ∧ (deliveryDeadline visibility).nanos < visibility.nanos := by
  show 0 < visibility.nanos - visibility.nanos / 5 ∧ visibility.nanos - visibility.nanos / 5 < visibility.nanos
  omega

theorem Span.ofSecs_lt {m n : Nat} (h : m < n) : (Span.ofSecs m).nanos < (Span.ofSecs n).nanos :=
  Nat.mul_lt_mul_of_pos_right h (by decide)

/-- **Settings that are safe to work with**: messages are taken and attempted, and a delivery and each of
the platforms gives up before its message is shown again. -/
structure WorkerSettings.IsSafe (w : WorkerSettings) (platforms : List PlatformConfig) : Prop where
  attempts : 1 ≤ w.maxAttempts
  batch : 1 ≤ w.batchSize
  positive : 0 < w.deliveryTimeout.nanos
  delivery : w.deliveryTimeout.nanos < w.visibilityTimeout.nanos
  platforms : ∀ p ∈ platforms, (Span.ofSecs p.timeoutSecs).nanos < w.visibilityTimeout.nanos

theorem Config.IsUsable.settings {c : Config} (h : c.IsUsable) : c.queue.settings.IsSafe c.platforms := by
  have hvisibility : nanosPerSec ≤ c.queue.settings.visibilityTimeout.nanos :=
    Nat.le_mul_of_pos_left nanosPerSec h.visibility
  obtain ⟨hpositive, hdelivery⟩ :=
    deliveryDeadline_between (Nat.le_trans (by decide : 5 ≤ nanosPerSec) hvisibility)
  exact ⟨h.attempts, h.batch, hpositive, hdelivery, fun p hp => Span.ofSecs_lt (h.platforms p hp).timely⟩

end Syndication
