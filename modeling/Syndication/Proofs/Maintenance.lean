import Syndication.Maintenance
import Syndication.Proofs.Ledger
import Syndication.Proofs.Service

/-!
# Proofs.Maintenance — what maintenance forgets

A pass counts the retention back from the second that the clock shows, and deletes what both ledgers have
from before. The counting is done in signed words of 64 bits. Where the retention has room in them, a pass
deletes exactly what is older than the retention, so a longer retention never deletes what a shorter one
keeps. Where it has not, the counting goes round to a second that is still to come, and nothing that has
been seen so far is kept.

## Contents
* `Fits`, `cutoffOf_eq`, `cutoffOf_le`        — the cutoff
* `exec_maintain`, `exec_maintainAsConfigured` — a pass
* `PrunesBefore`, `prunesBefore_cutoffOf`      — what a pass deletes
* `maintain_forgetsOlder`
-/

namespace Syndication.Maintenance

variable {now : Int} {retention longer : Span} {s : Service}

/-! ## The cutoff -/

/-- The second is one of a signed word of 64 bits. -/
def IsWord (second : Int) : Prop := -Word.range63 ≤ second ∧ second < Word.range63

/-- The retention can be counted back from this second in a signed word of 64 bits. Since 1970 there has
been room for `2 ^ 63` seconds. -/
def Fits (now : Int) (retention : Span) : Prop := (retention.secs : Int) ≤ Word.range63 + now

theorem secs_lt_of_le_longest (h : retention.nanos ≤ Span.longest.nanos) :
    retention.secs < Word.range64 := by
  have hlongest : Span.longest.nanos < nanosPerSec * Word.range64 := by decide
  exact Nat.div_lt_of_lt_mul (Nat.lt_of_le_of_lt h hlongest)

/-- The cutoff lies the retention back or more, where that fits a signed word of 64 bits. -/
theorem cutoffOf_le (h : Fits now retention) : cutoffOf now retention ≤ now - retention.secs := by
  rw [cutoffOf, toSigned64]
  simp only [Fits, Word.range63, Word.range64] at *
  unfold Int.bmod
  simp only
  omega

/-- **The cutoff** lies the retention back, or goes round. -/
theorem cutoffOf_eq (hsecs : retention.secs < Word.range64) (hnow : IsWord now) :
    (Fits now retention → cutoffOf now retention = now - retention.secs) ∧
      (¬ Fits now retention → cutoffOf now retention = now - retention.secs + Word.range64) := by
  obtain ⟨hlow, hhigh⟩ := hnow
  rw [cutoffOf, toSigned64]
  simp only [Fits, Word.range63, Word.range64] at *
  unfold Int.bmod
  simp only
  omega

/-! ## A pass -/

/-- **A pass** prunes the ledgers and the windows, unless the bundles cannot be swept. -/
theorem exec_maintain (retention : Span) (s : Service) : (maintain retention).exec s =
    match Staging.sweep.exec s.store with
    | (.error e, st) => (.error e, { s with store := st })
    | (.ok swept, st) =>
      (.ok ⟨swept, (s.ledger.prune (cutoffOf s.nowSecs retention)).1, (s.windows.cleanup s.nowSecs).1⟩,
        { s with
          store := st
          ledger := (s.ledger.prune (cutoffOf s.nowSecs retention)).2
          windows := (s.windows.cleanup s.nowSecs).2 }) := by
  rw [maintain, Effect.exec_bind_ok (Effect.exec_get s), Effect.exec_bind, Service.exec_onStore]
  rcases Staging.sweep.exec s.store with ⟨e | swept, st⟩ <;> rfl

theorem exec_maintainAsConfigured (s : Service) :
    maintainAsConfigured.exec s = (maintain s.config.ledgerRetention).exec s := by
  rw [maintainAsConfigured, Effect.exec_bind_ok (Effect.exec_get s)]

/-- A pass leaves the clock and the configuration, and of the ledgers what they were or what is not
older than the cutoff. -/
theorem snd_exec_maintain (retention : Span) (s : Service) :
    ∃ st ledger windows, ((maintain retention).exec s).2 =
        { s with store := st, ledger := ledger, windows := windows } ∧
      (ledger = s.ledger ∨ ledger = (s.ledger.prune (cutoffOf s.nowSecs retention)).2) := by
  rw [exec_maintain]
  rcases Staging.sweep.exec s.store with ⟨e | swept, st⟩
  · exact ⟨st, s.ledger, s.windows, rfl, .inl rfl⟩
  · exact ⟨st, _, _, rfl, .inr rfl⟩

/-! ## What a pass deletes -/

/-- The ledgers after a pass. -/
def ledgerAfter (retention : Span) (s : Service) : Ledger := ((maintain retention).exec s).2.ledger

/-- **A pass deletes what is from before this second**, of both ledgers, and counts it. It fails only where
a sweep of the bundles does; then it deletes nothing. -/
structure PrunesBefore (cutoff : Int) (retention : Span) (s : Service) : Prop where
  answers : ((maintain retention).exec s).1.isOk = (Staging.sweep.exec s.store).1.isOk
  failed : ∀ e, ((maintain retention).exec s).1 = .error e →
    (Staging.sweep.exec s.store).1 = .error e ∧ ledgerAfter retention s = s.ledger
  seen : ∀ report, ((maintain retention).exec s).1 = .ok report →
    (ledgerAfter retention s).seen = s.ledger.seen.filter fun x => ¬ x.seenAt < cutoff
  fired : ∀ report, ((maintain retention).exec s).1 = .ok report →
    (ledgerAfter retention s).fired = s.ledger.fired.filter fun x => ¬ x.notifiedAt < cutoff
  counted : ∀ report, ((maintain retention).exec s).1 = .ok report →
    report.ledgerRows = s.ledger.seen.countP (fun x => x.seenAt < cutoff) +
      s.ledger.fired.countP fun x => x.notifiedAt < cutoff

theorem prunesBefore_cutoffOf (retention : Span) (s : Service) :
    PrunesBefore (cutoffOf s.nowSecs retention) retention s := by
  have hexec := exec_maintain retention s
  rcases hsweep : Staging.sweep.exec s.store with ⟨e | swept, st⟩ <;> rw [hsweep] at hexec
  · constructor <;> simp [ledgerAfter, hexec, hsweep, Except.isOk, Except.toBool]
  · constructor <;> simp [ledgerAfter, hexec, hsweep, Ledger.prune, Except.isOk, Except.toBool]

/-- What a longer retention deletes, a shorter one deletes too. -/
theorem ledgerAfter_mono {cutoff cutoff' : Int} (h : PrunesBefore cutoff retention s)
    (h' : PrunesBefore cutoff' longer s) (hle : cutoff' ≤ cutoff) :
    (ledgerAfter retention s).seen ⊆ (ledgerAfter longer s).seen ∧
      (ledgerAfter retention s).fired ⊆ (ledgerAfter longer s).fired := by
  have hanswers := h.answers.trans h'.answers.symm
  rcases hpass : ((maintain retention).exec s).1 with e | report <;>
    rcases hpass' : ((maintain longer).exec s).1 with e' | report' <;> rw [hpass, hpass'] at hanswers
  · rw [(h.failed e hpass).2, (h'.failed e' hpass').2]
    exact ⟨List.Subset.refl _, List.Subset.refl _⟩
  · cases hanswers
  · cases hanswers
  · rw [h.seen report hpass, h.fired report hpass, h'.seen report' hpass', h'.fired report' hpass']
    constructor <;> intro x hx <;> rw [List.mem_filter, decide_eq_true_eq] at hx ⊢ <;>
      exact ⟨hx.1, by omega⟩

/-- **Maintenance forgets what is older than the retention**, and nothing else, if the retention can be
counted back. Then it keeps all that any shorter retention keeps. If the retention cannot be counted back,
the cutoff lies ahead of the clock. -/
theorem maintain_forgetsOlder (s : Service) (retention : Span)
    (hspan : retention.nanos ≤ Span.longest.nanos) (hnow : IsWord s.nowSecs) :
    (Fits s.nowSecs retention → PrunesBefore (s.nowSecs - retention.secs) retention s ∧
      ∀ shorter : Span, shorter.secs ≤ retention.secs →
        (ledgerAfter shorter s).seen ⊆ (ledgerAfter retention s).seen ∧
          (ledgerAfter shorter s).fired ⊆ (ledgerAfter retention s).fired) ∧
      (¬ Fits s.nowSecs retention →
        PrunesBefore (s.nowSecs - retention.secs + Word.range64) retention s) := by
  have hsecs := secs_lt_of_le_longest hspan
  obtain ⟨hback, hround⟩ := cutoffOf_eq hsecs hnow
  have hprunes := prunesBefore_cutoffOf retention s
  constructor
  case right =>
    intro hfits
    rwa [hround hfits] at hprunes
  intro hfits
  rw [hback hfits] at hprunes
  refine ⟨hprunes, fun shorter hle => ledgerAfter_mono (prunesBefore_cutoffOf shorter s) hprunes ?_⟩
  -- a shorter retention can be counted back as well
  have hshorter : Fits s.nowSecs shorter := Int.le_trans (Int.ofNat_le.mpr hle) hfits
  rw [(cutoffOf_eq (Nat.lt_of_le_of_lt hle hsecs) hnow).1 hshorter]
  omega

/-! ## Two messages -/

/-- A service that has seen one message four days ago and one a day ago. -/
def twoSeen : Service := { Service.started {} [] with
  now := 345600000
  ledger := { seen := [⟨"twitch", "old", 0⟩, ⟨"twitch", "new", 259200⟩] } }

theorem isOk_sweep_twoSeen : (Staging.sweep.exec twoSeen.store).1.isOk = true := by decide +kernel

/-- A pass with a retention of three days forgets the older one. -/
theorem maintain_forgetsOlder_threeDays : Fits twoSeen.nowSecs (.ofSecs 259200) ∧
    (ledgerAfter (.ofSecs 259200) twoSeen).seen = [⟨"twitch", "new", 259200⟩] := by
  have hfits : Fits twoSeen.nowSecs (.ofSecs 259200) := by unfold Fits; decide +kernel
  have hpass := (maintain_forgetsOlder twoSeen (.ofSecs 259200) (by decide +kernel)
    (by unfold IsWord; decide +kernel)).1 hfits
  refine ⟨hfits, ?_⟩
  rcases hanswer : ((maintain (.ofSecs 259200)).exec twoSeen).1 with e | report
  · have hfailed := hpass.1.answers
    rw [hanswer, isOk_sweep_twoSeen] at hfailed
    cases hfailed
  · rw [hpass.1.seen report hanswer]
    decide +kernel

/-- The longest retention that can be written in a configuration deletes all that has been seen so far, the
message of the day before too, which three days keep. -/
theorem maintain_goesRound :
    let s := { twoSeen with config := { webhooks := { retentionHours := 9223372036854775807 } } }
    ⟨"twitch", "new", 259200⟩ ∈ (ledgerAfter (.ofSecs 259200) s).seen ∧
      ¬ (259200 : Int) < s.nowSecs - s.config.ledgerRetention.secs ∧
      (maintainAsConfigured.exec s).2.ledger.seen = [] := by
  decide +kernel

end Syndication.Maintenance
