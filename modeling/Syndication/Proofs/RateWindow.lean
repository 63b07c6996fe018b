import Mathlib.Data.List.Induction
import Mathlib.Data.List.Infix
import Syndication.RateWindow

/-!
# Proofs.RateWindow — how far callers can overdraw a budget

A caller asks whether its delivery fits, and counts it later or never. Others ask and count in between, so
an answer may be out of date when the delivery is counted. A window that is asked about has had fewer
deliveries than the limit, and only those who had been told so before can still count theirs: the budget
of an hour is overdrawn by the callers but one that were between asking and counting at the same time, and
by no more. A single caller keeps to it.

## Contents
* `countOf`, `countOf_increment`, `countOf_cleanup` — the windows of a table
* `Ticket`, `Call`, `Traffic`, `ofCalls`            — callers, one step after the other
* `Inv`, `inv_after`, `inv_ofCalls`
* `ofCalls_budget`, `ofCalls_overdrawn`
-/

namespace Syndication

theorem windowStart_mono {a b : Int} (h : a ≤ b) : windowStart a ≤ windowStart b := by
  unfold windowStart windowSecs
  rw [Int.fdiv_eq_ediv_of_nonneg _ (by decide), Int.fdiv_eq_ediv_of_nonneg _ (by decide)]
  omega

namespace RateWindows

variable {t : RateWindows} {target : String} {start : Int}

/-! ## The windows of a table -/

theorem isWindow_iff {w : RateWindow} :
    isWindow target start w = true ↔ w.target = target ∧ w.start = start := by
  rw [isWindow, Bool.and_eq_true, decide_eq_true_eq, decide_eq_true_eq]

/-- The deliveries that a table has counted in a window. -/
def countOf (t : RateWindows) (target : String) (start : Int) : Nat :=
  match t.windows.find? (isWindow target start) with
  | some w => w.count
  | none => 0

theorem used_eq (t : RateWindows) (target : String) (second : Int) :
    t.used target second = t.countOf target (windowStart second) % Word.range32 := by
  unfold used countOf
  cases t.windows.find? (isWindow target (windowStart second)) <;> rfl

/-- The window of a table, with one more delivery. -/
theorem find?_counted (windows : List RateWindow) (target target' : String) (start start' : Int) :
    (windows.map fun w => if isWindow target start w then { w with count := w.count + 1 } else w).find?
        (isWindow target' start') =
      (windows.find? (isWindow target' start')).map fun w =>
        if isWindow target start w then { w with count := w.count + 1 } else w := by
  rw [List.find?_map]
  congr 2
  funext w
  simp only [Function.comp_apply]
  split <;> rfl

/-- **A delivery is counted** in its window and in no other. -/
theorem countOf_increment (t : RateWindows) (target target' : String) (start start' : Int) :
    (t.increment target start).countOf target' start' =
      t.countOf target' start' + if target = target' ∧ start = start' then 1 else 0 := by
  unfold increment
  split
  · rename_i hany
    rw [countOf, find?_counted, countOf]
    cases hfind : t.windows.find? (isWindow target' start') with
    | none =>
      -- a window that is counted in was there, so this one is another
      have hnone := List.find?_eq_none.mp hfind
      obtain ⟨w, hw, hwindow⟩ := List.any_eq_true.mp hany
      rw [if_neg]
      · rfl
      · rintro ⟨rfl, rfl⟩
        exact hnone w hw hwindow
    | some w =>
      obtain ⟨rfl, rfl⟩ := isWindow_iff.mp (List.find?_some hfind)
      have hsame : isWindow target start w = true ↔ target = w.target ∧ start = w.start := by
        rw [isWindow_iff, eq_comm, @eq_comm _ w.start]
      simp only [Option.map_some, hsame]
      split <;> rfl
  · rename_i hnone
    have hnew : ∀ w ∈ t.windows, ¬ isWindow target start w = true := by simpa using hnone
    rw [countOf, countOf, List.find?_append]
    by_cases hsame : target = target' ∧ start = start'
    · obtain ⟨rfl, rfl⟩ := hsame
      have hmissing : t.windows.find? (isWindow target start) = none := List.find?_eq_none.mpr hnew
      have hown : isWindow target start ⟨target, start, 1⟩ = true := isWindow_iff.mpr ⟨rfl, rfl⟩
      rw [hmissing, Option.none_or, List.find?_cons_of_pos hown, if_pos ⟨rfl, rfl⟩]
    · have hother : ¬ isWindow target' start' ⟨target, start, 1⟩ = true := fun h =>
        hsame (isWindow_iff.mp h)
      rw [List.find?_cons_of_neg hother, List.find?_nil, Option.or_none, if_neg hsame, Nat.add_zero]

/-- A clean-up leaves the windows that have not ended. -/
theorem countOf_cleanup {cutoff : Int} (h : windowStart cutoff ≤ start) :
    (t.cleanup cutoff).2.countOf target start = t.countOf target start := by
  have hfind : (t.windows.filter (windowStart cutoff ≤ ·.start)).find? (isWindow target start) =
      t.windows.find? (isWindow target start) := by
    rw [List.find?_filter]
    congr 1
    funext w
    cases hw : isWindow target start w with
    | false => simp
    | true =>
      obtain ⟨-, rfl⟩ := isWindow_iff.mp hw
      simpa using h
  rw [countOf, countOf, cleanup, hfind]

/-- **A delivery that fits**, to a target with a limit: fewer have been counted in its hour, if the count
of the hour has 32 bits. -/
theorem countOf_lt_of_check {limits : RateLimits} {limit : Nat} {second : Int}
    (hlimit : limits.lookup target = some limit) (hfits : t.check limits target second = true)
    (hcount : t.countOf target (windowStart second) < Word.range32) :
    t.countOf target (windowStart second) < limit := by
  rw [check, remaining, hlimit, used_eq, Nat.mod_eq_of_lt hcount] at hfits
  have hleft : 0 < limit - t.countOf target (windowStart second) := of_decide_eq_true hfits
  omega

/-! ## Callers -/

/-- A caller that was told that its delivery fits, and the second that it asked at. -/
structure Ticket where
  target : String
  second : Int
  deriving DecidableEq

/-- The delivery of a caller falls into a window. -/
def Ticket.isIn (target : String) (start : Int) (k : Ticket) : Bool :=
  decide (k.target = target) && decide (windowStart k.second = start)

theorem Ticket.isIn_iff {k : Ticket} :
    k.isIn target start = true ↔ k.target = target ∧ windowStart k.second = start := by
  rw [isIn, Bool.and_eq_true, decide_eq_true_eq, decide_eq_true_eq]

/-- A step of one of the callers, of maintenance or of the clock. -/
inductive Call where
  /-- A caller asks whether a delivery fits. -/
  | check (target : String)
  /-- A caller that was told so counts its delivery. -/
  | record (k : Ticket)
  /-- A caller that was told so makes no delivery. -/
  | giveUp (k : Ticket)
  /-- Windows that have ended are removed. -/
  | cleanup
  | wait (secs : Nat)

/-- A table of windows and the clock, the callers that have been told that their delivery fits and have
not counted it yet, and the deliveries that were counted. -/
structure Traffic where
  windows : RateWindows := {}
  second : Int
  pending : List Ticket := []
  recorded : List Ticket := []

namespace Traffic

/-- A caller asks, at the second that the clock shows. -/
def asked (w : Traffic) (limits : RateLimits) (target : String) : Traffic :=
  if w.windows.check limits target w.second then { w with pending := ⟨target, w.second⟩ :: w.pending } else w

/-- A caller counts its delivery, at the second that it asked at. -/
def counted (w : Traffic) (limits : RateLimits) (k : Ticket) : Traffic :=
  if k ∈ w.pending then
    { w with
      windows := w.windows.record limits k.target k.second
      pending := w.pending.erase k
      recorded := k :: w.recorded }
  else w

/-- One more step. -/
def after (limits : RateLimits) (w : Traffic) : Call → Traffic
  | .check target => w.asked limits target
  | .record k => w.counted limits k
  | .giveUp k => { w with pending := w.pending.erase k }
  | .cleanup => { w with windows := (w.windows.cleanup w.second).2 }
  | .wait secs => { w with second := w.second + secs }

/-- What any steps lead to, from an empty table and a reading of the clock. -/
def ofCalls (limits : RateLimits) (start : Int) (calls : List Call) : Traffic :=
  calls.foldl (after limits) { second := start }

/-- The deliveries that were counted in a window. -/
def recordedIn (w : Traffic) (target : String) (start : Int) : Nat :=
  w.recorded.countP (Ticket.isIn target start)

/-- The callers that may still count a delivery in a window. -/
def pendingIn (w : Traffic) (target : String) (start : Int) : Nat :=
  w.pending.countP (Ticket.isIn target start)

variable {w : Traffic} {limits : RateLimits} {limit most : Nat}

/-- **The invariant of the callers** of a target, `most` of which are at the same time between asking and
counting: the table has counted what was counted in every window that has not ended, and what was counted
and may still be counted keeps to the limit, but for the callers that ask at the same time. -/
structure Inv (target : String) (limit most : Nat) (w : Traffic) : Prop where
  counted : ∀ start, windowStart w.second ≤ start →
    w.windows.countOf target start = w.recordedIn target start
  bounded : ∀ start, w.recordedIn target start + w.pendingIn target start ≤ limit + (most - 1)

theorem inv_start (target : String) (limit most : Nat) (second : Int) :
    Inv target limit most { second := second } where
  counted := fun _ _ => rfl
  bounded := fun _ => Nat.zero_le _

/-- A caller that asks. If its delivery fits, fewer than the limit were counted in the hour, and those that
may be counted still are as many as there are callers. -/
theorem Inv.asked (hinv : Inv target limit most w) (hlimit : limits.lookup target = some limit)
    (hwidth : limit + most ≤ Word.range32) (caller : String)
    (hmost : ∀ start, (w.asked limits caller).pendingIn target start ≤ most) :
    Inv target limit most (w.asked limits caller) := by
  by_cases hfits : w.windows.check limits caller w.second = true
  · have hasked : w.asked limits caller = { w with pending := ⟨caller, w.second⟩ :: w.pending } :=
      if_pos hfits
    rw [hasked] at hmost ⊢
    refine ⟨hinv.counted, fun start => ?_⟩
    have hbound := hinv.bounded start
    have hcrowd := hmost start
    -- only a caller of this target and hour counts; it found room beside what was counted
    simp only [recordedIn, pendingIn, List.countP_cons] at hbound hcrowd ⊢
    split at hcrowd
    · rename_i hin
      obtain ⟨htarget, hstart⟩ := Ticket.isIn_iff.mp hin
      obtain rfl : caller = target := htarget
      obtain rfl : windowStart w.second = start := hstart
      have hcount := hinv.counted _ (Int.le_refl (windowStart w.second))
      unfold recordedIn at hcount
      have hshort := countOf_lt_of_check hlimit hfits (by omega)
      rw [if_pos hin]
      omega
    · rename_i hother
      rw [if_neg hother]
      exact hbound
  · rw [show w.asked limits caller = w from if_neg hfits]
    exact hinv

/-- What a table counts for a target with a limit when a delivery is counted. -/
theorem countOf_record (hlimit : limits.lookup target = some limit) (t : RateWindows) (k : Ticket)
    (start : Int) : (t.record limits k.target k.second).countOf target start =
      t.countOf target start + if k.isIn target start then 1 else 0 := by
  simp only [Ticket.isIn_iff]
  by_cases htarget : k.target = target
  · rw [record, htarget, hlimit]
    exact countOf_increment t target target (windowStart k.second) start
  · rw [if_neg fun h => htarget h.1]
    unfold record
    split
    · rw [countOf_increment, if_neg fun h => htarget h.1]
    · rfl

/-- A caller that counts its delivery is no longer between asking and counting. -/
theorem Inv.noted (hinv : Inv target limit most w) (hlimit : limits.lookup target = some limit)
    (k : Ticket) : Inv target limit most (w.counted limits k) := by
  by_cases hpending : k ∈ w.pending
  · rw [show w.counted limits k = _ from if_pos hpending]
    refine ⟨fun start hstart => ?_, fun start => ?_⟩
    · have hcount := hinv.counted start hstart
      simp only [recordedIn, List.countP_cons, countOf_record hlimit] at hcount ⊢
      rw [hcount]
    · have hbound := hinv.bounded start
      have hmoved := (List.perm_cons_erase hpending).countP_eq (Ticket.isIn target start)
      simp only [recordedIn, pendingIn, List.countP_cons] at hbound hmoved ⊢
      omega
  · rw [show w.counted limits k = w from if_neg hpending]
    exact hinv

/-- **One more step** keeps the invariant, if not too many callers are at it after the step. -/
theorem inv_after (hinv : Inv target limit most w) (hlimit : limits.lookup target = some limit)
    (hwidth : limit + most ≤ Word.range32) (c : Call)
    (hmost : ∀ start, (w.after limits c).pendingIn target start ≤ most) :
    Inv target limit most (w.after limits c) := by
  cases c with
  | check caller => exact hinv.asked hlimit hwidth caller hmost
  | record k => exact hinv.noted hlimit k
  | giveUp k =>
    refine ⟨hinv.counted, fun start => ?_⟩
    exact Nat.le_trans (Nat.add_le_add_left List.erase_sublist.countP_le _) (hinv.bounded start)
  | cleanup =>
    exact ⟨fun start hstart => (countOf_cleanup hstart).trans (hinv.counted start hstart), hinv.bounded⟩
  | wait secs =>
    refine ⟨fun start hstart => hinv.counted start (Int.le_trans (windowStart_mono ?_) hstart),
      hinv.bounded⟩
    show w.second ≤ w.second + secs
    omega

/-- **The invariant holds after any steps.** -/
theorem inv_ofCalls (second : Int) (hlimit : limits.lookup target = some limit)
    (hwidth : limit + most ≤ Word.range32) (calls : List Call)
    (hmost : ∀ earlier, earlier <+: calls → ∀ start,
      (ofCalls limits second earlier).pendingIn target start ≤ most) :
    Inv target limit most (ofCalls limits second calls) := by
  induction calls using List.reverseRecOn with
  | nil => exact inv_start target limit most second
  | append_singleton calls c ih =>
    have hconcat : ofCalls limits second (calls ++ [c]) = (ofCalls limits second calls).after limits c := by
      rw [ofCalls, List.foldl_append]
      rfl
    have hearlier := ih fun earlier h => hmost earlier (h.trans (List.prefix_append _ _))
    have hcrowd := hmost _ (List.prefix_refl _)
    rw [hconcat] at hcrowd ⊢
    exact inv_after hearlier hlimit hwidth c hcrowd

/-- **A budget is overdrawn by the callers that ask at the same time, but one.** For any limits and any
callers, whose steps follow one another in any order, and with clean-ups in between while the clock goes
on: if no more than `most` callers for a target are at the same time between being told that a delivery
fits and counting it, then in every hour no more deliveries are counted than the limit of the target and
`most - 1` more. So callers that ask and count one after the other keep to the limit. The bounds on
counters are those of a word of 32 bits. -/
theorem ofCalls_budget (limits : RateLimits) (second : Int) (calls : List Call) (target : String)
    (limit most : Nat) (hlimit : limits.lookup target = some limit)
    (hwidth : limit + most ≤ Word.range32)
    (hmost : ∀ earlier, earlier <+: calls → ∀ start,
      (ofCalls limits second earlier).pendingIn target start ≤ most) (start : Int) :
    (ofCalls limits second calls).recordedIn target start ≤ limit + (most - 1) := by
  have hbound := (inv_ofCalls second hlimit hwidth calls hmost).bounded start
  omega

/-! ## Two callers at once -/

/-- A target that may receive one delivery an hour. -/
def sampleLimits : RateLimits := [("blog", 1)]

/-- A caller that asks at the beginning of the clock. -/
def sampleTicket : Ticket := ⟨"blog", 0⟩

/-- Callers one after the other: the second one is told that its delivery does not fit. -/
theorem ofCalls_budget_sample :
    (ofCalls sampleLimits 0 [.check "blog", .record sampleTicket, .check "blog", .record sampleTicket]).recordedIn
      "blog" 0 ≤ 1 := by
  refine ofCalls_budget sampleLimits 0 _ "blog" 1 1 rfl (by decide) ?_ 0
  intro earlier hearlier start
  have hshort : ∀ calls ∈ List.inits [.check "blog", .record sampleTicket, .check "blog", .record sampleTicket],
      (ofCalls sampleLimits 0 calls).pending.length ≤ 1 := by decide +kernel
  exact Nat.le_trans List.countP_le_length (hshort _ ((List.mem_inits _ _).mpr hearlier))

/-- **A budget may be overdrawn**: two callers ask before one of them counts its delivery, and both count
theirs in an hour that had room for one. -/
theorem ofCalls_overdrawn :
    sampleLimits.lookup "blog" = some 1 ∧
    (ofCalls sampleLimits 0 [.check "blog", .check "blog", .record sampleTicket, .record sampleTicket]).recordedIn
      "blog" 0 = 2 := by
  decide +kernel

end Traffic
end RateWindows
end Syndication
