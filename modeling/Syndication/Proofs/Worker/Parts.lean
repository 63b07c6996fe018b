import Mathlib.Data.List.Perm.Basic
import Mathlib.Data.List.Count
import Syndication.Job.Table
import Syndication.Platform.Registry
import Syndication.Queue
import Syndication.RateWindow

/-!
# Proofs.Worker.Parts — the rows of one key

All jobs stand in one table, and so do all messages, all budget windows and all platforms. What a worker
does to a table is about the rows of one key: the answer is told by these rows, they are changed whatever
other rows there are, and no other row is changed. Two tables have the same rows if they have the same
rows of each key.

## Contents
* `JobTable.part`, `MessageTable.part`, `RateWindows.part` — the rows of a key
* `get?_part`, `fst_move_part`, `part_move`, `part_acknowledge`, `part_defer`, `check_part`, `part_record`
* `get?_register`                                          — platforms
* `perm_of_parts`
-/

namespace Syndication

/-- Rows are changed where they stand. -/
theorem filter_map_of_same {α : Type} {p : α → Bool} {f : α → α} (hf : ∀ a, p (f a) = p a)
    (rows : List α) : (rows.map f).filter p = (rows.filter p).map f := by
  rw [List.filter_map]
  congr 2
  funext a
  exact hf a

/-- Tables with the same rows of each key have the same rows. -/
theorem perm_of_parts {α κ : Type} [DecidableEq α] [DecidableEq κ] (key : α → κ) {rows rows' : List α}
    (h : ∀ k, rows.filter (key · = k) = rows'.filter (key · = k)) : rows.Perm rows' := by
  rw [List.perm_iff_count]
  intro a
  have hcount : ∀ l : List α, l.count a = (l.filter (key · = key a)).count a := by
    intro l
    rw [List.count_filter (by simp)]
  rw [hcount rows, h, ← hcount rows']

/-! ## Records -/

namespace JobTable

variable {t : JobTable} {jobId k : String} {may : JobRecord → Bool} {change : JobRecord → JobRecord}

/-- The records of one job. -/
def part (t : JobTable) (jobId : String) : JobTable := ⟨t.records.filter (·.jobId = jobId)⟩

theorem get?_part : (t.part jobId).get? jobId = t.get? jobId := by
  simp [part, get?, List.find?_filter]

theorem fst_move_part : ((t.part jobId).move jobId may change).1 = (t.move jobId may change).1 := by
  have hrow : ∀ r : JobRecord, (decide (r.jobId = jobId) && (decide (r.jobId = jobId) && may r)) =
      (decide (r.jobId = jobId) && may r) := by
    intro r
    rw [← Bool.and_assoc, Bool.and_self]
  simp only [move, part, List.any_filter, hrow]

variable (hsame : ∀ r, (change r).jobId = r.jobId)
include hsame

theorem part_move : (t.move jobId may change).2.part jobId = ((t.part jobId).move jobId may change).2 := by
  refine congrArg JobTable.mk (filter_map_of_same (fun r => ?_) t.records)
  split
  · rw [hsame]
  · rfl

/-- A move leaves other jobs alone. -/
theorem part_move_other (hk : k ≠ jobId) : (t.move jobId may change).2.part k = t.part k := by
  refine congrArg JobTable.mk ?_
  have hkeeps : ∀ r ∈ t.records.filter (·.jobId = k),
      (if r.jobId = jobId ∧ may r then change r else r) = r := by
    intro r hr
    have hjob : r.jobId = k := by simpa using (List.mem_filter.mp hr).2
    rw [if_neg]
    rintro ⟨heq, -⟩
    exact hk (hjob.symm.trans heq)
  rw [move, filter_map_of_same, List.map_congr_left hkeeps, List.map_id']
  intro r
  split
  · rw [hsame]
  · rfl

end JobTable

/-! ## Messages -/

namespace MessageTable

variable {t : MessageTable} {h : Held} {id : Nat}

/-- The messages with one number. -/
def part (t : MessageTable) (id : Nat) : MessageTable := { t with messages := t.messages.filter (·.id = id) }

theorem not_isHeld {m : Message} (hm : m.id ≠ h.id) : isHeld h m = false := by
  simp [isHeld, hm]

/-- Who holds a message holds one with its number. -/
theorem any_part : (t.part h.id).messages.any (isHeld h) = t.messages.any (isHeld h) := by
  rw [part, List.any_filter]
  congr 1
  funext m
  rw [isHeld]
  cases decide (m.id = h.id) <;> rfl

theorem fst_acknowledge_part : ((t.part h.id).acknowledge h).1 = (t.acknowledge h).1 := any_part

theorem part_acknowledge : (t.acknowledge h).2.part h.id = ((t.part h.id).acknowledge h).2 := by
  simp only [part, acknowledge, List.filter_filter, Bool.and_comm]

/-- An acknowledgement leaves other messages alone. -/
theorem part_acknowledge_other (hid : id ≠ h.id) : (t.acknowledge h).2.part id = t.part id := by
  simp only [part, acknowledge, List.filter_filter]
  congr 1
  refine List.filter_congr fun m _ => ?_
  by_cases hm : m.id = id
  · rw [not_isHeld (hm ▸ hid)]
    simp
  · simp [hm]

variable (now : Int) (delay : Span) (counts : Bool)

theorem fst_defer_part : ((t.part h.id).defer h now delay counts).1 = (t.defer h now delay counts).1 :=
  any_part

theorem part_defer :
    (t.defer h now delay counts).2.part h.id = ((t.part h.id).defer h now delay counts).2 := by
  refine congrArg (fun rows => ({ t with messages := rows } : MessageTable))
    (filter_map_of_same (fun m => ?_) t.messages)
  split <;> rfl

/-- A deferral leaves other messages alone. -/
theorem part_defer_other (hid : id ≠ h.id) : (t.defer h now delay counts).2.part id = t.part id := by
  refine congrArg (fun rows => ({ t with messages := rows } : MessageTable)) ?_
  have hkeeps : ∀ m ∈ t.messages.filter (·.id = id), (if isHeld h m then
      { m with visibleAt := laterBy now delay,
               dequeueCount := m.dequeueCount - (if counts then 0 else 1) } else m) = m := by
    intro m hm
    have hm : m.id = id := by simpa using (List.mem_filter.mp hm).2
    rw [not_isHeld (hm ▸ hid)]
    rfl
  rw [defer, filter_map_of_same, List.map_congr_left hkeeps, List.map_id']
  intro m
  split <;> rfl

end MessageTable

/-! ## Windows -/

namespace RateWindows

variable {t : RateWindows} {limits : RateLimits} {target k : String} {start second : Int}

/-- The windows of one target. -/
def part (t : RateWindows) (target : String) : RateWindows := ⟨t.windows.filter (·.target = target)⟩

theorem isWindow_target {w : RateWindow} (h : isWindow target start w = true) : w.target = target := by
  rw [isWindow, Bool.and_eq_true, decide_eq_true_eq] at h
  exact h.1

theorem used_part : (t.part target).used target second = t.used target second := by
  have hfind : (t.part target).windows.find? (isWindow target (windowStart second)) =
      t.windows.find? (isWindow target (windowStart second)) := by
    rw [part, List.find?_filter]
    congr 1
    funext w
    rw [isWindow]
    cases decide (w.target = target) <;> simp
  rw [used, used, hfind]

theorem check_part : (t.part target).check limits target second = t.check limits target second := by
  rw [check, check, remaining, remaining, used_part]

theorem any_part : (t.part target).windows.any (isWindow target start) =
    t.windows.any (isWindow target start) := by
  rw [part, List.any_filter]
  congr 1
  funext w
  rw [isWindow]
  cases decide (w.target = target) <;> rfl

theorem part_increment : (t.increment target start).part target = (t.part target).increment target start := by
  rw [increment, increment, any_part]
  split
  · refine congrArg RateWindows.mk (filter_map_of_same (fun w => ?_) t.windows)
    split <;> rfl
  · simp [part]

/-- A delivery that is counted leaves the windows of other targets alone. -/
theorem part_increment_other (hk : k ≠ target) : (t.increment target start).part k = t.part k := by
  rw [increment]
  split
  · refine congrArg RateWindows.mk ?_
    have hkeeps : ∀ w ∈ t.windows.filter (·.target = k),
        (if isWindow target start w then { w with count := w.count + 1 } else w) = w := by
      intro w hw
      have hw : w.target = k := by simpa using (List.mem_filter.mp hw).2
      rw [if_neg fun hwindow => hk (hw.symm.trans (isWindow_target hwindow))]
    rw [filter_map_of_same, List.map_congr_left hkeeps, List.map_id']
    intro w
    split <;> rfl
  · simp [part, hk.symm]

theorem part_record :
    (t.record limits target second).part target = (t.part target).record limits target second := by
  unfold record
  cases limits.lookup target with
  | none => rfl
  | some limit => exact part_increment

theorem part_record_other (hk : k ≠ target) : (t.record limits target second).part k = t.part k := by
  unfold record
  cases limits.lookup target with
  | none => rfl
  | some limit => exact part_increment_other hk

end RateWindows

/-! ## Platforms -/

/-- A platform that is registered is found, and the others are found as before. -/
theorem PlatformRegistry.get?_register (r : PlatformRegistry) (p : Platform) (id : String) :
    (r.register p).get? id = if id = p.id then some p else r.get? id := by
  unfold register get?
  split
  · rename_i hany
    simp only [List.find?_map]
    -- what is put in the place of a platform has the same name
    have hid : ((fun q : Platform => decide (q.id = id)) ∘ fun q => if q.id = p.id then p else q) =
        fun q => decide (q.id = id) := by
      funext q
      simp only [Function.comp_apply]
      split
      · rename_i hq
        rw [hq]
      · rfl
    rw [hid]
    by_cases hsame : id = p.id
    · subst hsame
      rw [if_pos rfl]
      obtain ⟨q, hq, hqid⟩ := List.any_eq_true.mp hany
      cases hfind : r.platforms.find? (·.id = p.id) with
      | none => exact absurd hqid (by simpa using List.find?_eq_none.mp hfind q hq)
      | some found =>
        have hfound : found.id = p.id := by simpa using List.find?_some hfind
        simp [hfound]
    · rw [if_neg hsame]
      cases hfind : r.platforms.find? (·.id = id) with
      | none => rfl
      | some found =>
        have hfound : found.id = id := by simpa using List.find?_some hfind
        simp [hfound, hsame]
  · rename_i hany
    rw [List.find?_append]
    by_cases hsame : id = p.id
    · subst hsame
      have hnone : r.platforms.find? (·.id = p.id) = none := by
        rw [List.find?_eq_none]
        intro q hq hqid
        exact hany (List.any_eq_true.mpr ⟨q, hq, hqid⟩)
      simp [hnone]
    · have hnew : ¬ p.id = id := fun heq => hsame heq.symm
      simp [hsame, hnew]

end Syndication
