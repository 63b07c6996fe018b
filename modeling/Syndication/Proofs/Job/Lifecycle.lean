import Mathlib.Data.List.Induction
import Syndication.Proofs.Job.Table

/-!
# Proofs.Job.Lifecycle — how a record may change

Producers, workers and workers that are late call the job table in any order and with any times. A
record takes only the steps that its status allows, and none once it has ended; a call touches no record
but that of its job, and says that it succeeded exactly when it changed it. Records are never removed, so
the attempts of a job are those it was written with and the claims that succeeded since.

## Contents
* `Operation`, `Operation.on`          — calls on the table
* `Operation.Changes`                 — the steps of a record
* `Answered`, `answered_on`           — what a call does to the record of its job
* `Orderly`, `orderly_of_answered`
* `History`, `History.ofCalls`        — calls and their answers
* `Inv`, `inv_after`, `inv_ofCalls`
* `ofCalls_orderly`
-/

namespace Syndication.JobTable

/-! ## Calls -/

/-- A call on the table. A job is ended by a completion that says so. -/
inductive Operation where
  | insert (r : JobRecord)
  | claim (jobId : String) (now leaseUntil : Int)
  | release (jobId error : String) (now : Int)
  | finish (jobId : String) (c : Completion) (now : Int) (ended : c.status.isTerminal = true)
  deriving DecidableEq

namespace Operation

/-- The job that a call is about. -/
def jobId : Operation → String
  | insert r => r.jobId
  | claim jobId _ _ | release jobId _ _ | finish jobId _ _ _ => jobId

/-- What a call answers and leaves. A new record is an answer of success if it was written. -/
def on (t : JobTable) : Operation → Bool × JobTable
  | insert r => (((JobTable.insert r).exec t).1.isOk, ((JobTable.insert r).exec t).2)
  | claim jobId now leaseUntil => t.claim jobId now leaseUntil
  | release jobId error now => t.release jobId error now
  | finish jobId c now _ => t.finish jobId c now

/-- **The steps of a record**: what a call may make of the record of its job. -/
inductive Changes (r : JobRecord) : Operation → JobRecord → Prop
  /-- A job that waits is claimed. -/
  | claim (now leaseUntil : Int) (waits : r.status = .queued) :
      Changes r (.claim r.jobId now leaseUntil) (r.claimed now leaseUntil)
  /-- A job that is being posted without a lease, or with one that has run out, is claimed again. -/
  | reclaim (now leaseUntil : Int) (posting : r.status = .posting)
      (expired : ∀ lease ∈ r.leaseUntil, lease ≤ now) :
      Changes r (.claim r.jobId now leaseUntil) (r.claimed now leaseUntil)
  /-- A job that is being posted waits again. -/
  | release (error : String) (now : Int) (posting : r.status = .posting) :
      Changes r (.release r.jobId error now) (r.released error now)
  /-- A job that has not ended ends. -/
  | finish (c : Completion) (now : Int) (ended : c.status.isTerminal = true)
      (opened : r.status = .queued ∨ r.status = .posting) :
      Changes r (.finish r.jobId c now ended) (r.finished c now)

/-- The call may do what it is for: its record is new, or may be changed. -/
def IsAllowed (t : JobTable) : Operation → Prop
  | .insert r => t.get? r.jobId = none
  | c => ∃ r r', t.get? c.jobId = some r ∧ c.Changes r r'

end Operation

variable {t : JobTable} {c : Operation} {r r' : JobRecord}

namespace Operation.Changes

theorem jobId (h : c.Changes r r') : r.jobId = c.jobId ∧ r'.jobId = c.jobId := by
  cases h <;> exact ⟨rfl, rfl⟩

theorem not_terminal (h : c.Changes r r') : r.status.isTerminal = false := by
  cases h with
  | claim now leaseUntil waits => rw [waits]; rfl
  | reclaim now leaseUntil posting expired => rw [posting]; rfl
  | release error now posting => rw [posting]; rfl
  | finish completion now ended opened => rcases opened with h | h <;> rw [h] <;> rfl

/-- A change leaves another record than it found: one more attempt, or another status. -/
theorem ne (h : c.Changes r r') : r' ≠ r := by
  intro heq
  cases h with
  | claim now leaseUntil waits =>
    have hattempts : r.attempts + 1 = r.attempts := congrArg JobRecord.attempts heq
    omega
  | reclaim now leaseUntil posting expired =>
    have hattempts : r.attempts + 1 = r.attempts := congrArg JobRecord.attempts heq
    omega
  | release error now posting =>
    have hstatus : JobStatus.queued = r.status := congrArg JobRecord.status heq
    rw [posting] at hstatus
    cases hstatus
  | finish completion now ended opened =>
    have hstatus : completion.status = r.status := congrArg JobRecord.status heq
    rw [hstatus] at ended
    rcases opened with h | h <;> rw [h] at ended <;> cases ended

end Operation.Changes

/-- What a call comes to. -/
inductive Answered (t : JobTable) (c : Operation) : Bool → JobTable → Prop
  | refused (denied : ¬ c.IsAllowed t) : Answered t c false t
  | inserted (r : JobRecord) (call : c = .insert r) (new : ∀ r' ∈ t.records, r'.jobId ≠ r.jobId) :
      Answered t c true ⟨t.records ++ [r]⟩
  | changed (r : JobRecord) (f : JobRecord → JobRecord) (found : t.get? c.jobId = some r)
      (change : c.Changes r (f r)) (keeps : ∀ r, (f r).jobId = r.jobId) (allowed : c.IsAllowed t) :
      Answered t c true (t.update c.jobId f)

/-- No record is moved if the job has none. -/
theorem move_of_unknown {jobId : String} {may : JobRecord → Bool} {f : JobRecord → JobRecord}
    (h : t.get? jobId = none) : t.move jobId may f = (false, t) := by
  have hnot : (t.move jobId may f).1 = false := by
    apply List.any_eq_false.mpr
    intro r hr
    simp [get?_eq_none_iff.mp h r hr]
  exact Prod.ext hnot (move_eq_self hnot)

/-- A call that is a move: the guard of the move says when the record may be changed. -/
theorem answered_move (h : t.HasUniqueIds) (hc : ∀ r, c ≠ .insert r) {may : JobRecord → Bool}
    {f : JobRecord → JobRecord} (keeps : ∀ r, (f r).jobId = r.jobId)
    (hmay : ∀ r, r.jobId = c.jobId → (may r = true ↔ ∃ r', c.Changes r r'))
    (hchange : ∀ r r', c.Changes r r' → r' = f r) :
    Answered t c (t.move c.jobId may f).1 (t.move c.jobId may f).2 := by
  have hallowed : c.IsAllowed t ↔ ∃ r r', t.get? c.jobId = some r ∧ c.Changes r r' := by
    cases c with
    | insert r => exact absurd rfl (hc r)
    | _ => exact Iff.rfl
  cases hget : t.get? c.jobId with
  | none =>
    rw [move_of_unknown hget]
    refine .refused fun hyes => ?_
    obtain ⟨r, -, hfound, -⟩ := hallowed.mp hyes
    rw [hget] at hfound
    cases hfound
  | some r =>
    have hid := (mem_of_get? hget).2
    rw [move_eq h hget]
    split
    · rename_i hyes
      obtain ⟨r', hr'⟩ := (hmay r hid).mp hyes
      have hmade : c.Changes r (f r) := hchange r r' hr' ▸ hr'
      exact .changed r f hget hmade keeps (hallowed.mpr ⟨r, f r, hget, hmade⟩)
    · rename_i hno
      refine .refused fun hyes => hno ((hmay r hid).mpr ?_)
      obtain ⟨r₁, r', hfound, hchanges⟩ := hallowed.mp hyes
      rw [hget] at hfound
      cases hfound
      exact ⟨r', hchanges⟩

theorem isClaimable_iff {now : Int} : r.isClaimable now = true ↔
    r.status = .queued ∨ (r.status = .posting ∧ ∀ lease ∈ r.leaseUntil, lease ≤ now) := by
  unfold JobRecord.isClaimable
  cases r.status <;> cases r.leaseUntil <;> simp

/-- **A call** changes the record of its job as it may, or nothing. -/
theorem answered_on (h : t.HasUniqueIds) (c : Operation) : Answered t c (c.on t).1 (c.on t).2 := by
  cases c with
  | insert r =>
    rw [Operation.on]
    by_cases hnew : ∀ r' ∈ t.records, r'.jobId ≠ r.jobId
    · rw [insert_eq hnew]
      exact .inserted r rfl hnew
    · have hany : t.records.any (·.jobId = r.jobId) = true := by
        push Not at hnew
        simpa using hnew
      rw [insert, Effect.exec_ofFun, hany]
      exact .refused fun hyes => hnew (get?_eq_none_iff.mp hyes)
  | claim jobId now leaseUntil =>
    refine answered_move h (fun r => by simp) (fun _ => rfl) ?_ ?_
    · rintro r rfl
      rw [isClaimable_iff]
      constructor
      · rintro (hwaits | ⟨hposting, hexpired⟩)
        · exact ⟨_, .claim now leaseUntil hwaits⟩
        · exact ⟨_, .reclaim now leaseUntil hposting hexpired⟩
      · rintro ⟨r', hchange⟩
        cases hchange with
        | claim now leaseUntil waits => exact .inl waits
        | reclaim now leaseUntil posting expired => exact .inr ⟨posting, expired⟩
    · intro r r' hchange
      cases hchange <;> rfl
  | release jobId error now =>
    refine answered_move h (fun r => by simp) (fun _ => rfl) ?_ ?_
    · rintro r rfl
      rw [beq_iff_eq]
      constructor
      · exact fun hposting => ⟨_, .release error now hposting⟩
      · rintro ⟨r', hchange⟩
        cases hchange with
        | release error now posting => exact posting
    · intro r r' hchange
      cases hchange
      rfl
  | finish jobId completion now ended =>
    refine answered_move h (fun r => by simp) (fun _ => rfl) ?_ ?_
    · rintro r rfl
      have hopen : (!r.status.isTerminal) = true ↔ r.status = .queued ∨ r.status = .posting := by
        cases r.status <;> simp [JobStatus.isTerminal]
      rw [hopen]
      constructor
      · exact fun hopen => ⟨_, .finish completion now ended hopen⟩
      · rintro ⟨r', hchange⟩
        cases hchange with
        | finish completion now ended opened => exact opened
    · intro r r' hchange
      cases hchange
      rfl

/-! ## What a call leaves -/

/-- **A call is orderly**: records stay or take a step that the call makes, those that have ended stay as
they are, new ones are those that were written, other jobs are not touched, and the call succeeds exactly
if it may do what it is for, and then has changed the record of its job. -/
structure Orderly (t : JobTable) (c : Operation) (succeeded : Bool) (t' : JobTable) : Prop where
  kept : ∀ r ∈ t.records, ∃ r' ∈ t'.records, r' = r ∨ c.Changes r r'
  final : ∀ r ∈ t.records, r.status.isTerminal = true → r ∈ t'.records
  added : ∀ r' ∈ t'.records, c = .insert r' ∨ ∃ r ∈ t.records, r.jobId = r'.jobId
  others : ∀ id, id ≠ c.jobId → t'.get? id = t.get? id
  moved : succeeded = true ↔ t'.get? c.jobId ≠ t.get? c.jobId
  allowed : succeeded = true ↔ c.IsAllowed t

theorem get?_append (hnew : ∀ r' ∈ t.records, r'.jobId ≠ r.jobId) (id : String) :
    (⟨t.records ++ [r]⟩ : JobTable).get? id = if id = r.jobId then some r else t.get? id := by
  rw [get?, List.find?_append]
  split
  · rename_i heq
    have hnone : t.records.find? (·.jobId = id) = none := get?_eq_none_iff.mpr (heq ▸ hnew)
    rw [hnone, Option.none_or, List.find?_cons_of_pos]
    simpa using heq.symm
  · rename_i hne
    rw [List.find?_cons_of_neg (by simpa using Ne.symm hne), List.find?_nil, Option.or_none]
    rfl

theorem orderly_of_answered (h : t.HasUniqueIds) {succeeded : Bool} {t' : JobTable}
    (ha : Answered t c succeeded t') : Orderly t c succeeded t' := by
  cases ha with
  | refused denied =>
    exact ⟨fun r hr => ⟨r, hr, .inl rfl⟩, fun r hr _ => hr, fun r hr => .inr ⟨r, hr, rfl⟩,
      fun _ _ => rfl, by simp, by simpa using denied⟩
  | inserted r call new =>
    subst call
    have hnone : t.get? r.jobId = none := get?_eq_none_iff.mpr new
    refine ⟨fun r' hr' => ⟨r', List.mem_append_left _ hr', .inl rfl⟩,
      fun r' hr' _ => List.mem_append_left _ hr', ?_, ?_, ?_, iff_of_true rfl hnone⟩
    · intro r' hr'
      rcases List.mem_append.mp hr' with hold | hlast
      · exact .inr ⟨r', hold, rfl⟩
      · exact .inl (by rw [List.mem_singleton.mp hlast])
    · intro id hne
      rw [get?_append new]
      exact if_neg hne
    · have hadded : (⟨t.records ++ [r]⟩ : JobTable).get? r.jobId = some r := by
        rw [get?_append new, if_pos rfl]
      show true = true ↔ _ ≠ t.get? r.jobId
      rw [Operation.jobId, hadded, hnone]
      simp
  | changed r f found change keeps allowed =>
    obtain ⟨hr, hid⟩ := mem_of_get? found
    -- the one record of the job is the one that was found
    have honly : ∀ r' ∈ t.records, r'.jobId = c.jobId → r' = r := fun r' hr' heq =>
      eq_of_jobId h hr hr' (heq.trans hid.symm)
    refine ⟨?_, ?_, ?_, ?_, ?_, iff_of_true rfl allowed⟩
    · intro r' hr'
      refine ⟨_, mem_update.mpr ⟨r', hr', rfl⟩, ?_⟩
      split
      · rename_i heq
        rw [honly r' hr' heq]
        exact .inr change
      · exact .inl rfl
    · intro r' hr' hended
      refine mem_update.mpr ⟨r', hr', (if_neg fun heq => ?_).symm⟩
      rw [honly r' hr' heq, change.not_terminal] at hended
      cases hended
    · intro r' hr'
      obtain ⟨r₀, hr₀, rfl⟩ := mem_update.mp hr'
      refine .inr ⟨r₀, hr₀, ?_⟩
      split
      · exact (keeps r₀).symm
      · rfl
    · intro id hne
      rw [get?_update h keeps, if_neg hne]
    · rw [get?_update h keeps, if_pos rfl, found]
      simpa using change.ne

/-! ## Histories -/

/-- A table and the calls that led to it, each with what it answered. -/
structure History where
  table : JobTable := {}
  answers : List (Operation × Bool) := []

/-- The call is a claim of this job. -/
def Operation.isClaimOf (jobId : String) : Operation → Bool
  | claim id _ _ => decide (id = jobId)
  | _ => false

theorem Operation.Changes.attempts (h : c.Changes r r') :
    r'.attempts = r.attempts + if c.isClaimOf r.jobId then 1 else 0 := by
  cases h <;> simp [Operation.isClaimOf, JobRecord.claimed, JobRecord.released, JobRecord.finished]

theorem Operation.jobId_of_isClaimOf {jobId : String} (h : c.isClaimOf jobId = true) : c.jobId = jobId := by
  cases c with
  | claim id now leaseUntil => exact of_decide_eq_true h
  | _ => cases h

namespace History

variable {h : History}

/-- One more call with its answer, and the table that it left. -/
def note (h : History) (t : JobTable) (c : Operation) (succeeded : Bool) : History :=
  ⟨t, h.answers ++ [(c, succeeded)]⟩

/-- One more call. -/
def after (h : History) (c : Operation) : History := h.note (c.on h.table).2 c (c.on h.table).1

/-- The history of calls on an empty table. -/
def ofCalls (calls : List Operation) : History := calls.foldl after {}

/-- How many claims of a job have succeeded. -/
def claimsOf (h : History) (jobId : String) : Nat := h.answers.countP fun a => a.2 && a.1.isClaimOf jobId

theorem ofCalls_concat (calls : List Operation) (c : Operation) :
    ofCalls (calls ++ [c]) = (ofCalls calls).after c := by
  rw [ofCalls, List.foldl_append]
  rfl

theorem claimsOf_note (t : JobTable) (c : Operation) (succeeded : Bool) (jobId : String) :
    (h.note t c succeeded).claimsOf jobId =
      h.claimsOf jobId + if succeeded && c.isClaimOf jobId then 1 else 0 := by
  simp only [claimsOf, note, List.countP_append, List.countP_singleton]

theorem mem_note {t : JobTable} {succeeded : Bool} {a : Operation × Bool} :
    a ∈ (h.note t c succeeded).answers ↔ a ∈ h.answers ∨ a = (c, succeeded) := by
  rw [note, List.mem_append, List.mem_singleton]

/-- **The invariant of a history**: each record was written by a call that succeeded, and has made as many
attempts since as claims of its job succeeded. -/
structure Inv (h : History) : Prop where
  unique : h.table.HasUniqueIds
  written : ∀ r ∈ h.table.records, ∃ r₀, (.insert r₀, true) ∈ h.answers ∧ r₀.jobId = r.jobId
  counted : ∀ r₀, (.insert r₀, true) ∈ h.answers → ∃ r, h.table.get? r₀.jobId = some r ∧
    r.attempts = r₀.attempts + h.claimsOf r₀.jobId
  /-- A call succeeds only for a job that has a record then and ever after. -/
  known : ∀ a ∈ h.answers, a.2 = true → ∃ r ∈ h.table.records, r.jobId = a.1.jobId

theorem inv_start : Inv {} where
  unique := List.nodup_nil
  written := fun _ hr => nomatch hr
  counted := fun _ hr => nomatch hr
  known := fun _ ha => nomatch ha

/-- A new record has no claims yet, since no call on its job has succeeded. -/
theorem Inv.claimsOf_eq_zero (hinv : Inv h) {jobId : String}
    (hnew : ∀ r ∈ h.table.records, r.jobId ≠ jobId) : h.claimsOf jobId = 0 := by
  rw [claimsOf, List.countP_eq_zero]
  intro a ha hclaim
  rw [Bool.and_eq_true] at hclaim
  obtain ⟨r, hr, hid⟩ := hinv.known a ha hclaim.1
  exact hnew r hr (hid.trans (Operation.jobId_of_isClaimOf hclaim.2))

/-- A call that changed nothing. -/
theorem Inv.refused (hinv : Inv h) (c : Operation) : Inv (h.note h.table c false) where
  unique := hinv.unique
  written := by
    intro r hr
    obtain ⟨r₀, hr₀, hid⟩ := hinv.written r hr
    exact ⟨r₀, mem_note.mpr (.inl hr₀), hid⟩
  counted := by
    intro r₀ hr₀
    obtain ⟨r, hr, hattempts⟩ := hinv.counted r₀ (by simpa [mem_note] using hr₀)
    exact ⟨r, hr, by rw [claimsOf_note, hattempts]; rfl⟩
  known := by
    intro a ha hsucceeded
    rcases mem_note.mp ha with hold | rfl
    · exact hinv.known a hold hsucceeded
    · cases hsucceeded

/-- A record that was written. -/
theorem Inv.inserted (hinv : Inv h) (new : ∀ r' ∈ h.table.records, r'.jobId ≠ r.jobId) :
    Inv (h.note ⟨h.table.records ++ [r]⟩ (.insert r) true) where
  unique := hinv.unique.append new
  written := by
    intro r' hr'
    rcases List.mem_append.mp hr' with hold | hlast
    · obtain ⟨r₀, hr₀, hid⟩ := hinv.written r' hold
      exact ⟨r₀, mem_note.mpr (.inl hr₀), hid⟩
    · rw [List.mem_singleton.mp hlast]
      exact ⟨r, mem_note.mpr (.inr rfl), rfl⟩
  counted := by
    intro r₀ hr₀
    have hget := get?_append new r₀.jobId
    rw [claimsOf_note]
    rcases mem_note.mp hr₀ with hold | hlast
    · obtain ⟨r', hr', hattempts⟩ := hinv.counted r₀ hold
      obtain ⟨hmem, hid⟩ := mem_of_get? hr'
      rw [if_neg (hid ▸ new r' hmem)] at hget
      exact ⟨r', hget.trans hr', hattempts⟩
    · -- what has no record was never claimed
      obtain rfl : r₀ = r := by simpa using hlast
      rw [if_pos rfl] at hget
      rw [hinv.claimsOf_eq_zero new]
      exact ⟨r₀, hget, rfl⟩
  known := by
    intro a ha hsucceeded
    rcases mem_note.mp ha with hold | rfl
    · obtain ⟨r', hr', hid⟩ := hinv.known a hold hsucceeded
      exact ⟨r', List.mem_append_left _ hr', hid⟩
    · exact ⟨r, List.mem_append_right _ (List.mem_singleton_self _), rfl⟩

/-- A record that was changed. -/
theorem Inv.changed (hinv : Inv h) {f : JobRecord → JobRecord} (found : h.table.get? c.jobId = some r)
    (change : c.Changes r (f r)) (keeps : ∀ r, (f r).jobId = r.jobId) :
    Inv (h.note (h.table.update c.jobId f) c true) := by
  obtain ⟨hr, hid⟩ := mem_of_get? found
  have hkept : ∀ {id}, (∃ r₁ ∈ h.table.records, r₁.jobId = id) →
      ∃ r₁ ∈ (h.table.update c.jobId f).records, r₁.jobId = id := by
    rintro id hold
    rw [← List.mem_map] at hold ⊢
    rwa [update_jobIds keeps]
  have hold : ∀ r₀, (Operation.insert r₀, true) ∈ (h.note (h.table.update c.jobId f) c true).answers →
      (Operation.insert r₀, true) ∈ h.answers := by
    intro r₀ hr₀
    rcases mem_note.mp hr₀ with hold | hlast
    · exact hold
    · -- what changed a record is no insertion
      obtain ⟨rfl, -⟩ := Prod.mk.inj hlast
      cases change
  refine ⟨hinv.unique.update keeps, ?_, ?_, ?_⟩
  · intro r' hr'
    have hmem : r'.jobId ∈ (h.table.update c.jobId f).records.map (·.jobId) := List.mem_map_of_mem hr'
    rw [update_jobIds keeps, List.mem_map] at hmem
    obtain ⟨r₁, hr₁, heq⟩ := hmem
    obtain ⟨r₀, hr₀, hid₀⟩ := hinv.written r₁ hr₁
    exact ⟨r₀, mem_note.mpr (.inl hr₀), hid₀.trans heq⟩
  · intro r₀ hr₀
    obtain ⟨r', hr', hattempts⟩ := hinv.counted r₀ (hold r₀ hr₀)
    have hget : (h.table.update c.jobId f).get? r₀.jobId = _ := get?_update hinv.unique keeps r₀.jobId
    rw [hr'] at hget
    rw [claimsOf_note, Bool.true_and, ← Nat.add_assoc, ← hattempts]
    by_cases hjob : r₀.jobId = c.jobId
    · obtain rfl : r' = r := Option.some.inj (hr'.symm.trans (hjob ▸ found))
      rw [if_pos hjob] at hget
      refine ⟨f r', hget, ?_⟩
      rw [change.attempts, hjob, hid]
    · rw [if_neg hjob] at hget
      have hother : ¬ c.isClaimOf r₀.jobId = true := fun hclaim =>
        hjob (Operation.jobId_of_isClaimOf hclaim).symm
      exact ⟨r', hget, by rw [if_neg hother]; rfl⟩
  · intro a ha hsucceeded
    rcases mem_note.mp ha with hearlier | rfl
    · exact hkept (hinv.known a hearlier hsucceeded)
    · exact hkept ⟨r, hr, hid⟩

/-- **One more call** keeps the invariant. -/
theorem inv_after (hinv : Inv h) (c : Operation) : Inv (h.after c) := by
  have hanswered := answered_on hinv.unique c
  unfold after
  generalize c.on h.table = answer at hanswered ⊢
  obtain ⟨succeeded, t'⟩ := answer
  cases hanswered with
  | refused denied => exact hinv.refused c
  | inserted r call new => exact call ▸ hinv.inserted new
  | changed r f found change keeps allowed => exact hinv.changed found change keeps

/-- **The invariant holds after any calls.** -/
theorem inv_ofCalls (calls : List Operation) : Inv (ofCalls calls) := by
  induction calls using List.reverseRecOn with
  | nil => exact inv_start
  | append_singleton calls c ih =>
    rw [ofCalls_concat]
    exact inv_after ih c

/-- What has ended stays as it is, whatever is called after that. -/
theorem final_ofCalls (calls more : List Operation) {r : JobRecord} (hr : r ∈ (ofCalls calls).table.records)
    (hended : r.status.isTerminal = true) : r ∈ (ofCalls (calls ++ more)).table.records := by
  induction more using List.reverseRecOn with
  | nil => rwa [List.append_nil]
  | append_singleton more c ih =>
    rw [← List.append_assoc, ofCalls_concat]
    have hunique := (inv_ofCalls (calls ++ more)).unique
    exact (orderly_of_answered hunique (answered_on hunique c)).final r ih hended

/-- **Every caller keeps to the steps of a record.** After any calls, by anyone, in any order and with any
times: no two records are of one job; one more call is orderly, so that a job that waits is posted, one
that is being posted is claimed again once its lease has run out, or waits again, and one that has not
ended ends, and the call says whether it made such a step; a record that has ended is never changed
again; and the records are those whose writing succeeded, each with the attempts that it was written with
and one more for every claim of its job that succeeded. -/
theorem ofCalls_orderly (calls : List Operation) :
    (ofCalls calls).table.HasUniqueIds ∧
    (∀ c, Orderly (ofCalls calls).table c (c.on (ofCalls calls).table).1
      (c.on (ofCalls calls).table).2) ∧
    (∀ more, ∀ r ∈ (ofCalls calls).table.records, r.status.isTerminal = true →
      r ∈ (ofCalls (calls ++ more)).table.records) ∧
    (∀ r ∈ (ofCalls calls).table.records,
      ∃ r₀, (.insert r₀, true) ∈ (ofCalls calls).answers ∧ r₀.jobId = r.jobId) ∧
    ∀ r₀, (.insert r₀, true) ∈ (ofCalls calls).answers →
      ∃ r, (ofCalls calls).table.get? r₀.jobId = some r ∧
        r.attempts = r₀.attempts + (ofCalls calls).claimsOf r₀.jobId := by
  have hinv := inv_ofCalls calls
  refine ⟨hinv.unique, fun c => orderly_of_answered hinv.unique (answered_on hinv.unique c), ?_,
    hinv.written, hinv.counted⟩
  exact fun more r => final_ofCalls calls more

/-! ## A job that is claimed too late -/

/-- The record of a job that is written, claimed and ended. -/
def sampleRecord : JobRecord := .queued ⟨"post", "job", "ada", "blog", none, .queued, []⟩ 0

/-- The calls of its worker. -/
def sampleCalls : List Operation :=
  [.insert sampleRecord, .claim "job" 0 30, .finish "job" { status := .posted } 5 rfl]

/-- The claim of a worker that is late fails and leaves the record of the delivery. -/
theorem ofCalls_orderly_late : ∃ r,
    (ofCalls sampleCalls).table.get? "job" = some r ∧ r.status = .posted ∧ r.attempts = 1 ∧
      ((Operation.claim "job" 60 90).on (ofCalls sampleCalls).table).1 = false ∧
      r ∈ (ofCalls (sampleCalls ++ [.claim "job" 60 90])).table.records := by
  obtain ⟨-, hcall, hfinal, -, hcounted⟩ := ofCalls_orderly sampleCalls
  obtain ⟨r, hget, hattempts⟩ := hcounted sampleRecord (by decide +kernel)
  have hclaims : (ofCalls sampleCalls).claimsOf "job" = 1 := by decide +kernel
  have hposted : ((ofCalls sampleCalls).table.get? "job").map (·.status) = some .posted := by
    decide +kernel
  have hfound : (ofCalls sampleCalls).table.get? "job" = some r := hget
  have hstatus : r.status = .posted := by
    rw [hfound] at hposted
    exact Option.some.inj hposted
  have hended : r.status.isTerminal = true := by
    rw [hstatus]
    rfl
  refine ⟨r, hfound, hstatus, hattempts.trans ?_, ?_, hfinal _ r (mem_of_get? hfound).1 hended⟩
  · show 0 + (ofCalls sampleCalls).claimsOf "job" = 1
    rw [hclaims]
  · rw [Bool.eq_false_iff]
    intro hsucceeded
    obtain ⟨r', r'', hfound', hchange⟩ := (hcall (.claim "job" 60 90)).allowed.mp hsucceeded
    rw [show (ofCalls sampleCalls).table.get? (Operation.jobId (.claim "job" 60 90)) = some r from hfound]
      at hfound'
    obtain rfl := Option.some.inj hfound'
    rw [hchange.not_terminal] at hended
    cases hended

end History

end Syndication.JobTable
