import Syndication.Proofs.Job.Lifecycle
import Syndication.Worker

/-!
# Proofs.Job.Lease — a lease keeps other workers out

A worker that claims a job has it until its lease runs out. Clocks show milliseconds and leases end on
whole seconds: the reading of a claim is rounded down and the end of its lease is rounded up, so that
whoever claims the job next does so a whole timeout later, unless the job was given back in between. By
then the first worker has abandoned its delivery.

## Contents
* `leaseDeadline_ge`                    — how a lease is rounded
* `Call`, `Call.on`, `Call.GivesBack`   — calls of workers
* `after`, `answers`
* `Withheld`, `withheld_on`, `withheld_after`
* `claims_apart`
-/

namespace Syndication.JobTable.Lease

/-! ## Rounding -/

/-- A lease does not end before the reading of its claim moved on by the timeout. -/
theorem leaseDeadline_ge (reading : Int) (visibility : Span) :
    laterBy reading visibility ≤ Worker.leaseDeadline reading visibility * 1000 := by
  have hsplit := Int.mul_fdiv_add_fmod (laterBy reading visibility) 1000
  have hlt := Int.fmod_lt_of_pos (laterBy reading visibility) (by decide : (0 : Int) < 1000)
  show _ ≤ ((laterBy reading visibility).fdiv 1000 +
    if (laterBy reading visibility).fmod 1000 = 0 then 0 else 1) * 1000
  split <;> omega

/-- No reading of the clock is beyond itself moved on, also where the clock ends. -/
theorem le_laterBy {reading : Int} (h : reading ≤ clockMax) (visibility : Span) :
    reading ≤ laterBy reading visibility := by
  have hnonneg : 0 ≤ visibility.clampMillis := by
    unfold Span.clampMillis clockMax
    omega
  unfold laterBy
  omega

/-- Far from the end of the clock nothing is cut off. -/
theorem laterBy_ofMillis {reading : Int} {millis : Nat} (hmillis : (millis : Int) ≤ clockMax)
    (hend : reading + millis ≤ clockMax) : laterBy reading (Span.ofMillis millis) = reading + millis := by
  have hwhole : (Span.ofMillis millis).millis = millis := Nat.mul_div_cancel _ (by decide)
  rw [laterBy, Span.clampMillis, hwhole]
  omega

/-- The second of a reading begins at the reading or before. -/
theorem secondOf_mul_le (reading : Int) : secondOf reading * 1000 ≤ reading := by
  have hsplit := Int.mul_fdiv_add_fmod reading 1000
  have hnonneg := Int.fmod_nonneg_of_pos reading (by decide : (0 : Int) < 1000)
  unfold secondOf
  omega

/-! ## Calls -/

/-- A call of a worker. A claim is made at a reading of the clock in milliseconds and with the timeout of
its worker; a job may be ended by any completion, also by one that does not say that it has ended. -/
inductive Call where
  | claim (jobId : String) (reading : Int) (visibility : Span)
  | release (jobId error : String) (second : Int)
  | finish (jobId : String) (c : Completion) (second : Int)

namespace Call

/-- The job that a call is about. -/
def jobId : Call → String
  | claim jobId _ _ | release jobId _ _ | finish jobId _ _ => jobId

/-- What a call answers and leaves. -/
def on (t : JobTable) : Call → Bool × JobTable
  | claim jobId reading visibility =>
    t.claim jobId (secondOf reading) (Worker.leaseDeadline reading visibility)
  | release jobId error second => t.release jobId error second
  | finish jobId c second => t.finish jobId c second

/-- The records that a call changes. -/
def may (r : JobRecord) : Call → Bool
  | claim _ reading _ => r.isClaimable (secondOf reading)
  | release _ _ _ => r.status == .posting
  | finish _ _ _ => !r.status.isTerminal

/-- What a call makes of a record. -/
def change (r : JobRecord) : Call → JobRecord
  | claim _ reading visibility =>
    r.claimed (secondOf reading) (Worker.leaseDeadline reading visibility)
  | release _ error second => r.released error second
  | finish _ c second => r.finished c second

/-- The call gives a job back: it is released, or ended without having ended. -/
def GivesBack (id : String) : Call → Prop
  | claim _ _ _ => False
  | release jobId _ _ => jobId = id
  | finish jobId c _ => jobId = id ∧ c.status.isTerminal = false

/-- A claim is made at a reading that the clock can show. -/
def InRange : Call → Prop
  | claim _ reading _ => reading ≤ clockMax
  | release _ _ _ | finish _ _ _ => True

variable {t : JobTable} {c : Call}

theorem on_eq (t : JobTable) (c : Call) :
    c.on t = t.move c.jobId (fun r => c.may r) (fun r => c.change r) := by
  cases c <;> rfl

theorem change_jobId (c : Call) (r : JobRecord) : (c.change r).jobId = r.jobId := by
  cases c <;> rfl

theorem unique_on (h : t.HasUniqueIds) (c : Call) : (c.on t).2.HasUniqueIds := by
  cases c with
  | claim jobId reading visibility => exact (moves_claim t jobId _ _).hasUniqueIds h
  | release jobId error second => exact (moves_release t jobId error second).hasUniqueIds h
  | finish jobId completion second => exact (moves_finish t jobId completion second).hasUniqueIds h

/-- A call changes the record of its job if it may, and says whether it did. -/
theorem on_of_get? (h : t.HasUniqueIds) {r : JobRecord} (hget : t.get? c.jobId = some r) :
    (c.on t).1 = c.may r ∧
      (c.on t).2.get? c.jobId = some (if c.may r then c.change r else r) := by
  rw [on_eq, move_eq h hget]
  split
  · rename_i hmay
    refine ⟨hmay.symm, ?_⟩
    rw [get?_update h (change_jobId c), if_pos rfl, hget]
    rfl
  · rename_i hnot
    exact ⟨(Bool.eq_false_iff.mpr hnot).symm, hget⟩

/-- A call on another job leaves a record as it is. -/
theorem get?_on_of_ne (h : t.HasUniqueIds) {id : String} (hne : id ≠ c.jobId) :
    (c.on t).2.get? id = t.get? id := by
  rw [on_eq]
  cases hget : t.get? c.jobId with
  | none => rw [move_of_unknown hget]
  | some r =>
    rw [move_eq h hget]
    split
    · rw [get?_update h (change_jobId c), if_neg hne]
    · rfl

end Call

/-- The table after calls. -/
def after (t : JobTable) (calls : List Call) : JobTable := calls.foldl (fun t c => (c.on t).2) t

/-- What calls answer, one after the other. -/
def answers (t : JobTable) : List Call → List (Call × Bool)
  | [] => []
  | c :: rest => (c, (c.on t).1) :: answers (c.on t).2 rest

variable {t : JobTable} {c : Call} {calls : List Call} {jobId : String} {earliest reading : Int}

theorem unique_after (h : t.HasUniqueIds) (calls : List Call) : (after t calls).HasUniqueIds := by
  induction calls generalizing t with
  | nil => exact h
  | cons c rest ih => exact ih (c.unique_on h)

/-! ## Records that are withheld -/

/-- Whoever claims the job does so at a second that begins no earlier than `earliest`. -/
def Withheld (t : JobTable) (jobId : String) (earliest : Int) : Prop :=
  ∃ r, t.get? jobId = some r ∧ ∀ second, r.isClaimable second = true → earliest ≤ second * 1000

/-- A job that was claimed is claimed again when its lease has run out. -/
theorem isClaimable_claimed {r : JobRecord} {now lease second : Int} :
    (r.claimed now lease).isClaimable second = true ↔ lease ≤ second := by
  simp [JobRecord.isClaimable, JobRecord.claimed]

theorem not_isClaimable_finished {r : JobRecord} {completion : Completion} {now second : Int}
    (h : completion.status.isTerminal = true) : (r.finished completion now).isClaimable second = false := by
  rw [Bool.eq_false_iff]
  intro hclaim
  rcases isClaimable_iff.mp hclaim with hwaits | ⟨hposting, -⟩
  · rw [show completion.status = .queued from hwaits] at h
    cases h
  · rw [show completion.status = .posting from hposting] at h
    cases h

/-- **A claim that succeeds** withholds its job for the timeout. -/
theorem withheld_claim (h : t.HasUniqueIds) (visibility : Span)
    (hclaimed : ((Call.claim jobId reading visibility).on t).1 = true) :
    Withheld ((Call.claim jobId reading visibility).on t).2 jobId (laterBy reading visibility) := by
  cases hget : t.get? jobId with
  | none =>
    have hmoved : (Call.claim jobId reading visibility).on t = (false, t) := move_of_unknown hget
    rw [hmoved] at hclaimed
    cases hclaimed
  | some r =>
    obtain ⟨hmay, hleft⟩ := Call.on_of_get? (c := .claim jobId reading visibility) h hget
    rw [hclaimed] at hmay
    rw [← hmay, if_pos rfl] at hleft
    refine ⟨_, hleft, fun second hsecond => ?_⟩
    have hlease : Worker.leaseDeadline reading visibility ≤ second := isClaimable_claimed.mp hsecond
    have hround := leaseDeadline_ge reading visibility
    omega

/-- **One more call** that does not give the job back. A claim that succeeds is late enough, and its own
lease ends later still. -/
theorem withheld_on (h : t.HasUniqueIds) (hwithheld : Withheld t jobId earliest) (hrange : c.InRange)
    (hkept : (c.on t).1 = true → ¬ c.GivesBack jobId) : Withheld (c.on t).2 jobId earliest := by
  obtain ⟨r, hget, hlate⟩ := hwithheld
  by_cases hjob : jobId = c.jobId
  · subst hjob
    obtain ⟨hmay, hleft⟩ := Call.on_of_get? h hget
    cases hmoved : c.may r with
    | false =>
      rw [hmoved, if_neg Bool.false_ne_true] at hleft
      exact ⟨r, hleft, hlate⟩
    | true =>
      rw [hmoved, if_pos rfl] at hleft
      have hnot := hkept (hmay.trans hmoved)
      refine ⟨_, hleft, fun second hsecond => ?_⟩
      cases c with
      | claim id reading visibility =>
        -- the second of the claim is late enough, and its own lease ends after that second
        have hbefore : earliest ≤ secondOf reading * 1000 := hlate _ hmoved
        have hlease : Worker.leaseDeadline reading visibility ≤ second := isClaimable_claimed.mp hsecond
        have hround := leaseDeadline_ge reading visibility
        have hfloor := secondOf_mul_le reading
        have hforward := le_laterBy hrange visibility
        omega
      | release id error now => exact absurd rfl hnot
      | finish id completion now =>
        have hended : completion.status.isTerminal = true := by
          rw [← Bool.not_eq_false]
          exact fun hopen => hnot ⟨rfl, hopen⟩
        have hnever : ((Call.finish id completion now).change r).isClaimable second = false :=
          not_isClaimable_finished hended
        rw [hnever] at hsecond
        cases hsecond
  · exact ⟨r, (Call.get?_on_of_ne h hjob).trans hget, hlate⟩

/-- **Any calls** that do not give the job back. -/
theorem withheld_after (h : t.HasUniqueIds) (hwithheld : Withheld t jobId earliest)
    (hrange : ∀ c ∈ calls, c.InRange)
    (hkept : ∀ a ∈ answers t calls, a.2 = true → ¬ a.1.GivesBack jobId) :
    Withheld (after t calls) jobId earliest := by
  induction calls generalizing t with
  | nil => exact hwithheld
  | cons c rest ih =>
    have hfirst := withheld_on h hwithheld (hrange c List.mem_cons_self) (hkept _ List.mem_cons_self)
    exact ih (c.unique_on h) hfirst (fun c' hc' => hrange c' (List.mem_cons_of_mem _ hc'))
      fun a ha => hkept a (List.mem_cons_of_mem _ ha)

/-! ## Two claims -/

/-- Four fifths of a timeout are over before the timeout. -/
theorem nanos_deliveryDeadline_lt {millis : Nat} (h : 0 < millis) :
    (deliveryDeadline (Span.ofMillis millis)).nanos < millis * 1000000 := by
  show millis * 1000000 - millis * 1000000 / 5 < millis * 1000000
  omega

/-- **Two claims of a job lie a whole timeout apart**, unless the job was given back in between. After any
calls of any workers, and with any calls between the two: if both claims succeed, and no call in between
released the job or ended it without having ended it, the second one is made no earlier than the reading
of the first moved on by its timeout, so after the first delivery was abandoned. Timeouts are whole
milliseconds, and the end of the first lease is on the clock. A clock shows no reading before 1970; for
one that did, the timeout itself has to be as many milliseconds as a clock counts. -/
theorem claims_apart (start : JobTable) (hunique : start.HasUniqueIds) (before between : List Call)
    (jobId : String) (first second : Int) (millis : Nat) (visibility : Span)
    (hpos : 0 < millis) (hshown : 0 ≤ first ∨ (millis : Int) ≤ clockMax)
    (hend : first + millis ≤ clockMax)
    (hrange : ∀ c ∈ between, c.InRange)
    (hfirst : ((Call.claim jobId first (.ofMillis millis)).on (after start before)).1 = true)
    (hkept : ∀ a ∈ answers (after start (before ++ [.claim jobId first (.ofMillis millis)])) between,
      a.2 = true → ¬ a.1.GivesBack jobId)
    (hsecond : ((Call.claim jobId second visibility).on
      (after start (before ++ .claim jobId first (.ofMillis millis) :: between))).1 = true) :
    first + millis ≤ second ∧
      first * 1000000 + (deliveryDeadline (.ofMillis millis)).nanos < second * 1000000 := by
  have hmillis : (millis : Int) ≤ clockMax := by omega
  have hearlier := unique_after hunique before
  have hclaimed := withheld_claim hearlier (.ofMillis millis) hfirst
  rw [laterBy_ofMillis hmillis hend] at hclaimed
  simp only [after, List.foldl_append, List.foldl_cons, List.foldl_nil] at hkept hsecond
  obtain ⟨r, hget, hlate⟩ := withheld_after (Call.unique_on hearlier _) hclaimed hrange hkept
  have hmay := (Call.on_of_get? (c := .claim jobId second visibility)
    (unique_after (Call.unique_on hearlier _) between) hget).1
  have hapart : first + millis ≤ second :=
    Int.le_trans (hlate _ (hmay.symm.trans hsecond)) (secondOf_mul_le second)
  have hdeadline := nanos_deliveryDeadline_lt hpos
  exact ⟨hapart, by omega⟩

/-- A job that waits. -/
def sampleTable : JobTable := ⟨[.queued ⟨"post", "job", "ada", "blog", none, .queued, []⟩ 0]⟩

/-- The lease of a claim in the last millisecond of a second is rounded up: a claim within the timeout
fails, the next one succeeds. -/
theorem claims_apart_rounded :
    ((Call.claim "job" 11999 (.ofMillis 1000)).on
      (after sampleTable [.claim "job" 10999 (.ofMillis 1000)])).1 = false ∧
    ((Call.claim "job" 12000 (.ofMillis 1000)).on (after sampleTable
      [.claim "job" 10999 (.ofMillis 1000), .claim "job" 11999 (.ofMillis 1000)])).1 = true ∧
    (10999 + (1000 : Nat) : Int) ≤ 12000 := by
  refine ⟨by decide +kernel, by decide +kernel, ?_⟩
  refine (claims_apart sampleTable (List.nodup_singleton _) [] [.claim "job" 11999 (.ofMillis 1000)] "job" 10999
    12000 1000 (.ofMillis 1000) (by decide) (.inl (by decide)) (by decide) ?_ (by decide +kernel) ?_
    (by decide +kernel)).1
  · intro c hc
    rw [List.mem_singleton.mp hc]
    show (11999 : Int) ≤ clockMax
    decide
  · intro a ha hsucceeded
    obtain rfl := List.mem_singleton.mp ha
    exact id

/-- **A job that was ended as one that waits** has no lease: it is claimed again within the timeout of the
claim before. -/
theorem claims_close :
    ((Call.claim "job" 0 (.ofMillis 30000)).on sampleTable).1 = true ∧
      ((Call.claim "job" 1000 (.ofMillis 30000)).on (after sampleTable
        [.claim "job" 0 (.ofMillis 30000), .finish "job" { status := .queued } 1])).1 = true ∧
      ¬ ((0 : Int) + 30000 ≤ 1000) := by
  decide +kernel

end Syndication.JobTable.Lease
