import Mathlib.Data.List.Perm.Subperm
import Mathlib.Logic.Relation
import Syndication.Proofs.Worker.Handling

/-!
# Proofs.Worker.Shift — runs of any number of workers

Workers share the service. Each takes messages of the delivery queue and handles every message that it
took once: soon, or late, after others took the same message again, or never. What they have done is
written down: which messages were taken, which platform calls were made and how they ended, and which
takings were given back.

## Contents
* `Call`, `callsOf`, `returnsOf`     — what is written down of one message
* `Worked`, `worked_handle`          — what handling a message does to records and messages
* `Workplace`, `Workplace.exec_runOnce` — batches are handled message by message
* `Shift`, `Step`, `Run`
* `run_pass`                         — a pass of a worker is a run
-/

namespace Syndication

/-- The delivery failed and may be tried again. -/
def DeliveryResult.isTransient : DeliveryResult → Bool
  | .failed e => e.isTransient
  | _ => false

namespace Worker

open MessageTable

variable {m : Held} {s s' : Service} {job job' : Job} {content : PostContent} {p : Platform}

/-! ## One message -/

/-- A call of a platform for a job, made by who held a message. -/
structure Call where
  held : Held
  jobId : String
  result : DeliveryResult

/-- The calls that are made when a message is handled. -/
def callsOf (m : Held) (s : Service) : List Call :=
  match courseOf m s with
  | .call job content p => [⟨m, job.jobId, (callOf m (taken s job.jobId) job content p).1⟩]
  | _ => []

/-- The takings that are given back when a message is handled: the one of the message, if it is put off
by who holds its latest receipt. -/
def returnsOf (m : Held) (s : Service) : List Held :=
  match courseOf m s with
  | .wait _ => if s.messages.messages.any (isHeld m) then [m] else []
  | _ => []

/-- **What handling a message does** to records and messages, with the calls that it makes and the
takings that it gives back. -/
inductive Worked (m : Held) (s : Service) : List Call → List Held → Service → Prop
  /-- No platform is called, and the message is deleted or left. -/
  | silent {s' : Service} (moves : s.jobs.Moves s'.jobs)
      (messages : MayAcknowledge m s.messages s'.messages) : Worked m s [] [] s'
  /-- The message is put off, and the taking is given back unless the receipt is an old one. -/
  | putOff {s' : Service} (delay : Span) (jobs : s'.jobs = s.jobs)
      (messages : s'.messages = (s.messages.defer m s.now delay false).2) :
      Worked m s [] (if s.messages.messages.any (isHeld m) then [m] else []) s'
  /-- The platform is called. Unless the failure may pass, the job has ended after that. -/
  | called {s' : Service} (jobId : String) (result : DeliveryResult)
      (budget : m.dequeueCount ≤ s.settings.maxAttempts)
      (opened : ∃ r, s.jobs.get? jobId = some r ∧ r.status.isTerminal = false)
      (moves : s.jobs.Moves s'.jobs)
      (ends : result.isTransient = false → s'.jobs.HasEnded jobId)
      (messages : MayAcknowledge m s.messages s'.messages ∨
        ∃ delay, s'.messages = (s.messages.defer m s.now delay true).2) :
      Worked m s [⟨m, jobId, result⟩] [] s'

namespace Worked

variable {calls : List Call} {back : List Held}

theorem moves (h : Worked m s calls back s') : s.jobs.Moves s'.jobs := by
  cases h with
  | silent moves _ => exact moves
  | putOff delay jobs _ => exact jobs ▸ .refl _
  | called jobId result budget opened moves ends _ => exact moves

theorem budget (h : Worked m s calls back s') :
    ∀ c ∈ calls, c.held.dequeueCount ≤ s.settings.maxAttempts := by
  cases h with
  | silent moves _ => exact fun c hc => nomatch hc
  | putOff delay jobs _ => exact fun c hc => nomatch hc
  | called jobId result budget opened moves ends _ =>
    intro c hc
    rw [List.mem_singleton.mp hc]
    exact budget

/-- No platform is called for a job that has ended. -/
theorem not_hasEnded (h : Worked m s calls back s') (hunique : s.jobs.HasUniqueIds) :
    ∀ c ∈ calls, ¬ s.jobs.HasEnded c.jobId := by
  cases h with
  | silent moves _ => exact fun c hc => nomatch hc
  | putOff delay jobs _ => exact fun c hc => nomatch hc
  | called jobId result budget opened moves ends _ =>
    obtain ⟨r, hr, hopen⟩ := opened
    intro c hc
    rw [List.mem_singleton.mp hc]
    exact JobTable.not_hasEnded hunique hr hopen

/-- After a call that does not fail transiently the job has ended. -/
theorem hasEnded (h : Worked m s calls back s') :
    ∀ c ∈ calls, c.result.isTransient = false → s'.jobs.HasEnded c.jobId := by
  cases h with
  | silent moves _ => exact fun c hc => nomatch hc
  | putOff delay jobs _ => exact fun c hc => nomatch hc
  | called jobId result budget opened moves ends _ =>
    intro c hc hfinal
    rw [List.mem_singleton.mp hc] at hfinal ⊢
    exact ends hfinal

theorem length_calls (h : Worked m s calls back s') : calls.length ≤ 1 := by
  cases h <;> simp

/-- A taking leads to a call or is given back, but not both. -/
theorem count_le (h : Worked m s calls back s') (g : Held) :
    (calls.map (·.held)).count g + back.count g ≤ [m].count g := by
  cases h with
  | silent moves _ => exact Nat.zero_le _
  | putOff delay jobs _ => split <;> simp
  | called jobId result budget opened moves ends _ => exact Nat.le_refl _

end Worked

theorem moves_taken (s : Service) (jobId : String) : s.jobs.Moves (taken s jobId).jobs :=
  JobTable.moves_claim _ _ _ _

/-- A failure that may pass is the only result after which a job may be tried again. -/
theorem isTransient_of_ending {result : DeliveryResult} {cause : Error}
    (h : ending m s result = .error cause) : result.isTransient = true := by
  cases result with
  | report report => cases h
  | timedOut => cases h
  | failed e =>
    rw [ending] at h
    split at h
    · rename_i hagain
      exact hagain.1
    · cases h

theorem worked_call (hcourse : courseOf m s = .call job content p) :
    Worked m s [⟨m, job.jobId, (callOf m (taken s job.jobId) job content p).1⟩] []
      (follow m s (.call job content p)).2 := by
  obtain ⟨-, ⟨r, hr, hopen, -⟩, -, -, hattempts, -⟩ := courseOf_eq_call_iff.mp hcourse
  have hmoves : s.jobs.Moves (called m (taken s job.jobId) job content p).jobs :=
    moves_taken s job.jobId
  rw [follow]
  cases hend : ending m s (callOf m (taken s job.jobId) job content p).1 with
  | ok c =>
    obtain ⟨t, hexec, hack⟩ := exec_finish m job c (called m (taken s job.jobId) job content p)
    show Worked m s _ [] ((finish m job c).exec (called m (taken s job.jobId) job content p)).2
    rw [hexec]
    refine .called job.jobId _ hattempts ⟨r, hr, hopen⟩
      (hmoves.trans (JobTable.moves_finish _ _ c _)) ?_ (.inl hack)
    -- the record of the job has stayed where it was when the job was taken
    intro _
    obtain ⟨hmem, hid⟩ := JobTable.mem_of_get? hr
    have hmem' : job.jobId ∈ (called m (taken s job.jobId) job content p).jobs.records.map (·.jobId) := by
      rw [hmoves.jobIds]
      exact List.mem_map.mpr ⟨r, hmem, hid⟩
    obtain ⟨r', hr', hid'⟩ := List.mem_map.mp hmem'
    exact hid' ▸ JobTable.hasEnded_finish hr' (isTerminal_ending hend) _
  | error cause =>
    show Worked m s _ [] ((retryLater m job cause).exec (called m (taken s job.jobId) job content p)).2
    rw [exec_retryLater]
    refine .called job.jobId _ hattempts ⟨r, hr, hopen⟩
      (hmoves.trans (JobTable.moves_release _ _ _ _)) ?_ (.inr ⟨_, rfl⟩)
    intro hfinal
    rw [isTransient_of_ending hend] at hfinal
    cases hfinal

theorem worked_handle (m : Held) (s : Service) :
    Worked m s (callsOf m s) (returnsOf m s) ((handle m).exec s).2 := by
  rw [exec_handle, callsOf, returnsOf]
  cases hcourse : courseOf m s with
  | drop reason => exact .silent (.refl _) (.inr rfl)
  | clear job status =>
    obtain ⟨t, hexec, hack⟩ := exec_clearAway m job status s
    rw [follow, hexec]
    exact .silent (.refl _) hack
  | wait secs => exact .putOff _ rfl rfl
  | leave => exact .silent (.refl _) (.inl rfl)
  | giveUp job reason =>
    obtain ⟨t, hexec, hack⟩ := exec_finish m job (.faulted reason) (taken s job.jobId)
    rw [follow, hexec]
    exact .silent ((moves_taken s job.jobId).trans (JobTable.moves_finish _ _ _ _)) hack
  | stall job cause => exact .silent (moves_taken s job.jobId) (.inl rfl)
  | call job content p => exact worked_call hcourse

/-! ## Batches -/

/-- A state of `α` has a service, on which messages are taken to wait until they are handled. -/
structure Workplace (α : Type) where
  service : α → Service
  waiting : α → List Held
  afterTaking : α → Nat → Span → α
  afterHandling : α → Held → α
  service_taking : ∀ a max hideFor, service (afterTaking a max hideFor) =
    ((Service.dequeue deliveryQueue max hideFor).exec (service a)).2
  waiting_taking : ∀ a max hideFor, waiting (afterTaking a max hideFor) =
    waiting a ++ ((service a).messages.dequeue deliveryQueue (service a).now max hideFor).1
  service_handling : ∀ a m, service (afterHandling a m) = ((handle m).exec (service a)).2
  waiting_handling : ∀ a m, waiting (afterHandling a m) = (waiting a).erase m

namespace Workplace

variable {α : Type} (W : Workplace α) {R : α → α → Prop}

/-- Messages that wait are handled one after the other. -/
theorem exec_handleAll (hwork : ∀ a, ∀ m ∈ W.waiting a, R a (W.afterHandling a m))
    {messages : List Held} {a : α} (hwait : messages.Subperm (W.waiting a)) :
    ∃ outcomes a', (handleAll messages).exec (W.service a) = (.ok outcomes, W.service a') ∧
      Relation.ReflTransGen R a a' := by
  induction messages generalizing a with
  | nil => exact ⟨[], a, rfl, .refl⟩
  | cons m rest ih =>
    have hstep := hwork a m (hwait.subset List.mem_cons_self)
    have hrest : rest.Subperm (W.waiting (W.afterHandling a m)) := by
      have herased := hwait.erase m
      rw [List.erase_cons_head, ← W.waiting_handling] at herased
      exact herased
    obtain ⟨outcomes, a', hexec, hrun⟩ := ih hrest
    refine ⟨((handle m).exec (W.service a)).1 :: outcomes, a', ?_, .head hstep hrun⟩
    rw [handleAll, Effect.exec_bind_ok (Effect.exec_settle _ _), ← W.service_handling]
    exact Effect.exec_bind_ok hexec

/-- A pass of a worker takes a batch and handles each message of it once. -/
theorem exec_runOnce (htake : ∀ a max hideFor, R a (W.afterTaking a max hideFor))
    (hwork : ∀ a, ∀ m ∈ W.waiting a, R a (W.afterHandling a m)) (a : α) :
    ∃ n a', runOnce.exec (W.service a) = (.ok n, W.service a') ∧ Relation.ReflTransGen R a a' := by
  let max := (W.service a).settings.batchSize
  let hideFor := (W.service a).settings.visibilityTimeout
  let batch := ((W.service a).messages.dequeue deliveryQueue (W.service a).now max hideFor).1
  have hwait : batch.Subperm (W.waiting (W.afterTaking a max hideFor)) := by
    rw [W.waiting_taking]
    exact (List.sublist_append_right _ _).subperm
  obtain ⟨outcomes, a', hexec, hrun⟩ := W.exec_handleAll hwork hwait
  rw [W.service_taking] at hexec
  refine ⟨batch.length, a', ?_, .head (htake a max hideFor) hrun⟩
  rw [runOnce, Effect.exec_bind_ok (Effect.exec_get _),
    Effect.exec_bind_ok (Service.exec_dequeue _ _ _ _)]
  exact Effect.exec_bind_ok hexec

end Workplace

/-! ## Runs -/

/-- A service, what its workers hold, and what was written down of their work. -/
structure Shift where
  service : Service
  /-- What was taken and is not handled yet. -/
  waiting : List Held := []
  /-- Everything that was taken. -/
  takings : List Held := []
  /-- The takings that were given back. -/
  returned : List Held := []
  calls : List Call := []

namespace Shift

/-- The records, the messages and the number of attempts are the same. -/
structure SameWork (s s' : Service) : Prop where
  jobs : s'.jobs = s.jobs
  messages : s'.messages = s.messages
  maxAttempts : s'.settings.maxAttempts = s.settings.maxAttempts

/-- What is taken of the delivery queue. -/
def batch (w : Shift) (max : Nat) (hideFor : Span) : List Held :=
  (w.service.messages.dequeue deliveryQueue w.service.now max hideFor).1

/-- After messages of the delivery queue were taken. -/
def afterTaking (w : Shift) (max : Nat) (hideFor : Span) : Shift :=
  { w with
    service := ((Service.dequeue deliveryQueue max hideFor).exec w.service).2
    waiting := w.waiting ++ w.batch max hideFor
    takings := w.takings ++ w.batch max hideFor }

/-- After a message was handled. -/
def afterHandling (w : Shift) (m : Held) : Shift where
  service := ((handle m).exec w.service).2
  waiting := w.waiting.erase m
  takings := w.takings
  returned := w.returned ++ returnsOf m w.service
  calls := w.calls ++ callsOf m w.service

/-- One step of a run. -/
inductive Step : Shift → Shift → Prop
  /-- A worker takes messages of the delivery queue. -/
  | take (w : Shift) (max : Nat) (hideFor : Span) : Step w (w.afterTaking max hideFor)
  /-- A worker handles a message that it has taken and not handled, however long ago. -/
  | work (w : Shift) (m : Held) (waits : m ∈ w.waiting) : Step w (w.afterHandling m)
  /-- A message is put on a queue, with a payload that may be that of another. -/
  | mail (w : Shift) (queue payload : String) (delay : Span) :
      Step w { w with service := ((Service.enqueue queue payload delay).exec w.service).2 }
  /-- A record is written. -/
  | record (w : Shift) (r : JobRecord) :
      Step w { w with service := ((Service.onJobs (JobTable.insert r)).exec w.service).2 }
  /-- The clock, the platforms, the objects, the budgets, or anything else changes. -/
  | surroundings (w : Shift) (s : Service) (same : SameWork w.service s) :
      Step w { w with service := s }

/-- Any number of steps. -/
def Run : Shift → Shift → Prop := Relation.ReflTransGen Step

/-- Workers share the service of a shift. -/
def workplace : Workplace Shift where
  service := Shift.service
  waiting := Shift.waiting
  afterTaking := Shift.afterTaking
  afterHandling := Shift.afterHandling
  service_taking := fun _ _ _ => rfl
  waiting_taking := fun _ _ _ => rfl
  service_handling := fun _ _ => rfl
  waiting_handling := fun _ _ => rfl

/-- **A pass of a worker** is a run in which it handles each message that it takes once. -/
theorem run_pass (w : Shift) :
    ∃ n w', runOnce.exec w.service = (.ok n, w'.service) ∧ Run w w' :=
  workplace.exec_runOnce .take .work w

end Shift
end Worker
end Syndication
