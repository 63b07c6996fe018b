import Syndication.Proofs.Platform.Delivery
import Syndication.Proofs.Queue
import Syndication.Proofs.Submission.Parts
import Syndication.Proofs.Worker.Course

/-!
# Proofs.Worker.Handling — what handling a message leaves

An attempt ends in one of two ways. Either the job waits as it did before, and so does its message; or
its record says how it ended, its lock is gone, and so is the message if it was still held. No other
job is touched, nor its lock or its content.

## Contents
* `exec_finish`, `exec_clearAway`, `exec_retryLater`
* `isTerminal_ending`       — what ends an attempt ends the job
* `onlyWork_handle`         — what is not touched
* `Job.IsOf`, `Ready`       — a job that can be attempted
* `Handled`, `handle_spec`
-/

namespace Syndication

/-- The record is of this job. -/
structure Job.IsOf (job : Job) (r : JobRecord) : Prop where
  jobId : job.jobId = r.jobId
  rootId : job.rootId = r.rootId
  target : job.target = r.target

namespace Worker

open ObjectStore Staging

variable {m : Held} {s s' : Service} {job : Job} {r : JobRecord}

/-! ## How an attempt ends -/

/-- A message that is acknowledged, or left when the lock could not be removed. -/
def MayAcknowledge (m : Held) (t t' : MessageTable) : Prop := t' = t ∨ t' = (t.acknowledge m).2

namespace MayAcknowledge

variable {t t' : MessageTable}

/-- No message is added. -/
theorem mem (h : MayAcknowledge m t t') {m' : Message} (hm' : m' ∈ t'.messages) : m' ∈ t.messages := by
  rcases h with rfl | rfl
  · exact hm'
  · exact (MessageTable.mem_acknowledge.mp hm').1

theorem nextId (h : MayAcknowledge m t t') : t'.nextId = t.nextId := by
  rcases h with rfl | rfl <;> rfl

theorem wellNumbered (h : MayAcknowledge m t t') (ht : t.WellNumbered) : t'.WellNumbered := by
  rcases h with rfl | rfl
  · exact ht
  · exact ht.acknowledge m

/-- Jobs that the message does not carry keep their messages. -/
theorem carriers (h : MayAcknowledge m t t') {jobId : String}
    (hother : ∀ m' ∈ t.messages, m'.id = m.id → m'.letter.carries jobId = false) :
    t'.carriers jobId = t.carriers jobId := by
  rcases h with rfl | rfl
  · rfl
  · exact MessageTable.carriers_acknowledge hother

end MayAcknowledge

/-- Removing the lock of a job and then its message. -/
theorem exec_releaseLock (job : Job) (s : Service) :
    (releaseLock job).exec s = (((removeLock job.rootId job.target).exec s.store).1.map fun _ => (),
      { s with store := ((removeLock job.rootId job.target).exec s.store).2 }) := by
  rw [releaseLock, Effect.exec_bind, Service.exec_onStore]
  rcases (removeLock job.rootId job.target).exec s.store with ⟨e | found, st⟩ <;> rfl

theorem exec_clearAway (m : Held) (job : Job) (status : JobStatus) (s : Service) :
    ∃ t, ((clearAway m job status).exec s).2 = { s with
        messages := t, store := ((removeLock job.rootId job.target).exec s.store).2 } ∧
      MayAcknowledge m s.messages t := by
  rw [clearAway, Effect.exec_bind, exec_releaseLock]
  rcases (removeLock job.rootId job.target).exec s.store with ⟨e | found, st⟩
  · exact ⟨s.messages, rfl, .inl rfl⟩
  · exact ⟨(s.messages.acknowledge m).2, rfl, .inr rfl⟩

/-- **A finish** ends the job and removes its lock. The message stays if the lock could not be
removed. -/
theorem exec_finish (m : Held) (job : Job) (c : Completion) (s : Service) :
    ∃ t, ((finish m job c).exec s).2 = { s with
        jobs := (s.jobs.finish job.jobId c s.nowSecs).2
        messages := t
        store := ((removeLock job.rootId job.target).exec s.store).2 } ∧
      MayAcknowledge m s.messages t := by
  rw [finish, Effect.exec_bind_ok (Effect.exec_get s)]
  simp only [Effect.exec_bind, Service.exec_changeJobs, exec_releaseLock]
  rcases (removeLock job.rootId job.target).exec s.store with ⟨e | found, st⟩
  · exact ⟨s.messages, rfl, .inl rfl⟩
  · exact ⟨(s.messages.acknowledge m).2, rfl, .inr rfl⟩

/-- A job that is to be tried again is given back, and its message shows again later. -/
theorem exec_retryLater (m : Held) (job : Job) (cause : Error) (s : Service) :
    ((retryLater m job cause).exec s).2 = { s with
      jobs := (s.jobs.release job.jobId cause.message s.nowSecs).2
      messages := (s.messages.defer m s.now (s.settings.retry.interval m.dequeueCount) true).2 } :=
  rfl

theorem exec_putOff (m : Held) (secs : Int) (s : Service) :
    ((putOff m secs).exec s).2 = { s with
      messages := (s.messages.defer m s.now (Span.ofSecs secs.toNat) false).2 } :=
  rfl

/-- What ends an attempt ends the job. -/
theorem isTerminal_ending {result : DeliveryResult} {c : Completion}
    (h : ending m s result = .ok c) : c.status.isTerminal = true := by
  cases result with
  | report report =>
    obtain rfl := Except.ok.inj h
    show report.status.isTerminal = true
    unfold DeliveryReport.status
    split <;> rfl
  | timedOut =>
    obtain rfl := Except.ok.inj h
    rfl
  | failed e =>
    rw [ending] at h
    split at h
    · cases h
    · obtain rfl := Except.ok.inj h
      rfl

/-- Only records, messages, objects and what the platforms keep may differ. -/
def OnlyWork (s s' : Service) : Prop :=
  s' = { s with
    jobs := s'.jobs, messages := s'.messages, windows := s'.windows, sessions := s'.sessions
    store := s'.store, platforms := s'.platforms }

theorem onlyWork_finish (m : Held) (job : Job) (c : Completion) (s : Service) :
    OnlyWork s ((finish m job c).exec s).2 := by
  obtain ⟨t, hexec, -⟩ := exec_finish m job c s
  rw [hexec]
  rfl

/-- Nothing else differs once a message was handled. -/
theorem onlyWork_handle (m : Held) (s : Service) : OnlyWork s ((handle m).exec s).2 := by
  rw [exec_handle]
  cases courseOf m s with
  | drop reason => rfl
  | clear job status =>
    obtain ⟨t, hexec, -⟩ := exec_clearAway m job status s
    rw [follow, hexec]
    rfl
  | wait secs => rfl
  | leave => rfl
  | giveUp job reason => exact onlyWork_finish m job _ (taken s job.jobId)
  | stall job cause => rfl
  | call job content p =>
    rw [follow]
    cases ending m s (callOf m (taken s job.jobId) job content p).1 with
    | ok c => exact onlyWork_finish m job c (called m (taken s job.jobId) job content p)
    | error cause => rfl

/-! ## A job that can be attempted -/

/-- A service that can attempt a job: identifiers tell records apart, the store answers, and if the
job has not ended it waits and its content is there. -/
structure Ready (s : Service) (r : JobRecord) : Prop where
  unique : s.jobs.HasUniqueIds
  found : s.jobs.get? r.jobId = some r
  sound : s.store.IsSound
  get : ∀ k, s.store.outage.get k = false
  delete : ∀ k, s.store.outage.delete k = false
  isName : IsName r.rootId
  safe : isPathSafe r.rootId = true
  target : isPathSafe r.target = true
  waits : r.status.isTerminal = false → r.status = .queued ∧ ∃ c, Holds s.store r.rootId c

/-- What handling a message leaves of the job that it carries. -/
inductive Handled (m : Held) (s : Service) (r : JobRecord) (s' : Service) : Prop
  /-- The job and its message wait. -/
  | waits (change : JobRecord → JobRecord) (sameJob : ∀ r', JobRecord.SameJob r' (change r'))
      (status : (change r).status = r.status) (jobs : s'.jobs = s.jobs.update r.jobId change)
      (letters : s.messages.SameLetters s'.messages) (bundles : SameBundles s.store s'.store)
  /-- The job has ended, and its lock is gone. -/
  | ends (change : JobRecord → JobRecord) (sameJob : ∀ r', JobRecord.SameJob r' (change r'))
      (terminal : (change r).status.isTerminal = true)
      (jobs : s'.jobs = s.jobs.update r.jobId change)
      (messages : MayAcknowledge m s.messages s'.messages) (later : Later s.store s'.store)
      (find : ∀ k, Text.startsWith k bundleStart = true →
        s'.store.find? k = if k = lockKey r.rootId r.target then none else s.store.find? k)

theorem update_id (t : JobTable) (jobId : String) : t.update jobId id = t := by
  obtain ⟨records⟩ := t
  simp [JobTable.update]

section Spec

variable (hready : Ready s r) (hjob : job.IsOf r)
include hready hjob

/-- A lock is removed from a store in which bundles are as they were. -/
theorem find?_removeLock {st : ObjectStore} (hsame : SameBundles s.store st) :
    Later s.store ((removeLock job.rootId job.target).exec st).2 ∧
      ∀ k, Text.startsWith k bundleStart = true →
        ((removeLock job.rootId job.target).exec st).2.find? k =
          if k = lockKey r.rootId r.target then none else s.store.find? k := by
  rw [hjob.rootId, hjob.target, Submission.exec_removeLock hready.safe]
  rcases hdelete : (ObjectStore.delete (lockKey r.rootId r.target)).exec st with ⟨found, st'⟩
  obtain ⟨hlater, hfind, -⟩ := delete_spec (hsame.later.isSound hready.sound)
    (hsame.later.outage ▸ hready.delete _) (isValidKey_lockKey hready.isName hready.target) hdelete
  refine ⟨hsame.later.trans hlater, ?_⟩
  intro k hk
  rw [hfind, hsame.find k hk]

/-- The claim of a job that waits succeeds. -/
theorem claim_eq (hqueued : r.status = .queued) (lease : Int) :
    s.jobs.claim job.jobId s.nowSecs lease =
      (true, s.jobs.update r.jobId (·.claimed s.nowSecs lease)) := by
  have hmay : r.isClaimable s.nowSecs = true := by rw [JobRecord.isClaimable, hqueued]
  rw [JobTable.claim, hjob.jobId, JobTable.move_eq hready.unique hready.found, if_pos hmay]

/-- A job that has been claimed can be moved on. -/
theorem move_claimed {may : JobRecord → Bool} (lease : Int) (change : JobRecord → JobRecord)
    (hmay : may (r.claimed s.nowSecs lease) = true) :
    ((s.jobs.update r.jobId (·.claimed s.nowSecs lease)).move job.jobId may change).2 =
      s.jobs.update r.jobId fun r' => change (r'.claimed s.nowSecs lease) := by
  have hsame : ∀ r' : JobRecord, (r'.claimed s.nowSecs lease).jobId = r'.jobId := fun _ => rfl
  have hfound : (s.jobs.update r.jobId (·.claimed s.nowSecs lease)).get? r.jobId =
      some (r.claimed s.nowSecs lease) := by
    rw [JobTable.get?_update hready.unique hsame, if_pos rfl, hready.found]
    rfl
  rw [hjob.jobId, JobTable.move_eq (hready.unique.update hsame) hfound, if_pos hmay,
    JobTable.update_update hsame]

/-- Once a job has been claimed, a finish ends it. -/
theorem handled_finish {t : Service} (c : Completion) (hterminal : c.status.isTerminal = true)
    (lease : Int) (hjobs : t.jobs = s.jobs.update r.jobId (·.claimed s.nowSecs lease))
    (hmessages : t.messages = s.messages) (hstore : SameBundles s.store t.store) :
    Handled m s r ((finish m job c).exec t).2 := by
  obtain ⟨messages, hexec, hack⟩ := exec_finish m job c t
  obtain ⟨hlater, hfind⟩ := find?_removeLock hready hjob hstore
  rw [hexec]
  refine .ends (fun r' => (r'.claimed s.nowSecs lease).finished c t.nowSecs) (fun r' => ?_)
    hterminal ?_ (hmessages ▸ hack) hlater hfind
  · exact (r'.sameJob_claimed _ _).trans (JobRecord.sameJob_finished _ _ _)
  · show (t.jobs.finish job.jobId c t.nowSecs).2 = _
    rw [hjobs, JobTable.finish, move_claimed hready hjob lease _ rfl]

/-- Once a job has been claimed, a retry sends it back to wait. -/
theorem handled_retryLater (hqueued : r.status = .queued) {t : Service} (cause : Error)
    (lease : Int) (hjobs : t.jobs = s.jobs.update r.jobId (·.claimed s.nowSecs lease))
    (hmessages : t.messages = s.messages) (hstore : SameBundles s.store t.store) :
    Handled m s r ((retryLater m job cause).exec t).2 := by
  rw [exec_retryLater]
  refine .waits (fun r' => (r'.claimed s.nowSecs lease).released cause.message t.nowSecs)
    (fun r' => ?_) hqueued.symm ?_ ?_ hstore
  · exact (r'.sameJob_claimed _ _).trans (JobRecord.sameJob_released _ _ _)
  · show (t.jobs.release job.jobId cause.message t.nowSecs).2 = _
    rw [hjobs, JobTable.release, move_claimed hready hjob lease _ rfl]
  · show s.messages.SameLetters (t.messages.defer _ _ _ _).2
    rw [hmessages]
    exact MessageTable.sameLetters_defer _ _ _ _

/-- The course of a job that has been taken, followed. -/
theorem handled_courseOfTaken (hopen : r.status.isTerminal = false) :
    Handled m s r (follow m s (courseOfTaken m s job)).2 := by
  obtain ⟨hqueued, content, hholds⟩ := hready.waits hopen
  have htaken : (taken s job.jobId).jobs =
      s.jobs.update r.jobId (·.claimed s.nowSecs (leaseNow s)) := by
    rw [taken, claim_eq hready hjob hqueued]
  -- the content of a job that has not ended is there, so the attempt does not stall
  have hload : ((Staging.load job.rootId).exec s.store).1 = .ok (some content) := by
    rw [hjob.rootId, load_eq hready.sound hready.get hready.isName hready.safe hholds]
  have hgiveUp : ∀ reason, Handled m s r (follow m s (.giveUp job reason)).2 := fun reason =>
    handled_finish hready hjob _ rfl (leaseNow s) htaken rfl (.refl _)
  unfold courseOfTaken
  split
  · exact hgiveUp _
  rw [hload]
  simp only
  split
  · exact hgiveUp _
  rename_i p hp
  have hsame : SameBundles s.store (called m (taken s job.jobId) job content p).store :=
    p.deliver_sameBundles (w := (taken s job.jobId).sessionWorld) _ _ hready.sound
  rw [follow]
  cases hend : ending m s (callOf m (taken s job.jobId) job content p).1 with
  | ok c =>
    exact handled_finish hready hjob c (isTerminal_ending hend) (leaseNow s) htaken rfl hsame
  | error cause => exact handled_retryLater hready hjob hqueued cause (leaseNow s) htaken rfl hsame

/-- **Handling a message** lets the job that it carries wait, or ends it. -/
theorem handle_spec (hpayload : Job.ofPayload? m.payload = some job) :
    Handled m s r ((handle m).exec s).2 := by
  rw [exec_handle, courseOf, hpayload]
  simp only [hjob.jobId, hready.found]
  split
  · -- the job had ended before: its lock is removed once more
    rename_i hended
    obtain ⟨t, hexec, hack⟩ := exec_clearAway m job r.status s
    obtain ⟨hlater, hfind⟩ := find?_removeLock hready hjob (.refl s.store)
    rw [follow, hexec]
    exact .ends id (fun _ => ⟨rfl, rfl, rfl⟩) hended (update_id _ _).symm hack hlater hfind
  rename_i hopen
  have hopen : r.status.isTerminal = false := by simpa using hopen
  have hwait : ∀ secs, Handled m s r (follow m s (.wait secs)).2 := by
    intro secs
    rw [follow, exec_putOff]
    exact .waits id (fun _ => ⟨rfl, rfl, rfl⟩) rfl (update_id _ _).symm
      (MessageTable.sameLetters_defer _ _ _ _) (.refl _)
  unfold courseOfOpen
  split
  · exact hwait _
  split
  · exact hwait _
  rw [claim_eq hready hjob (hready.waits hopen).1, if_pos rfl]
  exact handled_courseOfTaken hready hjob hopen

end Spec

end Worker
end Syndication
