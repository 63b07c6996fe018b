import Syndication.Proofs.Job.Table
import Syndication.Proofs.Queue
import Syndication.Proofs.Service
import Syndication.Proofs.Staging.Bundle
import Syndication.Submission

/-!
# Proofs.Submission.Parts — the steps of a submission

A submission draws jobs, locks their bundle, stages the content and queues the jobs one after the
other. Each step is told here by what it leaves: which records, messages and locks there are. Whether
a job is queued or given up depends on its payload alone, so the result for all jobs is put together
from the results for each.

## Contents
* `jobsFrom`, `exec_drawJobs`              — the jobs that are drawn
* `Batch`                                  — jobs of one post
* `lockAll_spec`, `releaseLocks_spec`, `stageAll_spec`
* `refused`, `rowOf`, `outcomeOf`, `mail`  — what becomes of a job
* `exec_queueJob`, `exec_queueJobs`
-/

namespace Syndication.Submission

open ObjectStore Staging

/-! ## Drawing jobs -/

/-- The jobs for targets when so many identifiers have been drawn. -/
def jobsFrom (idOf : Nat → String) (rootId userId : String) (content : PostContent)
    (postAt : Option Instant) : Nat → List String → List Job
  | _, [] => []
  | n, target :: rest =>
    jobFor rootId userId (idOf n) target content postAt ::
      jobsFrom idOf rootId userId content postAt (n + 1) rest

/-- Drawing jobs uses up one identifier for each. -/
theorem exec_drawJobs (rootId userId : String) (content : PostContent) (postAt : Option Instant)
    (targets : List String) (s : Service) :
    (drawJobs rootId userId content postAt targets).exec s =
      (.ok (jobsFrom s.issuer.idOf rootId userId content postAt s.issuer.ids targets),
        { s with issuer := { s.issuer with ids := s.issuer.ids + targets.length } }) := by
  induction targets generalizing s with
  | nil => rfl
  | cons target rest ih =>
    rw [drawJobs, Effect.exec_bind_ok (Service.exec_drawId s), Effect.exec_bind_ok (ih _)]
    simp only [Effect.exec_pure, jobsFrom, List.length_cons, Prod.mk.injEq, Except.ok.injEq]
    refine ⟨rfl, ?_⟩
    have hids : s.issuer.ids + 1 + rest.length = s.issuer.ids + (rest.length + 1) := by omega
    rw [hids]

section JobsFrom

variable {idOf : Nat → String} {rootId userId : String} {content : PostContent} {postAt : Option Instant}
  {n : Nat} {targets : List String}

theorem map_target_jobsFrom :
    (jobsFrom idOf rootId userId content postAt n targets).map (·.target) = targets := by
  induction targets generalizing n with
  | nil => rfl
  | cons target rest ih => rw [jobsFrom, List.map_cons, ih]; rfl

theorem mem_jobsFrom {job : Job}
    (h : job ∈ jobsFrom idOf rootId userId content postAt n targets) :
    ∃ k, n ≤ k ∧ k < n + targets.length ∧ job.target ∈ targets ∧
      job = jobFor rootId userId (idOf k) job.target content postAt := by
  induction targets generalizing n with
  | nil => cases h
  | cons target rest ih =>
    rcases List.mem_cons.mp h with rfl | h
    · exact ⟨n, by omega, by simp, List.mem_cons_self, rfl⟩
    · obtain ⟨k, hle, hlt, hmem, hjob⟩ := ih h
      exact ⟨k, by omega, by simp only [List.length_cons]; omega, List.mem_cons_of_mem _ hmem, hjob⟩

theorem nodup_jobIds_jobsFrom (hinj : Function.Injective idOf) :
    ((jobsFrom idOf rootId userId content postAt n targets).map (·.jobId)).Nodup := by
  induction targets generalizing n with
  | nil => exact List.nodup_nil
  | cons target rest ih =>
    rw [jobsFrom, List.map_cons, List.nodup_cons]
    refine ⟨fun hmem => ?_, ih⟩
    obtain ⟨job, hjob, heq⟩ := List.mem_map.mp hmem
    obtain ⟨k, hle, -, -, hk⟩ := mem_jobsFrom hjob
    rw [hk] at heq
    have := hinj heq
    omega

end JobsFrom

/-- Jobs of one post: their targets and their identifiers can be told apart, and the targets may stand
in keys. -/
structure Batch (root : String) (jobs : List Job) : Prop where
  isName : IsName root
  safe : isPathSafe root = true
  rootId : ∀ job ∈ jobs, job.rootId = root
  target : ∀ job ∈ jobs, isPathSafe job.target = true
  targets : (jobs.map (·.target)).Nodup
  jobIds : (jobs.map (·.jobId)).Nodup

namespace Batch

variable {root : String} {job : Job} {jobs : List Job}

theorem head (h : Batch root (job :: jobs)) :
    job.rootId = root ∧ isPathSafe job.target = true ∧ (∀ other ∈ jobs, other.target ≠ job.target) ∧
      ∀ other ∈ jobs, other.jobId ≠ job.jobId := by
  refine ⟨h.rootId job List.mem_cons_self, h.target job List.mem_cons_self, ?_, ?_⟩
  · intro other hmem heq
    exact (List.nodup_cons.mp h.targets).1 (List.mem_map.mpr ⟨other, hmem, heq⟩)
  · intro other hmem heq
    exact (List.nodup_cons.mp h.jobIds).1 (List.mem_map.mpr ⟨other, hmem, heq⟩)

theorem tail (h : Batch root (job :: jobs)) : Batch root jobs where
  isName := h.isName
  safe := h.safe
  rootId := fun other hmem => h.rootId other (List.mem_cons_of_mem _ hmem)
  target := fun other hmem => h.target other (List.mem_cons_of_mem _ hmem)
  targets := (List.nodup_cons.mp h.targets).2
  jobIds := (List.nodup_cons.mp h.jobIds).2

end Batch

/-- The jobs that are drawn for checked targets are jobs of one post. -/
theorem batch_jobsFrom {issuer : Issuer} {m : Nat} {userId : String} {content : PostContent}
    {postAt : Option Instant} {n : Nat} {targets : List String} (hnodup : targets.Nodup)
    (hsafe : ∀ target ∈ targets, isPathSafe target = true) :
    Batch (issuer.idOf m) (jobsFrom issuer.idOf (issuer.idOf m) userId content postAt n targets) where
  isName := isName_idOf issuer m
  safe := issuer.isPathSafe_idOf m
  rootId := by
    intro job hjob
    obtain ⟨k, -, -, -, hk⟩ := mem_jobsFrom hjob
    rw [hk]
    rfl
  target := by
    intro job hjob
    obtain ⟨k, -, -, hmem, -⟩ := mem_jobsFrom hjob
    exact hsafe _ hmem
  targets := by rwa [map_target_jobsFrom]
  jobIds := nodup_jobIds_jobsFrom issuer.idOf_injective

/-! ## The bundle -/

variable {root : String} {jobs : List Job} {s s' : Service}

theorem exec_createLock (hroot : isPathSafe root = true) (target jobId : String) (st : ObjectStore) :
    (createLock root target jobId).exec st =
      (ObjectStore.put (lockKey root target) (Utf8.encode jobId)).exec st := by
  simp [createLock, checkRoot_eq hroot]

theorem exec_removeLock (hroot : isPathSafe root = true) (target : String) (st : ObjectStore) :
    (removeLock root target).exec st = (ObjectStore.delete (lockKey root target)).exec st := by
  simp [removeLock, checkRoot_eq hroot]

/-- **Locking.** If every lock could be made, all of them are there. Nothing but locks of these jobs is
touched, also if one could not be made. -/
theorem lockAll_spec (hs : s.store.IsSound) (hjobs : Batch root jobs) {r : Except Error Unit}
    (h : (lockAll jobs).exec s = (r, s')) :
    s' = { s with store := s'.store } ∧ Later s.store s'.store ∧
      (∀ k, (∀ job ∈ jobs, k ≠ lockKey root job.target) → s'.store.find? k = s.store.find? k) ∧
      (r = .ok () → ∀ job ∈ jobs,
        s'.store.find? (lockKey root job.target) = some (Utf8.encode job.jobId)) ∧
      ∀ e, r = .error e → ∃ cause, e = .storage cause := by
  induction jobs generalizing s with
  | nil =>
    obtain ⟨rfl, rfl⟩ := Prod.mk.inj h
    exact ⟨rfl, .refl _, fun _ _ => rfl, by simp, by simp⟩
  | cons job jobs ih =>
    obtain ⟨hroot, -, htargets, -⟩ := hjobs.head
    rw [lockAll, Effect.exec_bind, Service.exec_onStore, hroot, exec_createLock hjobs.safe] at h
    rcases hput : (ObjectStore.put (lockKey root job.target) (Utf8.encode job.jobId)).exec s.store
      with ⟨e | _, st⟩
    · -- the first lock could not be made, and no other is tried
      rw [hput] at h
      obtain ⟨rfl, rfl⟩ := Prod.mk.inj h
      obtain ⟨hlater, ⟨hr, -⟩ | ⟨-, hfind⟩⟩ := put_spec hs hput
      · cases hr
      · refine ⟨rfl, hlater, fun k _ => hfind k, by simp, ?_⟩
        intro e' he
        obtain rfl := Except.error.inj he
        exact put_error (by rw [hput])
    · rw [hput] at h
      obtain ⟨hlater, ⟨-, hfind⟩ | ⟨⟨e, hr⟩, -⟩⟩ := put_spec hs hput
      case inr => cases hr
      obtain ⟨hsame, hlater', hframe, hthere, herror⟩ :=
        ih (s := { s with store := st }) (hlater.isSound hs) hjobs.tail h
      refine ⟨hsame, hlater.trans hlater', ?_, ?_, herror⟩
      · intro k hk
        rw [List.forall_mem_cons] at hk
        rw [hframe k hk.2]
        exact (hfind k).trans (if_neg hk.1)
      · intro hr other hother
        rcases List.mem_cons.mp hother with rfl | hother
        · -- the locks that are made after this one are of other targets
          rw [hframe _ fun o ho heq => htargets o ho (lockKey_right_inj.mp heq).symm]
          exact (hfind _).trans (if_pos rfl)
        · exact hthere hr other hother

/-- **Unlocking** always succeeds and leaves no lock of these jobs. -/
theorem exec_releaseLocks (hs : s.store.IsSound) (hdel : ∀ k, s.store.outage.delete k = false)
    (hjobs : Batch root jobs) :
    ∃ st, (releaseLocks jobs).exec s = (.ok (), { s with store := st }) ∧ Later s.store st ∧
      (∀ k, (∀ job ∈ jobs, k ≠ lockKey root job.target) → st.find? k = s.store.find? k) ∧
      ∀ job ∈ jobs, st.find? (lockKey root job.target) = none := by
  induction jobs generalizing s with
  | nil => exact ⟨s.store, rfl, .refl _, fun _ _ => rfl, by simp⟩
  | cons job jobs ih =>
    obtain ⟨hroot, htarget, htargets, -⟩ := hjobs.head
    rcases hdelete : (ObjectStore.delete (lockKey root job.target)).exec s.store with ⟨r, st⟩
    obtain ⟨hlater, hfind, -⟩ :=
      delete_spec hs (hdel _) (isValidKey_lockKey hjobs.isName htarget) hdelete
    obtain ⟨st', hrest, hlater', hframe, hgone⟩ :=
      ih (s := { s with store := st }) (hlater.isSound hs) (hlater.outage ▸ hdel) hjobs.tail
    refine ⟨st', ?_, hlater.trans hlater', ?_, ?_⟩
    · rw [releaseLocks, Effect.exec_settle_bind, Service.exec_onStore, hroot,
        exec_removeLock hjobs.safe, hdelete]
      exact hrest
    · intro k hk
      rw [List.forall_mem_cons] at hk
      rw [hframe k hk.2]
      exact (hfind k).trans (if_neg hk.1)
    · refine List.forall_mem_cons.mpr ⟨?_, hgone⟩
      -- the locks that are removed after this one are of other targets
      rw [hframe _ fun o ho heq => htargets o ho (lockKey_right_inj.mp heq).symm]
      exact (hfind _).trans (if_pos rfl)

/-- **The bundle.** If it could be made, every job has its lock and the content is there. Nothing
outside the bundle is touched, also if it could not be made. -/
theorem stageAll_spec {content : PostContent} (hs : s.store.IsSound) (hjobs : Batch root jobs)
    {r : Except Error Unit} (h : (stageAll root jobs content).exec s = (r, s')) :
    s' = { s with store := s'.store } ∧ Later s.store s'.store ∧
      (∀ k, (∀ job ∈ jobs, k ≠ lockKey root job.target) →
        (∀ name ∈ partNames, k ≠ contentKey root name) → s'.store.find? k = s.store.find? k) ∧
      (r = .ok () → Holds s'.store root content ∧ ∀ job ∈ jobs,
        s'.store.find? (lockKey root job.target) = some (Utf8.encode job.jobId)) ∧
      ∀ e, r = .error e → ∃ cause, e = .storage cause := by
  rw [stageAll, Effect.exec_bind] at h
  rcases hlock : (lockAll jobs).exec s with ⟨e | _, t⟩
  · rw [hlock] at h
    obtain ⟨rfl, rfl⟩ := Prod.mk.inj h
    obtain ⟨hsame, hlater, hframe, -, herror⟩ := lockAll_spec hs hjobs hlock
    exact ⟨hsame, hlater, fun k hk _ => hframe k hk, by simp, herror⟩
  · rw [hlock] at h
    obtain ⟨hsame, hlater, hframe, hthere, -⟩ := lockAll_spec hs hjobs hlock
    rcases hstage : (stage root content).exec t.store with ⟨r', st⟩
    simp only [Service.exec_onStore, hstage] at h
    obtain ⟨rfl, rfl⟩ := Prod.mk.inj h
    obtain ⟨hlater', hframe', hheld⟩ := stage_spec (hlater.isSound hs) hjobs.safe hstage
    refine ⟨by rw [hsame], hlater.trans hlater', ?_, fun hr => ⟨hheld hr, ?_⟩, ?_⟩
    · intro k hk hname
      exact (hframe' k hname).trans (hframe k hk)
    · intro job hjob
      rw [← hthere rfl job hjob]
      exact hframe' _ fun name hname heq => contentKey_ne_lockKey hname _ heq.symm
    · rintro e rfl
      exact stage_error hjobs.safe hstage

/-! ## One target -/

/-- The delivery queue does not take the payload of the job. -/
def refused (s : Service) (job : Job) : Bool := s.refuses MessageTable.deliveryQueue job.payload

/-- The record of a job that was queued or given up. -/
def rowOf (s : Service) (job : Job) : JobRecord :=
  if refused s job then
    (JobRecord.queued job s.nowSecs).finished
      (.faulted ("enqueue failed: " ++ Service.queueUnavailable.message)) s.nowSecs
  else JobRecord.queued job s.nowSecs

/-- What is answered for a job that was queued or given up. -/
def outcomeOf (s : Service) (job : Job) : TargetOutcome where
  target := job.target
  jobId := job.jobId
  enqueued := !refused s job
  error := if refused s job then some Service.queueUnavailable.message else none

/-- The messages after a job was queued or given up. -/
def mailOne (s : Service) (delay : Span) (t : MessageTable) (job : Job) : MessageTable :=
  if refused s job then t
  else (t.enqueue MessageTable.deliveryQueue job.payload s.now delay).2

/-- The messages after jobs were queued or given up. -/
def mail (s : Service) (delay : Span) (jobs : List Job) : MessageTable :=
  jobs.foldl (mailOne s delay) s.messages

theorem rowOf_sameJob (s : Service) (job : Job) :
    (rowOf s job).jobId = job.jobId ∧ (rowOf s job).rootId = job.rootId ∧
      (rowOf s job).target = job.target := by
  unfold rowOf
  split <;> exact ⟨rfl, rfl, rfl⟩

theorem rowOf_status (s : Service) (job : Job) :
    (rowOf s job).status = if refused s job then .faulted else .queued := by
  unfold rowOf
  split <;> rfl

/-- **One target.** A job whose message is taken is queued; one whose message is refused has failed,
and its lock is gone. -/
theorem exec_queueJob {job : Job} (delay : Span) (hs : s.store.IsSound)
    (hdel : ∀ k, s.store.outage.delete k = false) (hname : IsName root)
    (hsafe : isPathSafe root = true) (hroot : job.rootId = root)
    (htarget : isPathSafe job.target = true) (hnew : ∀ r ∈ s.jobs.records, r.jobId ≠ job.jobId) :
    ∃ st, (queueJob delay job).exec s = (.ok (outcomeOf s job),
        { s with jobs := ⟨s.jobs.records ++ [rowOf s job]⟩,
                 messages := mailOne s delay s.messages job, store := st }) ∧
      Later s.store st ∧
      ∀ k, st.find? k =
        if refused s job = true ∧ k = lockKey root job.target then none else s.store.find? k := by
  have hinsert : (JobTable.insert (JobRecord.queued job s.nowSecs)).exec s.jobs =
      (.ok (), ⟨s.jobs.records ++ [JobRecord.queued job s.nowSecs]⟩) := JobTable.insert_eq hnew
  by_cases hrefused : refused s job = true
  · -- the record is written before the message is refused, so it is the one that ends
    have henqueue : (enqueueJob job delay).exec s = (.error Service.queueUnavailable,
        { s with jobs := ⟨s.jobs.records ++ [JobRecord.queued job s.nowSecs]⟩ }) := by
      rw [refused] at hrefused
      simp [enqueueJob, hinsert, Service.exec_enqueue, hrefused]
    rcases hdelete : (ObjectStore.delete (lockKey root job.target)).exec s.store with ⟨r, st⟩
    obtain ⟨hlater, hfind, -⟩ :=
      delete_spec hs (hdel _) (isValidKey_lockKey hname htarget) hdelete
    have hmove : ∀ c, JobTable.finish ⟨s.jobs.records ++ [JobRecord.queued job s.nowSecs]⟩ job.jobId
        c s.nowSecs =
        (true, ⟨s.jobs.records ++ [(JobRecord.queued job s.nowSecs).finished c s.nowSecs]⟩) :=
      fun c => JobTable.move_append (r := JobRecord.queued job s.nowSecs) hnew rfl
    rw [Service.nowSecs] at hmove
    refine ⟨st, ?_, hlater, ?_⟩
    · rw [queueJob, Effect.exec_settle_bind, henqueue]
      simp [abandon, hmove, hroot, exec_removeLock hsafe, hdelete, outcomeOf, rowOf, mailOne, hrefused,
        Service.nowSecs]
    · intro k
      rw [hfind]
      simp [hrefused]
  · -- the message is taken, and the lock stays
    have hrefused : refused s job = false := by simpa using hrefused
    refine ⟨s.store, ?_, .refl _, fun k => by simp [hrefused]⟩
    have henqueue : (enqueueJob job delay).exec s = (.ok (),
        { s with jobs := ⟨s.jobs.records ++ [JobRecord.queued job s.nowSecs]⟩,
                 messages := mailOne s delay s.messages job }) := by
      rw [mailOne, hrefused]
      rw [refused] at hrefused
      simp [enqueueJob, hinsert, Service.exec_enqueue, hrefused]
    rw [queueJob, Effect.exec_settle_bind, henqueue]
    simp [outcomeOf, rowOf, hrefused]

/-- **All targets**, one after the other: each as if it were alone. -/
theorem exec_queueJobs (delay : Span) (hs : s.store.IsSound)
    (hdel : ∀ k, s.store.outage.delete k = false) (hjobs : Batch root jobs)
    (hnew : ∀ job ∈ jobs, ∀ r ∈ s.jobs.records, r.jobId ≠ job.jobId) :
    ∃ st, (queueJobs delay jobs).exec s = (.ok (jobs.map (outcomeOf s)),
        { s with jobs := ⟨s.jobs.records ++ jobs.map (rowOf s)⟩,
                 messages := mail s delay jobs, store := st }) ∧
      Later s.store st ∧
      (∀ k, (∀ job ∈ jobs, refused s job = true → k ≠ lockKey root job.target) →
        st.find? k = s.store.find? k) ∧
      ∀ job ∈ jobs, refused s job = true → st.find? (lockKey root job.target) = none := by
  induction jobs generalizing s with
  | nil => exact ⟨s.store, by simp [queueJobs, mail], .refl _, fun _ _ => rfl, by simp⟩
  | cons job jobs ih =>
    obtain ⟨hroot, htarget, htargets, hids⟩ := hjobs.head
    rw [List.forall_mem_cons] at hnew
    obtain ⟨st, hqueue, hlater, hfind⟩ :=
      exec_queueJob delay hs hdel hjobs.isName hjobs.safe hroot htarget hnew.1
    -- the record just written is of another job than those that follow
    have hnew' : ∀ other ∈ jobs, ∀ r ∈ s.jobs.records ++ [rowOf s job], r.jobId ≠ other.jobId := by
      intro other hother r hr
      rcases List.mem_append.mp hr with hr | hr
      · exact hnew.2 other hother r hr
      · rw [List.mem_singleton.mp hr, (rowOf_sameJob s job).1]
        exact (hids other hother).symm
    obtain ⟨st', hrest, hlater', hframe, hgone⟩ :=
      ih (s := { s with jobs := ⟨s.jobs.records ++ [rowOf s job]⟩,
                        messages := mailOne s delay s.messages job, store := st })
        (hlater.isSound hs) (hlater.outage ▸ hdel) hjobs.tail hnew'
    refine ⟨st', ?_, hlater.trans hlater', ?_, ?_⟩
    · rw [queueJobs, Effect.exec_bind_ok hqueue, Effect.exec_bind_ok hrest]
      simp only [Effect.exec_pure, List.append_assoc, List.singleton_append]
      rfl
    · intro k hk
      rw [List.forall_mem_cons] at hk
      rw [hframe k hk.2]
      refine (hfind k).trans (if_neg ?_)
      rintro ⟨hrefused, heq⟩
      exact hk.1 hrefused heq
    · refine List.forall_mem_cons.mpr ⟨fun hrefused => ?_, hgone⟩
      rw [hframe _ fun o ho _ heq => htargets o ho (lockKey_right_inj.mp heq).symm]
      exact (hfind _).trans (if_pos ⟨hrefused, rfl⟩)

end Syndication.Submission
