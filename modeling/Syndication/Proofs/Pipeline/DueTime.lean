import Syndication.Proofs.Pipeline.Collection
import Syndication.Proofs.Submission.Frame
import Syndication.Proofs.Time.Order
import Syndication.Proofs.Worker.Shift

/-!
# Proofs.Pipeline.DueTime — when a scheduled post is delivered

A post may name the instant before which it is not to be delivered. The record of a job keeps the second
of that instant for good, and a worker that holds a message of the job, however early the queue has shown
it, compares this second with the second of its clock. So no platform is called before the second of the
instant. The fraction of the instant is kept nowhere, and a call may come ahead of the instant by that
fraction.

## Contents
* `JobTable.schedule`                    — the seconds that jobs wait for
* `Schedules`, `respects_schedules`      — what a submission adds to them
* `schedule_handle`, `due_of_mem_callsOf` — what a worker makes of them
* `Agenda`, `Step`, `Run`, `run_pass`
* `Inv`, `inv_step`, `inv_run`
* `run_dueSecond`                        — no call before the second
* `run_calledEarly`                      — a call before the instant
-/

namespace Syndication

namespace JobTable

/-! ## The seconds that jobs wait for -/

/-- The jobs, each with the second that it waits for, in the order of the records. -/
def schedule (t : JobTable) : List (String × Option Int) := t.records.map fun r => (r.jobId, r.postAt)

variable {t : JobTable} {jobId : String} {r : JobRecord}

theorem map_fst_schedule (t : JobTable) : t.schedule.map Prod.fst = t.records.map (·.jobId) := by
  rw [schedule, List.map_map]
  rfl

theorem mem_schedule_of_get? (h : t.get? jobId = some r) : (jobId, r.postAt) ∈ t.schedule := by
  obtain ⟨hr, rfl⟩ := mem_of_get? h
  exact List.mem_map.mpr ⟨r, hr, rfl⟩

/-- A job waits for one second, if for any. -/
theorem eq_of_mem_schedule (h : t.HasUniqueIds) {second second' : Option Int}
    (hs : (jobId, second) ∈ t.schedule) (hs' : (jobId, second') ∈ t.schedule) : second = second' := by
  rw [HasUniqueIds, ← map_fst_schedule] at h
  exact congrArg Prod.snd (List.inj_on_of_nodup_map h hs hs' rfl)

/-- A change of records that keeps their jobs and seconds. -/
theorem schedule_move {may : JobRecord → Bool} {change : JobRecord → JobRecord}
    (h : ∀ r, ((change r).jobId, (change r).postAt) = (r.jobId, r.postAt)) (t : JobTable)
    (jobId : String) : (t.move jobId may change).2.schedule = t.schedule := by
  simp only [move, schedule, List.map_map]
  apply List.map_congr_left
  intro r _
  simp only [Function.comp_apply]
  split
  · exact h r
  · rfl

theorem schedule_claim (t : JobTable) (jobId : String) (now lease : Int) :
    (t.claim jobId now lease).2.schedule = t.schedule := by
  apply schedule_move
  intro r
  rfl

theorem schedule_release (t : JobTable) (jobId error : String) (now : Int) :
    (t.release jobId error now).2.schedule = t.schedule := by
  apply schedule_move
  intro r
  rfl

theorem schedule_finish (t : JobTable) (jobId : String) (c : Completion) (now : Int) :
    (t.finish jobId c now).2.schedule = t.schedule := by
  apply schedule_move
  intro r
  rfl

end JobTable

namespace DueTime

open JobTable Submission Worker

/-! ## Submissions -/

/-- Jobs were recorded that wait for this second, behind those that there were. -/
def Schedules (second : Option Int) (s s' : Service) : Prop :=
  (∃ ids : List String, s'.jobs.schedule = s.jobs.schedule ++ ids.map (·, second)) ∧
    (s.jobs.HasUniqueIds → s'.jobs.HasUniqueIds)

theorem Schedules.of_eq {second : Option Int} {s s' : Service}
    (h : s'.jobs.schedule = s.jobs.schedule) : Schedules second s s' := by
  refine ⟨⟨[], by rw [h, List.map_nil, List.append_nil]⟩, fun hunique => ?_⟩
  rw [HasUniqueIds, ← map_fst_schedule, h, map_fst_schedule]
  exact hunique

/-- Every effect of a submission records jobs that wait for the second of its instant, or none. -/
theorem respects_schedules (postAt : Option Instant) :
    Respects (Schedules (postAt.map Instant.seconds)) postAt where
  trans := by
    rintro s t u ⟨⟨ids, hids⟩, hunique⟩ ⟨⟨ids', hids'⟩, hunique'⟩
    refine ⟨⟨ids ++ ids', ?_⟩, fun h => hunique' (hunique h)⟩
    rw [hids', hids, List.map_append, List.append_assoc]
  store := fun _ _ => .of_eq rfl
  issuer := fun _ _ => .of_eq rfl
  record := by
    intro s job hjob
    rcases exec_insert (.queued job s.nowSecs) s.jobs with heq | ⟨heq, hnew⟩
    · exact .of_eq (congrArg schedule heq)
    · refine ⟨⟨[job.jobId], ?_⟩, fun h => ?_⟩
      · show ((insert (.queued job s.nowSecs)).exec s.jobs).2.schedule = _
        rw [heq, schedule, List.map_append, ← hjob]
        rfl
      · show ((insert (.queued job s.nowSecs)).exec s.jobs).2.HasUniqueIds
        rw [heq]
        exact h.append hnew
  giveUp := fun s jobId error => .of_eq (schedule_finish s.jobs jobId (.faulted error) s.nowSecs)
  mail := fun _ _ _ => .of_eq rfl

/-- The jobs that were recorded between two states. -/
def newJobs (s s' : Service) : List String :=
  (s'.jobs.records.drop s.jobs.records.length).map (·.jobId)

/-- What was recorded are the new jobs. -/
theorem Schedules.schedule_eq {second : Option Int} {s s' : Service} (h : Schedules second s s') :
    s'.jobs.schedule = s.jobs.schedule ++ (newJobs s s').map (·, second) := by
  obtain ⟨⟨ids, hids⟩, -⟩ := h
  have hlength : s.jobs.schedule.length = s.jobs.records.length := List.length_map _
  have hnew : newJobs s s' = ids := by
    rw [newJobs, List.map_drop, ← map_fst_schedule, hids, List.map_append, ← hlength,
      ← List.length_map (f := Prod.fst), List.drop_left, List.map_map]
    exact List.map_id ids
  rw [hnew, hids]

/-! ## Workers -/

variable {m : Held} {s : Service}

theorem schedule_finished (m : Held) (job : Job) (c : Completion) (s : Service) :
    ((finish m job c).exec s).2.jobs.schedule = s.jobs.schedule := by
  obtain ⟨t, hexec, -⟩ := exec_finish m job c s
  rw [hexec]
  exact schedule_finish _ _ _ _

theorem schedule_taken (s : Service) (jobId : String) :
    (taken s jobId).jobs.schedule = s.jobs.schedule := schedule_claim _ _ _ _

/-- **Handling a message** leaves the seconds that jobs wait for. -/
theorem schedule_handle (m : Held) (s : Service) :
    ((handle m).exec s).2.jobs.schedule = s.jobs.schedule := by
  rw [exec_handle]
  cases courseOf m s with
  | drop reason => rfl
  | clear job status =>
    obtain ⟨t, hexec, -⟩ := exec_clearAway m job status s
    rw [follow, hexec]
  | wait secs => rfl
  | leave => rfl
  | giveUp job reason => exact (schedule_finished m job _ _).trans (schedule_taken s job.jobId)
  | stall job cause => exact schedule_taken s job.jobId
  | call job content p =>
    have hcalled : (called m (taken s job.jobId) job content p).jobs.schedule = s.jobs.schedule :=
      schedule_taken s job.jobId
    rw [follow]
    cases ending m s (callOf m (taken s job.jobId) job content p).1 with
    | ok c => exact (schedule_finished m job c _).trans hcalled
    | error cause =>
      show ((retryLater m job cause).exec _).2.jobs.schedule = _
      rw [exec_retryLater]
      exact (schedule_release _ _ _ _).trans hcalled

/-- **A platform is called** for a job whose second the clock has reached. -/
theorem due_of_mem_callsOf {c : Call} (hc : c ∈ callsOf m s) :
    ∃ second, (c.jobId, second) ∈ s.jobs.schedule ∧ ∀ sec ∈ second, sec ≤ s.nowSecs := by
  rw [callsOf] at hc
  split at hc
  · rename_i hcourse
    obtain ⟨-, ⟨r, hr, -, hdue⟩, -⟩ := courseOf_eq_call_iff.mp hcourse
    obtain rfl := List.mem_singleton.mp hc
    refine ⟨r.postAt, mem_schedule_of_get? hr, ?_⟩
    intro sec hsec
    rw [Option.mem_def.mp hsec, Option.filter_eq_none_iff] at hdue
    simpa using hdue sec rfl
  · cases hc

/-! ## Runs -/

/-- A service, what its workers hold, and what was written down of its posts and their deliveries. -/
structure Agenda where
  service : Service
  /-- What was taken and is not handled yet. -/
  waiting : List Held := []
  /-- The jobs of posts with an instant, each with that instant. -/
  promised : List (String × Instant) := []
  /-- The jobs for which a platform was called, each with the reading of the clock. -/
  calls : List (String × Int) := []

namespace Agenda

/-- The jobs with the instant of their post, if it has one. -/
def promises (postAt : Option Instant) (ids : List String) : List (String × Instant) :=
  match postAt with
  | some at' => ids.map (·, at')
  | none => []

/-- After a submission. -/
def afterPosting (w : Agenda) (postAt : Option Instant) (s' : Service) : Agenda :=
  { w with service := s', promised := w.promised ++ promises postAt (newJobs w.service s') }

/-- After messages of the delivery queue were taken. -/
def afterTaking (w : Agenda) (max : Nat) (hideFor : Span) : Agenda :=
  { w with
    service := ((Service.dequeue MessageTable.deliveryQueue max hideFor).exec w.service).2
    waiting := w.waiting ++
      (w.service.messages.dequeue MessageTable.deliveryQueue w.service.now max hideFor).1 }

/-- After a message was handled. -/
def afterHandling (w : Agenda) (m : Held) : Agenda :=
  { w with
    service := ((handle m).exec w.service).2
    waiting := w.waiting.erase m
    calls := w.calls ++ (callsOf m w.service).map fun c => (c.jobId, w.service.now) }

/-- One step of a run. -/
inductive Step : Agenda → Agenda → Prop
  /-- A request is submitted, to be refused or not. -/
  | submit (w : Agenda) (request : PostRequest) :
      Step w (w.afterPosting request.postAt ((submit request).exec w.service).2)
  /-- A post is submitted for a user who is known, as triggers do. -/
  | submitForUser (w : Agenda) (userId : String) (targets : List String) (content : PostContent)
      (postAt : Option Instant) :
      Step w (w.afterPosting postAt ((submitForUser userId targets content postAt).exec w.service).2)
  /-- A worker takes messages of the delivery queue. -/
  | take (w : Agenda) (max : Nat) (hideFor : Span) : Step w (w.afterTaking max hideFor)
  /-- A worker handles a message that was taken, however long ago. -/
  | work (w : Agenda) (m : Held) (waits : m ∈ w.waiting) : Step w (w.afterHandling m)
  /-- The clock goes forwards or backwards, the queues show what they like, or anything else changes but
  the records of the jobs. -/
  | surroundings (w : Agenda) (s : Service) (same : s.jobs = w.service.jobs) :
      Step w { w with service := s }

/-- Any number of steps. -/
def Run : Agenda → Agenda → Prop := Relation.ReflTransGen Step

/-- Workers share the service of an agenda. -/
def workplace : Workplace Agenda where
  service := Agenda.service
  waiting := Agenda.waiting
  afterTaking := Agenda.afterTaking
  afterHandling := Agenda.afterHandling
  service_taking := fun _ _ _ => rfl
  waiting_taking := fun _ _ _ => rfl
  service_handling := fun _ _ => rfl
  waiting_handling := fun _ _ => rfl

/-- A pass of a worker is a run. -/
theorem run_pass (w : Agenda) : ∃ n w', runOnce.exec w.service = (.ok n, w'.service) ∧ Run w w' :=
  workplace.exec_runOnce .take .work w

/-- **The invariant of a run**: what was promised is scheduled by its second, and every call was made
when the second of its job had come. -/
structure Inv (w : Agenda) : Prop where
  unique : w.service.jobs.HasUniqueIds
  promised : ∀ p ∈ w.promised, (p.1, some p.2.seconds) ∈ w.service.jobs.schedule
  due : ∀ c ∈ w.calls, ∃ second, (c.1, second) ∈ w.service.jobs.schedule ∧
    ∀ sec ∈ second, sec ≤ secondOf c.2

variable {w w' : Agenda}

theorem inv_start (hunique : s.jobs.HasUniqueIds) : Inv { service := s } where
  unique := hunique
  promised := fun _ hp => nomatch hp
  due := fun _ hc => nomatch hc

/-- A step of the service that keeps what is scheduled, after which nothing more was written down. -/
theorem Inv.still (h : Inv w) (s' : Service)
    (hjobs : s'.jobs.schedule = w.service.jobs.schedule) (waiting : List Held) :
    Inv ⟨s', waiting, w.promised, w.calls⟩ where
  unique := (Schedules.of_eq hjobs : Schedules none w.service s').2 h.unique
  promised := fun p hp => hjobs ▸ h.promised p hp
  due := fun c hc => hjobs ▸ h.due c hc

theorem Inv.posted (h : Inv w) {postAt : Option Instant} {s' : Service}
    (hs : Schedules (postAt.map Instant.seconds) w.service s') : Inv (w.afterPosting postAt s') := by
  have hschedule := hs.schedule_eq
  have hold : ∀ x ∈ w.service.jobs.schedule, x ∈ s'.jobs.schedule := by
    intro x hx
    rw [hschedule]
    exact List.mem_append_left _ hx
  refine ⟨hs.2 h.unique, ?_, ?_⟩
  · intro p hp
    rcases List.mem_append.mp hp with hp | hp
    · exact hold _ (h.promised p hp)
    · -- a job that was promised is new, and waits for the second of the instant
      cases postAt with
      | none => cases hp
      | some at' =>
        obtain ⟨id, hid, rfl⟩ := List.mem_map.mp hp
        show (id, some at'.seconds) ∈ s'.jobs.schedule
        rw [hschedule]
        exact List.mem_append_right _ (List.mem_map.mpr ⟨id, hid, rfl⟩)
  · intro c hc
    obtain ⟨second, hmem, hdue⟩ := h.due c hc
    exact ⟨second, hold _ hmem, hdue⟩

theorem Inv.handled (h : Inv w) (m : Held) : Inv (w.afterHandling m) := by
  have hjobs := schedule_handle m w.service
  obtain ⟨hunique, hpromised, hdue⟩ := h.still _ hjobs (w.waiting.erase m)
  refine ⟨hunique, hpromised, ?_⟩
  intro c hc
  rcases List.mem_append.mp hc with hc | hc
  · exact hdue c hc
  · obtain ⟨call, hcall, rfl⟩ := List.mem_map.mp hc
    obtain ⟨second, hmem, hreached⟩ := due_of_mem_callsOf hcall
    exact ⟨second, hjobs ▸ hmem, hreached⟩

theorem inv_step (h : Inv w) (hstep : Step w w') : Inv w' := by
  cases hstep with
  | submit request => exact h.posted (leads_submit (respects_schedules request.postAt) w.service)
  | submitForUser userId targets content postAt =>
    exact h.posted
      (leads_submitForUser (respects_schedules postAt) userId targets content w.service)
  | take max hideFor => exact h.still (w.afterTaking max hideFor).service rfl _
  | work m waits => exact h.handled m
  | surroundings s' same => exact h.still s' (congrArg schedule same) _

/-- **The invariant holds after every run.** -/
theorem inv_run (h : Inv w) (hrun : Run w w') : Inv w' := by
  induction hrun with
  | refl => exact h
  | tail _ hstep ih => exact inv_step ih hstep

/-! ## A post for a fraction of a second -/

/-- A service with one platform. -/
def sampleStart : Service :=
  { Service.started {} Service.sampleKeys with platforms := ⟨[.mock { id := "blog" }]⟩ }

/-- A post for half a millisecond past the fifth second. -/
def sampleRequest : PostRequest :=
  { Service.samplePost with targets := ["blog"], postAt := some ⟨5, 500000⟩ }

/-- The job of the post. -/
def sampleJob : Job :=
  jobFor (rootOf sampleStart) "ada" (sampleStart.issuer.idOf 1) "blog" sampleRequest.content
    sampleRequest.postAt

/-- The message of the job shows when the fifth second begins, since the queue counts milliseconds. -/
def sampleMessages : MessageTable :=
  ⟨[⟨1, MessageTable.deliveryQueue, sampleJob.payload, 5000, 0, none, 0⟩], 2, 0⟩

/-- The service after the post was submitted, with the clock set to a reading. -/
def sampleAt (now : Int) (st : ObjectStore) : Service :=
  { sampleStart with
    now := now, issuer := issuerAfter sampleStart 1, jobs := ⟨[.queued sampleJob 0]⟩
    messages := sampleMessages, store := st }

/-- The message as a worker takes it. -/
def sampleHeld : Held := ⟨1, 0, 1, sampleJob.payload, 0⟩

theorem exec_sample : (submit sampleRequest).exec sampleStart =
    (fanOut "ada" ["blog"] sampleRequest.content sampleRequest.postAt).exec sampleStart := by
  have hauthentic : sampleStart.keys.authenticate sampleRequest.credential = .ok () := by rfl
  have hvalid : validate sampleRequest.targets sampleRequest.content = .ok () := by rfl
  rw [exec_submit, hauthentic]
  simp only [hvalid]
  rfl

theorem posted_sample : ∃ st, ((submit sampleRequest).exec sampleStart).2 = sampleAt 0 st ∧
    ((Staging.load sampleJob.rootId).exec st).1 = .ok (some sampleRequest.content) := by
  have hsafe : ∀ target ∈ ["blog"], isPathSafe target = true := by decide +kernel
  have hfresh : FreshIds sampleStart := freshIds_of_empty rfl rfl fun _ _ => rfl
  have hanswered : ((submit sampleRequest).exec sampleStart).1.isOk = true := by decide +kernel
  have hfanned := @fanOut_spec sampleStart ObjectStore.inMemory_isSound (fun _ => rfl) hfresh "ada"
    ["blog"] (List.nodup_singleton _) hsafe sampleRequest.content sampleRequest.postAt
  rw [exec_sample] at hanswered ⊢
  generalize (fanOut "ada" ["blog"] sampleRequest.content sampleRequest.postAt).exec sampleStart =
    answer at hanswered hfanned ⊢
  obtain ⟨r, s'⟩ := answer
  cases hfanned with
  | unstaged cause st only unlocked => cases hanswered
  | staged st only holds locked unlocked =>
    have hload := Staging.load_eq (only.later.isSound ObjectStore.inMemory_isSound)
      (fun _ => only.later.outage ▸ rfl) (Staging.isName_idOf _ _) (Issuer.isPathSafe_idOf _ _) holds
    exact ⟨st, rfl, congrArg Prod.fst hload⟩

/-- A platform is called in the second of the post. -/
theorem callsOf_sample {st : ObjectStore} (t : MessageTable)
    (hload : ((Staging.load sampleJob.rootId).exec st).1 = .ok (some sampleRequest.content)) :
    ∃ result, callsOf sampleHeld { sampleAt 5000 st with messages := t } =
      [⟨sampleHeld, sampleJob.jobId, result⟩] := by
  have hcalendar : sampleJob.InCalendar := by
    intro at' hat
    obtain rfl := Option.some.inj hat
    decide +kernel
  have hattempts : sampleHeld.dequeueCount ≤ sampleStart.settings.maxAttempts := by decide
  obtain ⟨postAt, hread⟩ := Job.ofPayload?_payload hcalendar
  have hcourse : courseOf sampleHeld { sampleAt 5000 st with messages := t } =
      .call { sampleJob with postAt := postAt } sampleRequest.content (.mock { id := "blog" }) :=
    courseOf_eq_call_iff.mpr ⟨hread, ⟨.queued sampleJob 0, rfl, rfl, rfl⟩, rfl, rfl, hattempts,
      hload, rfl⟩
  rw [callsOf, hcourse]
  exact ⟨_, rfl⟩

theorem dequeue_sample : sampleMessages.dequeue MessageTable.deliveryQueue 5000 16 Span.zero =
    ([sampleHeld], ⟨[⟨1, MessageTable.deliveryQueue, sampleJob.payload, 5000, 1, some 0, 0⟩], 2, 1⟩) := by
  rw [MessageTable.dequeue, MessageTable.due, List.mergeSort_of_pairwise]
  · rfl
  · decide +kernel

/-- The post is submitted, its second begins, and a worker takes the message and handles it. -/
theorem run_sample : ∃ w, Run { service := sampleStart } w ∧
    (sampleJob.jobId, ⟨5, 500000⟩) ∈ w.promised ∧ (sampleJob.jobId, 5000) ∈ w.calls := by
  obtain ⟨st, hposted, hload⟩ := posted_sample
  let posted : Agenda := afterPosting { service := sampleStart } sampleRequest.postAt (sampleAt 0 st)
  let due : Agenda := { posted with service := sampleAt 5000 st }
  have hsubmit : Step { service := sampleStart } posted := by
    have hstep := Step.submit { service := sampleStart } sampleRequest
    rwa [hposted] at hstep
  have hclock : Step posted due := .surroundings posted (sampleAt 5000 st) rfl
  have htake : Step due (due.afterTaking 16 Span.zero) := .take due 16 Span.zero
  have hwaiting : sampleHeld ∈ (due.afterTaking 16 Span.zero).waiting := by
    show sampleHeld ∈ [] ++ (sampleMessages.dequeue _ 5000 16 Span.zero).1
    rw [dequeue_sample]
    exact List.mem_singleton_self _
  have hwork := Step.work (due.afterTaking 16 Span.zero) sampleHeld hwaiting
  refine ⟨_, .tail (.tail (.tail (.single hsubmit) hclock) htake) hwork, ?_, ?_⟩
  · exact List.mem_singleton_self _
  · obtain ⟨result, hcalls⟩ : ∃ result, callsOf sampleHeld (due.afterTaking 16 Span.zero).service =
        [⟨sampleHeld, sampleJob.jobId, result⟩] := callsOf_sample _ hload
    show _ ∈ [] ++ (callsOf sampleHeld (due.afterTaking 16 Span.zero).service).map _
    rw [hcalls]
    exact List.mem_singleton_self _

/-! ## No call before the second -/

/-- **A scheduled post is not delivered before the second of its instant.** After any run, of any
submissions, workers and readings of the clock, a platform was called for a job of a post with an instant
only when the clock had reached the second of that instant. So a call is ahead of the instant by the
fraction of the instant at most, and never ahead of an instant on a whole second. -/
theorem run_dueSecond (s : Service) (hunique : s.jobs.HasUniqueIds) (w : Agenda)
    (hrun : Run { service := s } w) :
    ∀ jobId at' now, (jobId, at') ∈ w.promised → (jobId, now) ∈ w.calls →
      at'.seconds ≤ secondOf now ∧ at'.nanosSince (.ofMillis now) ≤ at'.nanos ∧
        (at'.nanos = 0 → at' ≤ .ofMillis now) := by
  intro jobId at' now hpromised hcall
  have h := inv_run (inv_start hunique) hrun
  obtain ⟨second, hmem, hdue⟩ := h.due _ hcall
  have hsecond := eq_of_mem_schedule h.unique (h.promised _ hpromised) hmem
  have hreached : at'.seconds ≤ secondOf now := hdue at'.seconds hsecond.symm
  exact ⟨hreached, Instant.nanosSince_ofMillis_le hreached,
    fun hwhole => Instant.le_ofMillis_of_whole hwhole hreached⟩

/-- A run in which a platform was called in the second of the post. -/
theorem run_dueSecond_sample : ∃ w, Run { service := sampleStart } w ∧
    (sampleJob.jobId, 5000) ∈ w.calls ∧ (⟨5, 500000⟩ : Instant).seconds ≤ secondOf 5000 := by
  obtain ⟨w, hrun, hpromised, hcall⟩ := run_sample
  exact ⟨w, hrun, hcall,
    (run_dueSecond sampleStart List.nodup_nil w hrun _ _ _ hpromised hcall).1⟩

/-- **A scheduled post may be delivered before its instant**: half a millisecond early, at the beginning of
the second, though the queue and the worker were asked to wait for the instant. -/
theorem run_calledEarly : ∃ s w, s.jobs.records = [] ∧ Run { service := s } w ∧
    ∃ jobId at' now, (jobId, at') ∈ w.promised ∧ (jobId, now) ∈ w.calls ∧ ¬ at' ≤ .ofMillis now := by
  obtain ⟨w, hrun, hpromised, hcall⟩ := run_sample
  exact ⟨sampleStart, w, rfl, hrun, _, _, _, hpromised, hcall, by decide⟩

end Agenda
end DueTime
end Syndication
