import Syndication.Proofs.Job.Row
import Syndication.Proofs.Pipeline.Run
import Syndication.Proofs.Submission.Frame
import Syndication.Proofs.Worker.Shift

/-!
# Proofs.Pipeline.Records — what a record tells together

The cells of a record are written by different hands: by the submission, by the worker that takes the job, by
one that gives it back, and by whoever ends it. A worker may be stopped between any two of its steps, or be
so slow that its lease runs out and others take the job, and its answer comes when the job has long ended.
Here every statement on the table is a step of its own, so that steps of any number of submissions and
workers come between each other. Whatever the order, the cells of a record agree with its status and
with what the platforms have answered.

## Contents
* `HasFailed`, `Reported`, `Stage`                      — what is known of a job
* `Stage.claimed`, `Stage.released`, `Stage.finished`   — statements on the table
* `Consistent`, `Stage.consistent`                      — what a record tells together
* `Chronicle`, `Step`, `Run`
* `leaves_submit`, `leaves_consider`, `run_handle`      — programs are made of steps
* `Told`, `run_ofPipeline`                              — runs of the pipeline, and their calls
* `Inv`, `inv_step`, `inv_run`
* `run_recordsConsistent`, `pipeline_consistent`        — every run
-/

namespace Syndication.Records

open Worker Submission

/-! ## What is known of a job -/

variable {taken : List String} {calls calls' : List Call} {r : JobRecord} {jobId : String}

/-- A call of a platform for the job has failed in a way that may pass. -/
def HasFailed (calls : List Call) (jobId : String) : Prop :=
  ∃ c ∈ calls, c.jobId = jobId ∧ c.result.isTransient = true

/-- A platform has answered a call for the job with this report. -/
def Reported (calls : List Call) (jobId : String) (report : DeliveryReport) : Prop :=
  ∃ c ∈ calls, c.jobId = jobId ∧ c.result = .report report

theorem HasFailed.mono (h : HasFailed calls jobId) (hsub : calls ⊆ calls') : HasFailed calls' jobId := by
  obtain ⟨c, hc, hfailed⟩ := h
  exact ⟨c, hsub hc, hfailed⟩

theorem Reported.mono {report : DeliveryReport} (h : Reported calls jobId report)
    (hsub : calls ⊆ calls') : Reported calls' jobId report := by
  obtain ⟨c, hc, hreported⟩ := h
  exact ⟨c, hsub hc, hreported⟩

/-- The record holds nothing that a platform has made. -/
structure IsBlank (r : JobRecord) : Prop where
  platformPostId : r.platformPostId = none
  failedParts : r.failedParts = []

/-- **The stages of a job**, by its record, the jobs that were taken and the calls that were made. -/
inductive Stage (taken : List String) (calls : List Call) (r : JobRecord) : Prop
  /-- The job waits, and nobody has taken it yet. -/
  | waits (status : r.status = .queued) (lease : r.leaseUntil = none) (blank : IsBlank r)
      (error : r.lastError = none) (untaken : r.jobId ∉ taken)
  /-- The job waits again after a call that has failed. -/
  | waitsAgain (status : r.status = .queued) (lease : r.leaseUntil = none) (blank : IsBlank r)
      (error : r.lastError.isSome = true) (failed : HasFailed calls r.jobId)
  /-- Somebody has the job, and may have lost it. -/
  | posting (status : r.status = .posting) (blank : IsBlank r)
      (failed : r.lastError.isSome = true → HasFailed calls r.jobId)
  /-- The job has ended with a report. -/
  | reported (report : DeliveryReport) (told : Reported calls r.jobId report)
      (status : r.status = report.status) (lease : r.leaseUntil = none)
      (parts : r.failedParts = report.failedParts) (error : r.lastError = none)
  /-- The job has ended without one. -/
  | faulted (status : r.status = .faulted) (lease : r.leaseUntil = none) (blank : IsBlank r)
      (error : r.lastError.isSome = true)

/-- More calls may be made. -/
theorem Stage.mono (h : Stage taken calls r) (hsub : calls ⊆ calls') : Stage taken calls' r := by
  cases h with
  | waits status lease blank error untaken => exact .waits status lease blank error untaken
  | waitsAgain status lease blank error failed =>
    exact .waitsAgain status lease blank error (failed.mono hsub)
  | posting status blank failed => exact .posting status blank fun herror => (failed herror).mono hsub
  | reported report told status lease parts error =>
    exact .reported report (told.mono hsub) status lease parts error
  | faulted status lease blank error => exact .faulted status lease blank error

theorem stage_queued (job : Job) (now : Int) (hnew : job.jobId ∉ taken) :
    Stage taken calls (.queued job now) :=
  .waits rfl rfl ⟨rfl, rfl⟩ rfl hnew

/-- What the stage of a job says while the job has not ended. -/
theorem Stage.opened (h : Stage taken calls r) (hopen : r.status.isTerminal = false) :
    IsBlank r ∧ (r.lastError.isSome = true → HasFailed calls r.jobId) := by
  cases h with
  | waits status lease blank error untaken => exact ⟨blank, fun hsome => by simp [error] at hsome⟩
  | waitsAgain status lease blank error failed => exact ⟨blank, fun _ => failed⟩
  | posting status blank failed => exact ⟨blank, failed⟩
  | reported report told status lease parts error =>
    rw [status, DeliveryReport.status] at hopen
    split at hopen <;> cases hopen
  | faulted status lease blank error =>
    rw [status] at hopen
    cases hopen

/-- **A job is taken**, for the first time or again. -/
theorem Stage.claimed (h : Stage taken calls r) (jobId : String) (now lease : Int) :
    Stage (taken ++ [jobId]) calls
      (if r.jobId = jobId ∧ r.isClaimable now = true then r.claimed now lease else r) := by
  split
  · rename_i hmoved
    obtain ⟨blank, failed⟩ := h.opened (JobRecord.isTerminal_of_isClaimable hmoved.2)
    exact .posting rfl ⟨blank.platformPostId, blank.failedParts⟩ failed
  · rename_i hstays
    cases h with
    | waits status lease blank error untaken =>
      -- a job that waits can be taken, so it is another one that was
      have hother : r.jobId ≠ jobId := fun heq => hstays ⟨heq, by rw [JobRecord.isClaimable, status]⟩
      exact .waits status lease blank error (by simp [untaken, hother])
    | waitsAgain status lease blank error failed => exact .waitsAgain status lease blank error failed
    | posting status blank failed => exact .posting status blank failed
    | reported report told status lease parts error =>
      exact .reported report told status lease parts error
    | faulted status lease blank error => exact .faulted status lease blank error

/-- **A job is given back** after a call that has failed. -/
theorem Stage.released (h : Stage taken calls r) (failed : HasFailed calls jobId) (error : String)
    (now : Int) :
    Stage taken calls
      (if r.jobId = jobId ∧ (r.status == .posting) = true then r.released error now else r) := by
  split
  · rename_i hmoved
    obtain ⟨rfl, hposting⟩ := hmoved
    rw [beq_iff_eq] at hposting
    obtain ⟨blank, -⟩ := h.opened (by rw [hposting]; rfl)
    exact .waitsAgain rfl rfl ⟨blank.platformPostId, blank.failedParts⟩ rfl failed
  · exact h

/-- How a job may end: without a report, or with one that was made. -/
def EndsBy (calls : List Call) (jobId : String) (c : Completion) : Prop :=
  (∃ error, c = .faulted error) ∨ ∃ report, c = .ofReport report ∧ Reported calls jobId report

/-- **A job ends.** Every cell that the stage depends on is written, whatever was in it. -/
theorem Stage.finished (h : Stage taken calls r) {c : Completion} (hends : EndsBy calls jobId c)
    (now : Int) :
    Stage taken calls
      (if r.jobId = jobId ∧ (!r.status.isTerminal) = true then r.finished c now else r) := by
  split
  · rename_i hmoved
    obtain ⟨rfl, -⟩ := hmoved
    rcases hends with ⟨error, rfl⟩ | ⟨report, rfl, told⟩
    · exact .faulted rfl rfl ⟨rfl, rfl⟩ rfl
    · exact .reported report told rfl rfl rfl rfl
  · exact h

/-! ## What a record tells together -/

/-- **The cells of a record agree** with its status and with the calls that were made for its job. -/
structure Consistent (calls : List Call) (r : JobRecord) : Prop where
  queued : r.status = .queued → r.leaseUntil = none ∧ r.platformPostId = none ∧ r.failedParts = [] ∧
    (r.lastError.isSome = true ↔ HasFailed calls r.jobId)
  posted : r.status = .posted → r.leaseUntil = none ∧ r.failedParts = [] ∧ r.lastError = none
  someFaults : r.status = .someFaults → r.leaseUntil = none ∧ r.failedParts ≠ [] ∧
    (∃ report, Reported calls r.jobId report ∧ r.failedParts = report.failedParts) ∧ r.lastError = none
  faulted : r.status = .faulted → r.leaseUntil = none ∧ r.lastError.isSome = true ∧
    r.failedParts = [] ∧ r.platformPostId = none

/-- A record at one of its stages is consistent. -/
theorem Stage.consistent (h : Stage taken calls r) (hcalls : ∀ c ∈ calls, c.jobId ∈ taken) :
    Consistent calls r := by
  cases h with
  | waits status lease blank error untaken =>
    -- a job that was never taken was never called for
    have hnone : ¬ HasFailed calls r.jobId := by
      rintro ⟨c, hc, hid, -⟩
      exact untaken (hid ▸ hcalls c hc)
    constructor
    case queued =>
      intro _
      exact ⟨lease, blank.platformPostId, blank.failedParts, iff_of_false (by simp [error]) hnone⟩
    all_goals simp [status]
  | waitsAgain status lease blank error failed =>
    constructor
    case queued =>
      intro _
      exact ⟨lease, blank.platformPostId, blank.failedParts, iff_of_true error failed⟩
    all_goals simp [status]
  | posting status blank failed => constructor <;> simp [status]
  | reported report told status lease parts error =>
    rw [DeliveryReport.status] at status
    split at status
    · rename_i hempty
      constructor
      case posted => exact fun _ => ⟨lease, parts.trans (List.isEmpty_iff.mp hempty), error⟩
      all_goals simp [status]
    · rename_i hsome
      constructor
      case someFaults =>
        intro _
        have hne : r.failedParts ≠ [] := fun hnil => hsome (List.isEmpty_iff.mpr (parts ▸ hnil))
        exact ⟨lease, hne, ⟨report, told, parts⟩, error⟩
      all_goals simp [status]
  | faulted status lease blank error =>
    constructor
    case faulted => exact fun _ => ⟨lease, error, blank.failedParts, blank.platformPostId⟩
    all_goals simp [status]

/-! ## Runs -/

/-- A service, the jobs that were taken, and the calls of platforms that were made for them. -/
structure Chronicle where
  service : Service
  taken : List String := []
  calls : List Call := []

/-- After a worker has taken a job. -/
def Chronicle.afterTaking (w : Chronicle) (jobId : String) : Chronicle :=
  { w with service := Worker.taken w.service jobId, taken := w.taken ++ [jobId] }

/-- The table after the answer to a call was written down. -/
def written (c : Call) (s : Service) : JobTable :=
  match ending c.held s c.result with
  | .ok completion => (s.jobs.finish c.jobId completion s.nowSecs).2
  | .error cause => (s.jobs.release c.jobId cause.message s.nowSecs).2

/-- One step of a run: one statement on the table of jobs, one call, or what happens around them.
Submissions, triggers, workers and maintenance are made of such steps, as is told below. -/
inductive Step : Chronicle → Chronicle → Prop
  /-- A submission writes the record of a job. -/
  | record (w : Chronicle) (job : Job) :
      Step w { w with service := { w.service with
        jobs := ((JobTable.insert (.queued job w.service.nowSecs)).exec w.service.jobs).2 } }
  /-- A job is given up, by a submission whose message was refused or by a worker before it makes a
  call. -/
  | giveUp (w : Chronicle) (jobId error : String) :
      Step w { w with service := { w.service with
        jobs := (w.service.jobs.finish jobId (.faulted error) w.service.nowSecs).2 } }
  /-- A worker takes a job that is free or has become so. -/
  | take (w : Chronicle) (jobId : String)
      (free : (w.service.jobs.claim jobId w.service.nowSecs (leaseNow w.service)).1 = true) :
      Step w (w.afterTaking jobId)
  /-- Who has taken a job, however long ago, calls a platform, which answers anything. -/
  | call (w : Chronicle) (c : Call) (taken : c.jobId ∈ w.taken) (s : Service)
      (same : s.jobs = w.service.jobs) : Step w { w with service := s, calls := w.calls ++ [c] }
  /-- The answer to a call is written down, soon or late. -/
  | answer (w : Chronicle) (c : Call) (made : c ∈ w.calls) :
      Step w { w with service := { w.service with jobs := written c w.service } }
  /-- The clock goes forwards or backwards, messages come, are lost or are shown again, objects are
  removed, or anything else changes but the records of the jobs. -/
  | surroundings (w : Chronicle) (s : Service) (same : s.jobs = w.service.jobs) :
      Step w { w with service := s }

/-- Any number of steps. -/
def Run : Chronicle → Chronicle → Prop := Relation.ReflTransGen Step

namespace Chronicle

variable {w w' : Chronicle} {s s' : Service}

theorem run_surroundings (w : Chronicle) (same : s.jobs = w.service.jobs) :
    Run w { w with service := s } := .single (.surroundings w s same)

/-! ## What programs do -/

/-- Steps lead from one service to the other, and no job is taken meanwhile. -/
def Leaves (s s' : Service) : Prop := ∀ w : Chronicle, w.service = s → Run w { w with service := s' }

theorem Leaves.trans ⦃s t u : Service⦄ (h : Leaves s t) (h' : Leaves t u) : Leaves s u := fun w hw =>
  (h w hw).trans (h' { w with service := t } rfl)

theorem leaves_of_jobs (same : s'.jobs = s.jobs) : Leaves s s' := by
  rintro w rfl
  exact run_surroundings w same

/-- Every effect of a submission is a step. -/
theorem respects_leaves (postAt : Option Instant) : Respects Leaves postAt where
  trans := Leaves.trans
  store := fun _ _ => leaves_of_jobs rfl
  issuer := fun _ _ => leaves_of_jobs rfl
  record := by
    rintro s job - w rfl
    exact .single (.record w job)
  giveUp := by
    rintro s jobId error w rfl
    exact .single (.giveUp w jobId error)
  mail := fun _ _ _ => leaves_of_jobs rfl

/-- **A submission** is a run. -/
theorem leaves_submit (request : PostRequest) (s : Service) : Leaves s ((submit request).exec s).2 :=
  leads_submit (respects_leaves request.postAt) s

/-- **A trigger that is considered** is a run. -/
theorem leaves_consider (e : TriggerEvent) (userId : String) (t : Trigger) (s : Service) :
    Leaves s ((Firing.consider e userId t).exec s).2 := by
  have hspec := Firing.consider_spec e userId t s
  generalize (Firing.consider e userId t).exec s = answer at hspec ⊢
  obtain ⟨result, s'⟩ := answer
  cases hspec with
  | passed result silent same => exact leaves_of_jobs same.jobs
  | @tried before after _ template result found same issuer r post told same' =>
    have hpost := leads_submitForUser (respects_leaves none) t.userId [t.target]
      (Firing.contentOf template e) before
    rw [post] at hpost
    exact ((leaves_of_jobs same.jobs).trans hpost).trans (leaves_of_jobs same'.jobs)

theorem jobs_finish (m : Held) (job : Job) (c : Completion) (s : Service) :
    ((finish m job c).exec s).2.jobs = (s.jobs.finish job.jobId c s.nowSecs).2 := by
  obtain ⟨t, hexec, -⟩ := exec_finish m job c s
  rw [hexec]

/-- The end of an attempt writes the answer down. -/
theorem jobs_endAttempt (m : Held) (job : Job) (result : DeliveryResult) (s : Service) :
    ((endAttempt m job (ending m s result)).exec s).2.jobs = written ⟨m, job.jobId, result⟩ s := by
  rw [written]
  cases ending m s result with
  | ok completion => exact jobs_finish m job completion s
  | error cause =>
    show ((retryLater m job cause).exec s).2.jobs = _
    rw [exec_retryLater]

/-- **Handling a message** is a run, in which the calls are made that a worker makes. -/
theorem run_handle (w : Chronicle) (m : Held) :
    ∃ w', Run w w' ∧ w'.service = ((handle m).exec w.service).2 ∧
      w'.calls = w.calls ++ callsOf m w.service := by
  -- where no job is taken the records stay as they are, and the rest is surroundings
  have hsilent : ∀ s, s.jobs = w.service.jobs →
      ∃ w', Run w w' ∧ w'.service = s ∧ w'.calls = w.calls ++ [] := fun s same =>
    ⟨_, run_surroundings w same, rfl, (List.append_nil _).symm⟩
  have hclaim := @claim_of_takes m w.service
  rw [exec_handle, callsOf]
  cases hcourse : courseOf m w.service with
  | drop reason => exact hsilent _ rfl
  | clear job status =>
    obtain ⟨t, hexec, -⟩ := exec_clearAway m job status w.service
    exact hsilent ((clearAway m job status).exec w.service).2 (by rw [hexec])
  | wait secs => exact hsilent _ rfl
  | leave => exact hsilent _ rfl
  | giveUp job reason =>
    have htake := Step.take w job.jobId (hclaim (by rw [hcourse]; rfl))
    have hgiveUp := Step.giveUp (w.afterTaking job.jobId) job.jobId reason
    let s := ((finish m job (.faulted reason)).exec (Worker.taken w.service job.jobId)).2
    refine ⟨{ w.afterTaking job.jobId with service := s }, ?_, rfl, (List.append_nil _).symm⟩
    exact (Relation.ReflTransGen.single htake).tail hgiveUp |>.trans
      (run_surroundings _ (jobs_finish m job _ _))
  | stall job cause =>
    have htake := Step.take w job.jobId (hclaim (by rw [hcourse]; rfl))
    exact ⟨w.afterTaking job.jobId, .single htake, rfl, (List.append_nil _).symm⟩
  | call job content p =>
    have htake := Step.take w job.jobId (hclaim (by rw [hcourse]; rfl))
    let c : Call := ⟨m, job.jobId, (callOf m (Worker.taken w.service job.jobId) job content p).1⟩
    let s := called m (Worker.taken w.service job.jobId) job content p
    have hcall := Step.call (w.afterTaking job.jobId) c
      (List.mem_append_right _ (List.mem_singleton_self _)) s rfl
    let told : Chronicle := ⟨s, w.taken ++ [job.jobId], w.calls ++ [c]⟩
    have hanswer : Step told { told with service := { s with jobs := written c s } } :=
      .answer told c (List.mem_append_right _ (List.mem_singleton_self _))
    let s' := ((endAttempt m job (ending m s c.result)).exec s).2
    refine ⟨{ told with service := s' }, ?_, rfl, rfl⟩
    exact ((Relation.ReflTransGen.single htake).tail hcall).tail hanswer |>.trans
      (run_surroundings _ (jobs_endAttempt m job c.result s))

/-- The pipeline after a worker has handled a message. -/
def worked (p : Pipeline) (m : Held) : Pipeline := { p with service := ((handle m).exec p.service).2 }

/-- **The calls of a run of the pipeline**: of every message that a worker handles, those that are made then,
first things first. A step that is not the handling of a message that is held makes none. -/
inductive Told (start : Pipeline) : Pipeline → List Call → Prop
  | start : Told start start []
  | work {p : Pipeline} {calls : List Call} (m : Held) (held : m ∈ p.deliveries)
      (before : Told start p calls) : Told start (worked p m) (calls ++ callsOf m p.service)
  | other {p p' : Pipeline} {calls : List Call} (step : Pipeline.Step p p')
      (silent : ∀ m ∈ p.deliveries, p' ≠ worked p m) (before : Told start p calls) :
      Told start p' calls

/-- What is not the handling of a message is made of steps without a call. -/
theorem leaves_ofPipelineStep {p p' : Pipeline} (hstep : Pipeline.Step p p')
    (hsilent : ∀ m ∈ p.deliveries, p' ≠ worked p m) : Leaves p.service p'.service := by
  cases hstep with
  | submit request calendar => exact leaves_submit request p.service
  | consider e userId t => exact leaves_consider e userId t p.service
  | takeDeliveries max hideFor => exact leaves_of_jobs rfl
  | work m held => exact absurd rfl (hsilent m held)
  | takeEvents max hideFor => exact leaves_of_jobs rfl
  | acknowledgeEvent m held => exact leaves_of_jobs rfl
  | deferEvent m held delay counts => exact leaves_of_jobs rfl
  | offerEvent payload delay =>
    rw [Service.exec_enqueue]
    split
    · exact leaves_of_jobs rfl
    · exact leaves_of_jobs rfl
  | maintain retention => exact leaves_of_jobs (Pipeline.exec_maintain retention p.service).jobs
  | surroundings s same => exact leaves_of_jobs same.jobs

/-- **A run of the pipeline** is a run, one program after the other, with the same calls. -/
theorem run_ofPipeline {start p : Pipeline} {calls : List Call} (htold : Told start p calls)
    (hw : w.service = start.service) :
    ∃ w', Run w w' ∧ w'.service = p.service ∧ w'.calls = w.calls ++ calls := by
  induction htold with
  | start => exact ⟨w, .refl, hw, (List.append_nil _).symm⟩
  | work m held before ih =>
    obtain ⟨w₁, hfirst, hservice, hcalls⟩ := ih
    obtain ⟨w₂, hlast, hservice', hcalls'⟩ := run_handle w₁ m
    rw [hservice] at hservice' hcalls'
    exact ⟨w₂, hfirst.trans hlast, hservice', by rw [hcalls', hcalls, List.append_assoc]⟩
  | other step silent before ih =>
    obtain ⟨w₁, hfirst, hservice, hcalls⟩ := ih
    exact ⟨_, hfirst.trans (leaves_ofPipelineStep step silent w₁ hservice), rfl, hcalls⟩

/-- Without its calls, what was told is a run of the pipeline, and every run can be told. -/
theorem exists_told_iff {start p : Pipeline} : (∃ calls, Told start p calls) ↔ Pipeline.Run start p := by
  constructor
  · rintro ⟨calls, htold⟩
    induction htold with
    | start => exact .refl
    | @work p calls m held before ih => exact ih.tail (.work p m held)
    | other step silent before ih => exact ih.tail step
  · intro hrun
    induction hrun with
    | refl => exact ⟨[], .start⟩
    | @tail p p' _ hstep ih =>
      obtain ⟨calls, htold⟩ := ih
      by_cases hwork : ∃ m ∈ p.deliveries, p' = worked p m
      · obtain ⟨m, held, rfl⟩ := hwork
        exact ⟨_, .work m held htold⟩
      · exact ⟨calls, .other hstep (fun m held heq => hwork ⟨m, held, heq⟩) htold⟩

/-! ## The invariant -/

/-- **The invariant of a run**: a job is taken after it was recorded and before a platform is called for it,
and every record is at one of its stages. -/
structure Inv (w : Chronicle) : Prop where
  recorded : ∀ id ∈ w.taken, id ∈ w.service.jobs.records.map (·.jobId)
  taken : ∀ c ∈ w.calls, c.jobId ∈ w.taken
  stages : ∀ r ∈ w.service.jobs.records, Stage w.taken w.calls r

theorem inv_start (hempty : s.jobs.records = []) : Inv { service := s } where
  recorded := fun _ hid => nomatch hid
  taken := fun _ hc => nomatch hc
  stages := by
    rw [hempty]
    exact fun _ hr => nomatch hr

/-- A move keeps the invariant if it keeps the record of the job at one of its stages. -/
theorem Inv.moved (h : Inv w) {t : JobTable} (hmoves : w.service.jobs.Moves t)
    (hstages : ∀ r ∈ t.records, Stage w.taken w.calls r) :
    Inv { w with service := { w.service with jobs := t } } where
  recorded := by
    rw [hmoves.jobIds]
    exact h.recorded
  taken := h.taken
  stages := hstages

theorem Inv.finished (h : Inv w) {jobId : String} {c : Completion} (hends : EndsBy w.calls jobId c)
    (now : Int) :
    Inv { w with service := { w.service with jobs := (w.service.jobs.finish jobId c now).2 } } :=
  h.moved (JobTable.moves_finish _ _ _ _)
    (List.forall_mem_map.mpr fun r hr => (h.stages r hr).finished hends now)

/-- The answer to a call ends the job, or gives it back after a failure. -/
theorem Inv.answered (h : Inv w) {c : Call} (hc : c ∈ w.calls) :
    Inv { w with service := { w.service with jobs := written c w.service } } := by
  rw [written]
  cases hend : ending c.held w.service c.result with
  | ok completion =>
    refine h.finished ?_ w.service.nowSecs
    cases hresult : c.result with
    | report report =>
      rw [hresult] at hend
      exact .inr ⟨report, (Except.ok.inj hend).symm, c, hc, rfl, hresult⟩
    | timedOut =>
      rw [hresult] at hend
      exact .inl ⟨_, (Except.ok.inj hend).symm⟩
    | failed e =>
      rw [hresult, ending] at hend
      split at hend
      · cases hend
      · exact .inl ⟨_, (Except.ok.inj hend).symm⟩
  | error cause =>
    have hfailed : HasFailed w.calls c.jobId := ⟨c, hc, rfl, isTransient_of_ending hend⟩
    exact h.moved (JobTable.moves_release _ _ _ _)
      (List.forall_mem_map.mpr fun r hr => (h.stages r hr).released hfailed _ _)

theorem Inv.recording (h : Inv w) (job : Job) (now : Int) :
    Inv { w with service := { w.service with
      jobs := ((JobTable.insert (.queued job now)).exec w.service.jobs).2 } } := by
  rcases JobTable.exec_insert (.queued job now) w.service.jobs with heq | ⟨heq, hnew⟩
  · rw [heq]
    exact h
  rw [heq]
  constructor
  case recorded =>
    intro id hid
    rw [List.map_append]
    exact List.mem_append_left _ (h.recorded id hid)
  case taken => exact h.taken
  case stages =>
    have huntaken : job.jobId ∉ w.taken := by
      intro htaken
      obtain ⟨r, hr, hid⟩ := List.mem_map.mp (h.recorded _ htaken)
      exact hnew r hr hid
    intro r hr
    rcases List.mem_append.mp hr with hold | hlast
    · exact h.stages r hold
    · rw [List.mem_singleton.mp hlast]
      exact stage_queued job now huntaken

theorem Inv.taking (h : Inv w) {jobId : String}
    (free : (w.service.jobs.claim jobId w.service.nowSecs (leaseNow w.service)).1 = true) :
    Inv (w.afterTaking jobId) := by
  have hids : (w.afterTaking jobId).service.jobs.records.map (·.jobId) =
      w.service.jobs.records.map (·.jobId) := (moves_taken w.service jobId).jobIds
  constructor
  case recorded =>
    intro id hid
    rw [hids]
    rcases List.mem_append.mp hid with hold | hlast
    · exact h.recorded id hold
    · obtain ⟨r, hr, hfree⟩ := List.any_eq_true.mp free
      rw [Bool.and_eq_true, decide_eq_true_eq] at hfree
      rw [List.mem_singleton.mp hlast]
      exact List.mem_map.mpr ⟨r, hr, hfree.1⟩
  case taken => exact fun c hc => List.mem_append_left _ (h.taken c hc)
  case stages => exact List.forall_mem_map.mpr fun r hr => (h.stages r hr).claimed jobId _ _

theorem Inv.calling (h : Inv w) {c : Call} (htaken : c.jobId ∈ w.taken) :
    Inv { w with calls := w.calls ++ [c] } where
  recorded := h.recorded
  taken := by
    intro c' hc'
    rcases List.mem_append.mp hc' with hold | hlast
    · exact h.taken c' hold
    · exact List.mem_singleton.mp hlast ▸ htaken
  stages := fun r hr => (h.stages r hr).mono (List.subset_append_left _ _)

theorem Inv.sameJobs (h : Inv w) (same : s.jobs = w.service.jobs) : Inv { w with service := s } where
  recorded := by
    rw [same]
    exact h.recorded
  taken := h.taken
  stages := by
    rw [same]
    exact h.stages

/-- **One step keeps the invariant.** -/
theorem inv_step (h : Inv w) (hstep : Step w w') : Inv w' := by
  cases hstep with
  | record job => exact h.recording job _
  | giveUp jobId error => exact h.finished (.inl ⟨error, rfl⟩) _
  | take jobId free => exact h.taking free
  | call c taken s same => exact (h.calling taken).sameJobs same
  | answer c made => exact h.answered made
  | surroundings s same => exact h.sameJobs same

/-- **The invariant holds after every run.** -/
theorem inv_run (h : Inv w) (hrun : Run w w') : Inv w' := by
  induction hrun with
  | refl => exact h
  | tail _ hstep ih => exact inv_step ih hstep

/-! ## Every run -/

/-- **Records are consistent.** Of a service without jobs, after any run, of any number of submissions and
workers whose steps come between each other, with any answers of the platforms: the cells of every
record agree with its status and with the calls that were made for its job, and its row gives the same
record back. -/
theorem run_recordsConsistent (s : Service) (hempty : s.jobs.records = []) (w : Chronicle)
    (hrun : Run { service := s } w) :
    ∀ r ∈ w.service.jobs.records, Consistent w.calls r ∧ r.row.record? = some r := by
  intro r hr
  have h := inv_run (inv_start hempty) hrun
  exact ⟨(h.stages r hr).consistent h.taken, JobRow.record?_row r⟩

/-- **Records are consistent in the pipeline**: of a service without jobs, after any run of submissions,
triggers, workers and maintenance, the cells of every record agree with its status and with the calls that
its workers have made, of which there is a list for every run. -/
theorem pipeline_consistent {start p : Pipeline} (hempty : start.service.jobs.records = [])
    (hrun : Pipeline.Run start p) : (∃ calls, Told start p calls) ∧
      ∀ calls, Told start p calls → ∀ r ∈ p.service.jobs.records, Consistent calls r := by
  refine ⟨exists_told_iff.mpr hrun, fun calls htold r hr => ?_⟩
  obtain ⟨w, hsteps, hservice, hcalls⟩ := run_ofPipeline (w := { service := start.service }) htold rfl
  have h := inv_run (inv_start hempty) hsteps
  rw [List.nil_append] at hcalls
  rw [← hservice] at hr
  exact hcalls ▸ (h.stages r hr).consistent h.taken

/-- A job for one target. -/
def sampleJob : Job where
  rootId := "p1"
  jobId := "j1"
  userId := "ada"
  target := "blog"
  status := .queued

/-- A failure that may pass. -/
def sampleCause : Error := .platform (.network "connection reset")

/-- A call for the job that fails. -/
def sampleCall : Call := ⟨⟨1, 0, 1, sampleJob.payload, 0⟩, "j1", .failed sampleCause⟩

/-- A run in which the job waits again, with the error of the call. -/
theorem run_recordsConsistent_sample : ∃ w r, Run { service := .started {} [] } w ∧
    r ∈ w.service.jobs.records ∧ r.status = .queued ∧ r.lastError.isSome = true ∧
    Consistent w.calls r ∧ r.row.record? = some r := by
  let recorded : Chronicle := { service := { Service.started {} [] with
    jobs := ⟨[.queued sampleJob 0]⟩ } }
  let called : Chronicle := { recorded.afterTaking "j1" with calls := [sampleCall] }
  let answered : Chronicle :=
    { called with service := { called.service with jobs := written sampleCall called.service } }
  let r := ((JobRecord.queued sampleJob 0).claimed 0 0).released sampleCause.message 0
  have hrecord : Step { service := .started {} [] } recorded := .record _ sampleJob
  have htake : Step recorded (recorded.afterTaking "j1") := .take recorded "j1" rfl
  have hcall : Step (recorded.afterTaking "j1") called := .call _ sampleCall (by decide) _ rfl
  have hanswer : Step called answered := .answer called sampleCall (List.mem_singleton_self _)
  have hrun : Run { service := .started {} [] } answered :=
    (((Relation.ReflTransGen.single hrecord).tail htake).tail hcall).tail hanswer
  have hmem : r ∈ answered.service.jobs.records := List.mem_singleton_self r
  obtain ⟨hconsistent, hrow⟩ := run_recordsConsistent (.started {} []) rfl answered hrun r hmem
  exact ⟨answered, r, hrun, hmem, rfl, rfl, hconsistent, hrow⟩

end Chronicle
end Syndication.Records
