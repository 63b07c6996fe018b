import Syndication.Proofs.Job.Payload
import Syndication.Proofs.Pipeline.Run
import Syndication.Proofs.Worker.Own

/-!
# Proofs.Pipeline.Footprint — a message touches the job that it names

A worker reads from a message which job it is about, where the content of its post stands and for which
target it is meant. The record of the job says the same. A message touches the row of the job that it
names, its own row, and the lock at the place that it tells; and a platform is handed the content of the
post that it tells. If message and record agree, that is the lock and the content of the job. All messages
agree that come from a submission.

Nothing here asks where a message comes from, what its payload is, or where the store is out of order.

## Contents
* `Address`, `told`, `recorded`        — where a job belongs, by its message and by its record
* `OnlyTouches`, `KeepsTo`             — what a message touches
* `handle_keepsTo`, `handle_ownJob`    — one message
* `handleAll_onlyTouches`              — one batch
* `run_ownJob`                         — messages of submissions
-/

namespace Syndication

open ObjectStore Staging Worker

/-! ## Addresses -/

/-- Where a job belongs: its identifier, its post and its target. -/
structure Address where
  jobId : String
  rootId : String
  target : String
  deriving DecidableEq, Repr

def Job.address (job : Job) : Address := ⟨job.jobId, job.rootId, job.target⟩

def JobRecord.address (r : JobRecord) : Address := ⟨r.jobId, r.rootId, r.target⟩

/-- The lock of a job that belongs there. -/
def Address.lock (a : Address) : String := lockKey a.rootId a.target

theorem Job.IsOf.address_eq {job : Job} {r : JobRecord} (h : job.IsOf r) : job.address = r.address := by
  rw [Job.address, h.jobId, h.rootId, h.target, JobRecord.address]

namespace Footprint

/-- Where the job that a message names belongs as the message tells, if the job has a record. -/
def told (m : Held) (s : Service) : Option Address :=
  (Job.ofPayload? m.payload).bind fun job => (s.jobs.get? job.jobId).map fun _ => job.address

/-- Where it belongs as its record tells. -/
def recorded (m : Held) (s : Service) : Option Address :=
  (Job.ofPayload? m.payload).bind fun job => (s.jobs.get? job.jobId).map (·.address)

/-- Message and record agree. -/
def Agrees (m : Held) (s : Service) : Prop := told m s = recorded m s

/-! ## What is touched -/

/-- Nothing is touched but messages with these numbers, the rows and locks of jobs with these addresses,
what belongs to their targets, and sessions. -/
structure OnlyTouches (held : List Nat) (own : List Address) (s s' : Service) : Prop where
  work : OnlyWork s s'
  later : Later s.store s'.store
  messages : ∀ id, id ∉ held → s'.messages.part id = s.messages.part id
  jobs : ∀ k, (∀ a ∈ own, k ≠ a.jobId) → s'.jobs.part k = s.jobs.part k
  addresses : ∀ k, (s'.jobs.get? k).map (·.address) = (s.jobs.get? k).map (·.address)
  windows : ∀ k, (∀ a ∈ own, k ≠ a.target) → s'.windows.part k = s.windows.part k
  platforms : ∀ k, (∀ a ∈ own, k ≠ a.target) → s'.platforms.get? k = s.platforms.get? k
  bundles : ∀ k, Text.startsWith k bundleStart = true → s'.store.find? k = s.store.find? k ∨
    s'.store.find? k = none ∧ ∃ a ∈ own, k = a.lock

/-- No platform was called: sessions, windows and platforms are as they were, and so are all objects but
locks of these jobs. -/
structure Uncalled (own : List Address) (s s' : Service) : Prop where
  sessions : s'.sessions = s.sessions
  windows : s'.windows = s.windows
  platforms : s'.platforms = s.platforms
  objects : ∀ k, s'.store.find? k = s.store.find? k ∨
    s'.store.find? k = none ∧ ∃ a ∈ own, k = a.lock

/-- What a message may touch if its job belongs there. A platform is called for that target only, with the
content of that post. -/
structure KeepsTo (own : Option Address) (m : Held) (s s' : Service) : Prop where
  touches : OnlyTouches [m.id] own.toList s s'
  uncalled : (∀ job content p, courseOf m s ≠ .call job content p) → Uncalled own.toList s s'
  called : ∀ job content p, courseOf m s = .call job content p →
    ∃ a ∈ own, job.address = a ∧ p.id = a.target ∧
      ((Staging.load a.rootId).exec s.store).1 = .ok (some content)

variable {held : List Nat} {own : List Address} {m : Held} {s s' s'' : Service} {job : Job}

namespace OnlyTouches

theorem refl (held : List Nat) (own : List Address) (s : Service) : OnlyTouches held own s s where
  work := rfl
  later := .refl _
  messages := fun _ _ => rfl
  jobs := fun _ _ => rfl
  addresses := fun _ => rfl
  windows := fun _ _ => rfl
  platforms := fun _ _ => rfl
  bundles := fun _ _ => .inl rfl

theorem trans (h : OnlyTouches held own s s') (h' : OnlyTouches held own s' s'') :
    OnlyTouches held own s s'' where
  work := h.work.trans h'.work
  later := h.later.trans h'.later
  messages := fun id hid => (h'.messages id hid).trans (h.messages id hid)
  jobs := fun k hk => (h'.jobs k hk).trans (h.jobs k hk)
  addresses := fun k => (h'.addresses k).trans (h.addresses k)
  windows := fun k hk => (h'.windows k hk).trans (h.windows k hk)
  platforms := fun k hk => (h'.platforms k hk).trans (h.platforms k hk)
  bundles := by
    intro k hk
    rcases h'.bundles k hk with heq | hgone
    · rw [heq]
      exact h.bundles k hk
    · exact .inr hgone

theorem mono {held' : List Nat} {own' : List Address} (h : OnlyTouches held own s s')
    (hheld : held ⊆ held') (hown : own ⊆ own') : OnlyTouches held' own' s s' where
  work := h.work
  later := h.later
  messages := fun id hid => h.messages id fun hmem => hid (hheld hmem)
  jobs := fun k hk => h.jobs k fun a ha => hk a (hown ha)
  addresses := h.addresses
  windows := fun k hk => h.windows k fun a ha => hk a (hown ha)
  platforms := fun k hk => h.platforms k fun a ha => hk a (hown ha)
  bundles := fun k hk => (h.bundles k hk).imp_right fun ⟨hgone, a, ha, heq⟩ => ⟨hgone, a, hown ha, heq⟩

end OnlyTouches

/-! ## Steps -/

/-- A move of a job leaves all jobs where they belong. -/
theorem address_move (t : JobTable) (jobId : String) (may : JobRecord → Bool)
    {change : JobRecord → JobRecord} (hsame : ∀ r : JobRecord, r.SameJob (change r)) (k : String) :
    ((t.move jobId may change).2.get? k).map (·.address) = (t.get? k).map (·.address) := by
  have haddress : ∀ r : JobRecord,
      (if r.jobId = jobId ∧ may r then change r else r).address = r.address := by
    intro r
    split
    · rw [JobRecord.address, (hsame r).jobId, (hsame r).rootId, (hsame r).target, JobRecord.address]
    · rfl
  have hkeeps : (fun r : JobRecord => decide (r.jobId = k)) ∘
      (fun r => if r.jobId = jobId ∧ may r then change r else r) = fun r => decide (r.jobId = k) := by
    funext r
    exact congrArg (fun a : Address => decide (a.jobId = k)) (haddress r)
  rw [JobTable.get?, JobTable.get?, JobTable.move, List.find?_map, hkeeps, Option.map_map]
  exact congrArg (Option.map · _) (funext haddress)

/-- A job is moved on. -/
theorem onlyTouches_move (may : JobRecord → Bool) {change : JobRecord → JobRecord}
    (hsame : ∀ r : JobRecord, r.SameJob (change r)) (hown : job.address ∈ own) :
    OnlyTouches held own s { s with jobs := (s.jobs.move job.jobId may change).2 } :=
  { OnlyTouches.refl held own s with
    work := rfl
    jobs := fun _ hk => JobTable.part_move_other (fun r => (hsame r).jobId) (hk _ hown)
    addresses := address_move s.jobs job.jobId may hsame }

/-- A message is acknowledged, or left. -/
theorem onlyTouches_acknowledge {t : MessageTable} (h : MayAcknowledge m s.messages t) :
    OnlyTouches [m.id] own s { s with messages := t } :=
  { OnlyTouches.refl [m.id] own s with
    work := rfl
    messages := by
      intro id hid
      rcases h with rfl | rfl
      · rfl
      · exact MessageTable.part_acknowledge_other (by simpa using hid) }

theorem onlyTouches_defer (delay : Span) (counts : Bool) :
    OnlyTouches [m.id] own s { s with messages := (s.messages.defer m s.now delay counts).2 } :=
  { OnlyTouches.refl [m.id] own s with
    work := rfl
    messages := fun id hid => MessageTable.part_defer_other _ _ _ (by simpa using hid) }

/-- A lock is removed, or left. -/
theorem removeLock_frame {st : ObjectStore} (hst : st.IsSound) (root target : String) :
    Later st ((removeLock root target).exec st).2 ∧ ∀ k,
      ((removeLock root target).exec st).2.find? k = st.find? k ∨
        ((removeLock root target).exec st).2.find? k = none ∧ k = lockKey root target := by
  rcases removeLock_eq root target with hremove | ⟨e, hremove⟩ <;> rw [hremove]
  · obtain ⟨hlater, hfind⟩ :=
      delete_frame hst (Prod.eta ((ObjectStore.delete (lockKey root target)).exec st)).symm
    exact ⟨hlater, fun k => (hfind k).imp_right And.symm⟩
  · exact ⟨.refl st, fun _ => .inl rfl⟩

theorem removeLock_own {st : ObjectStore} (hst : st.IsSound) (hown : job.address ∈ own) (k : String) :
    ((removeLock job.rootId job.target).exec st).2.find? k = st.find? k ∨
      ((removeLock job.rootId job.target).exec st).2.find? k = none ∧ ∃ a ∈ own, k = a.lock :=
  ((removeLock_frame hst job.rootId job.target).2 k).imp_right fun ⟨hgone, hkey⟩ =>
    ⟨hgone, _, hown, hkey⟩

theorem onlyTouches_releaseLock (hs : s.store.IsSound) (hown : job.address ∈ own) :
    OnlyTouches held own s
      { s with store := ((removeLock job.rootId job.target).exec s.store).2 } :=
  { OnlyTouches.refl held own s with
    work := rfl
    later := (removeLock_frame hs job.rootId job.target).1
    bundles := fun k _ => removeLock_own hs hown k }

/-- A platform is called for its target. -/
theorem onlyTouches_called (hs : s.store.IsSound) (hown : job.address ∈ own) (content : PostContent)
    {p : Platform} (hid : p.id = job.target) :
    OnlyTouches held own s (called m s job content p) := by
  have hsame : SameBundles s.store (called m s job content p).store :=
    p.deliver_sameBundles (w := s.sessionWorld) _ _ hs
  exact {
    OnlyTouches.refl held own s with
    work := rfl
    later := hsame.later
    windows := fun k hk => RateWindows.part_record_other (hk _ hown)
    platforms := by
      intro k hk
      have hcalled : (callOf m s job content p).2.1.id = job.target :=
        (Platform.isLocal_deliver.id p _ _ _).trans hid
      show (s.platforms.register _).get? k = _
      rw [PlatformRegistry.get?_register, hcalled]
      exact if_neg (hk _ hown)
    bundles := fun k hk => .inl (hsame.find k hk) }

theorem onlyTouches_finish (hs : s.store.IsSound) (hown : job.address ∈ own) (c : Completion) :
    OnlyTouches [m.id] own s ((finish m job c).exec s).2 := by
  obtain ⟨t, hexec, hack⟩ := exec_finish m job c s
  rw [hexec]
  have hmove : OnlyTouches [m.id] own s
      { s with jobs := (s.jobs.finish job.jobId c s.nowSecs).2 } :=
    onlyTouches_move _ (fun r => r.sameJob_finished c s.nowSecs) hown
  exact (hmove.trans (onlyTouches_releaseLock hs hown)).trans (onlyTouches_acknowledge hack)

theorem onlyTouches_endAttempt (hs : s.store.IsSound) (hown : job.address ∈ own)
    (result : Except Error Completion) :
    OnlyTouches [m.id] own s ((endAttempt m job result).exec s).2 := by
  cases result with
  | ok c => exact onlyTouches_finish hs hown c
  | error cause =>
    have hmove : OnlyTouches [m.id] own s
        { s with jobs := (s.jobs.release job.jobId cause.message s.nowSecs).2 } :=
      onlyTouches_move _ (fun r => r.sameJob_released cause.message s.nowSecs) hown
    exact hmove.trans (onlyTouches_defer _ true)

theorem onlyTouches_taken (hown : job.address ∈ own) :
    OnlyTouches held own s (taken s job.jobId) :=
  onlyTouches_move _ (fun r => r.sameJob_claimed _ _) hown

/-! ## Courses -/

/-- The job that a course is about. -/
def jobOf? : Course → Option Job
  | .drop _ | .wait _ | .leave => none
  | .clear job _ | .giveUp job _ | .stall job _ | .call job _ _ => some job

theorem jobOf?_of_isFor {course : Course} (h : course.IsFor job) : ∀ job' ∈ jobOf? course, job' = job := by
  intro job' hjob'
  cases course with
  | drop reason => cases hjob'
  | wait secs => cases hjob'
  | leave => cases hjob'
  | clear named status => exact (Option.some.inj hjob').symm.trans h
  | giveUp named reason => exact (Option.some.inj hjob').symm.trans h
  | stall named cause => exact (Option.some.inj hjob').symm.trans h
  | call named content p => exact (Option.some.inj hjob').symm.trans h.1

/-- A course is about the job that the message tells of. -/
theorem told_of_jobOf? (h : job ∈ jobOf? (courseOf m s)) : told m s = some job.address := by
  unfold courseOf at h
  rw [told]
  split at h
  · cases h
  rename_i named hpayload
  rw [hpayload, Option.bind_some]
  split at h
  · cases h
  rename_i r hr
  rw [hr, Option.map_some]
  have hnamed : job = named := by
    split at h
    · exact (Option.some.inj h).symm
    unfold courseOfOpen at h
    split at h
    · cases h
    split at h
    · cases h
    split at h
    · exact jobOf?_of_isFor (isFor_courseOfTaken m s named) job h
    · cases h
  rw [hnamed]

/-- A platform is called for the target of the job. -/
theorem id_of_call {content : PostContent} {p : Platform} (h : courseOf m s = .call job content p) :
    p.id = job.target := by
  obtain ⟨-, -, -, -, -, -, hp⟩ := courseOf_eq_call_iff.mp h
  simpa using List.find?_some hp

/-- On each course only that is touched which belongs to its job. -/
theorem onlyTouches_follow (hs : s.store.IsSound) {course : Course}
    (hown : ∀ job ∈ jobOf? course, job.address ∈ own)
    (hid : ∀ job content p, course = .call job content p → p.id = job.target) :
    OnlyTouches [m.id] own s (follow m s course).2 := by
  cases course with
  | drop reason => exact onlyTouches_acknowledge (.inr rfl)
  | clear job status =>
    have hjob := hown job rfl
    obtain ⟨t, hexec, hack⟩ := exec_clearAway m job status s
    rw [follow, hexec]
    exact (onlyTouches_releaseLock hs hjob).trans (onlyTouches_acknowledge hack)
  | wait secs => exact onlyTouches_defer _ false
  | leave => exact .refl _ _ _
  | giveUp job reason =>
    have hjob := hown job rfl
    exact (onlyTouches_taken hjob).trans (onlyTouches_finish (s := taken s job.jobId) hs hjob _)
  | stall job cause => exact onlyTouches_taken (hown job rfl)
  | call job content p =>
    have hjob := hown job rfl
    have hcalled : OnlyTouches [m.id] own (taken s job.jobId)
        (called m (taken s job.jobId) job content p) :=
      onlyTouches_called (s := taken s job.jobId) hs hjob content (hid job content p rfl)
    exact ((onlyTouches_taken hjob).trans hcalled).trans
      (onlyTouches_endAttempt (hcalled.later.isSound hs) hjob _)

theorem uncalled_finish (hs : s.store.IsSound) (hown : job.address ∈ own) (c : Completion) :
    Uncalled own s ((finish m job c).exec s).2 := by
  obtain ⟨t, hexec, -⟩ := exec_finish m job c s
  rw [hexec]
  exact ⟨rfl, rfl, rfl, removeLock_own hs hown⟩

/-- What comes of a course without a call. -/
theorem uncalled_follow (hs : s.store.IsSound) {course : Course}
    (hown : ∀ job ∈ jobOf? course, job.address ∈ own)
    (hcall : ∀ job content p, course ≠ .call job content p) :
    Uncalled own s (follow m s course).2 := by
  have hsame : ∀ t : Service, t.sessions = s.sessions → t.windows = s.windows →
      t.platforms = s.platforms → t.store = s.store → Uncalled own s t :=
    fun t hsessions hwindows hplatforms hstore =>
      ⟨hsessions, hwindows, hplatforms, fun k => .inl (by rw [hstore])⟩
  cases course with
  | drop reason => exact hsame _ rfl rfl rfl rfl
  | clear job status =>
    obtain ⟨t, hexec, -⟩ := exec_clearAway m job status s
    rw [follow, hexec]
    exact ⟨rfl, rfl, rfl, removeLock_own hs (hown job rfl)⟩
  | wait secs => exact hsame _ rfl rfl rfl rfl
  | leave => exact hsame _ rfl rfl rfl rfl
  | giveUp job reason =>
    obtain ⟨hsessions, hwindows, hplatforms, hobjects⟩ :=
      uncalled_finish (m := m) (s := taken s job.jobId) hs (hown job rfl) (.faulted reason)
    exact ⟨hsessions, hwindows, hplatforms, hobjects⟩
  | stall job cause => exact hsame _ rfl rfl rfl rfl
  | call job content p => exact absurd rfl (hcall job content p)

/-! ## Messages -/

/-- **A message keeps to what it tells**, whatever its payload is: to the row of the job that it names and
the lock that it tells of. -/
theorem handle_keepsTo (m : Held) (s : Service) (hs : s.store.IsSound) :
    KeepsTo (told m s) m s ((handle m).exec s).2 := by
  have hown : ∀ job ∈ jobOf? (courseOf m s), job.address ∈ (told m s).toList := fun job hjob =>
    Option.mem_toList.mpr (told_of_jobOf? hjob)
  rw [exec_handle]
  constructor
  case touches => exact onlyTouches_follow hs hown fun _ _ _ h => id_of_call h
  case uncalled => exact uncalled_follow hs hown
  case called =>
    intro job content p h
    obtain ⟨-, -, -, -, -, hload, -⟩ := courseOf_eq_call_iff.mp h
    have hjob : job ∈ jobOf? (courseOf m s) := by rw [h]; rfl
    exact ⟨job.address, told_of_jobOf? hjob, rfl, id_of_call h, hload⟩

/-- **A message touches only its own job**: its row, the row of the job that it names, and the lock of that
job. The platform is handed the content of that job. The message has to agree with the record, as the lock
and the content are those that it tells of. -/
theorem handle_ownJob (m : Held) (s : Service) (hs : s.store.IsSound) (hagrees : Agrees m s) :
    KeepsTo (recorded m s) m s ((handle m).exec s).2 :=
  hagrees ▸ handle_keepsTo m s hs

/-! ### Two jobs of one post -/

/-- A service with a user who has a key. -/
@[irreducible] def empty : Service := .started {} Service.sampleKeys

/-- The service after a post of that user for two targets. -/
@[irreducible] def twoJobs : Service := ((Submission.submit Service.samplePost).exec empty).2

theorem run_submit (s : Service) (request : PostRequest)
    (calendar : ∀ t ∈ request.postAt, t.InCalendar) :
    ∃ p : Pipeline, Pipeline.Run { service := s } p ∧
      p.service = ((Submission.submit request).exec s).2 :=
  ⟨_, .single (.submit { service := s } request calendar), rfl⟩

theorem run_twoJobs : ∃ p : Pipeline, Pipeline.Run { service := empty } p ∧ p.service = twoJobs := by
  rw [twoJobs]
  exact run_submit empty Service.samplePost (by simp [Service.samplePost])

/-- The first of its jobs, with a target of one's own choice. -/
def firstJob (target : String) : Job :=
  Submission.jobFor (empty.issuer.idOf 0) "ada" (empty.issuer.idOf 1) target Service.samplePost.content none

/-- A message about that job, which was shown so often that the job is given up. -/
def aboutFirst (target : String) : Held := ⟨1, 0, 6, (firstJob target).payload, 0⟩

theorem ofPayload?_aboutFirst (target : String) :
    Job.ofPayload? (aboutFirst target).payload = some (firstJob target) := by
  refine Job.ofPayload?_payload_eq ?_
  intro t ht
  cases ht

/-- What counts of that state: the first job waits, it is within the budget and free, and so does another
job, whose lock goes if that of the target "x" is removed. -/
theorem twoJobs_spec :
    ((twoJobs.jobs.get? (firstJob "x").jobId).map fun r => (r.address, r.status.isTerminal, r.postAt)) =
        some ((firstJob "blog").address, false, none) ∧
      twoJobs.windows.check twoJobs.config.rateLimits (firstJob "x").target twoJobs.nowSecs = true ∧
      (twoJobs.jobs.claim (firstJob "x").jobId twoJobs.nowSecs (leaseNow twoJobs)).1 = true ∧
      twoJobs.settings.maxAttempts < (aboutFirst "x").dequeueCount ∧
      ∃ r ∈ twoJobs.jobs.records, r.jobId ≠ (firstJob "x").jobId ∧ r.status = .queued ∧
        (twoJobs.store.find? (lockKey r.rootId r.target)).isSome = true ∧
        ((removeLock (firstJob "x").rootId (firstJob "x").target).exec twoJobs.store).2.find?
          (lockKey r.rootId r.target) = none := by
  decide +kernel

theorem get?_twoJobs : ∃ r, twoJobs.jobs.get? (firstJob "x").jobId = some r ∧
    r.address = (firstJob "blog").address ∧ r.status.isTerminal = false ∧ r.postAt = none := by
  obtain ⟨r, hr, hfields⟩ := Option.map_eq_some_iff.mp twoJobs_spec.1
  obtain ⟨haddress, hfields⟩ := Prod.mk.inj hfields
  obtain ⟨hopen, hdue⟩ := Prod.mk.inj hfields
  exact ⟨r, hr, haddress, hopen, hdue⟩

theorem told_aboutFirst (target : String) :
    told (aboutFirst target) twoJobs = some (firstJob target).address := by
  obtain ⟨r, hr, -⟩ := get?_twoJobs
  rw [told, ofPayload?_aboutFirst, Option.bind_some]
  exact congrArg (Option.map _) hr

theorem recorded_aboutFirst (target : String) :
    recorded (aboutFirst target) twoJobs = some (firstJob "blog").address := by
  obtain ⟨r, hr, haddress, -⟩ := get?_twoJobs
  rw [recorded, ofPayload?_aboutFirst, Option.bind_some]
  exact (congrArg (Option.map _) hr).trans (congrArg some haddress)

/-- The message about the first job agrees, and touches only that job. -/
theorem handle_ownJob_first : Agrees (aboutFirst "blog") twoJobs ∧
    KeepsTo (some (firstJob "blog").address) (aboutFirst "blog") twoJobs
      ((handle (aboutFirst "blog")).exec twoJobs).2 := by
  obtain ⟨p, hrun, hp⟩ := run_twoJobs
  have hstarts : Pipeline.Starts { service := empty } := by
    rw [empty]
    exact Pipeline.starts_started {} _
  have hsound := (Pipeline.inv_run hstarts hrun).order.sound
  have hagrees : Agrees (aboutFirst "blog") twoJobs := by
    rw [Agrees, told_aboutFirst, recorded_aboutFirst]
  refine ⟨hagrees, ?_⟩
  rw [← recorded_aboutFirst "blog"]
  exact handle_ownJob _ _ (hp ▸ hsound) hagrees

/-- A job that has been tried too often is given up, if it waits and could be tried. -/
theorem courseOf_eq_giveUp {r : JobRecord} (hpayload : Job.ofPayload? m.payload = some job)
    (hr : s.jobs.get? job.jobId = some r) (hopen : r.status.isTerminal = false) (hdue : r.postAt = none)
    (hbudget : s.windows.check s.config.rateLimits job.target s.nowSecs = true)
    (hclaim : (s.jobs.claim job.jobId s.nowSecs (leaseNow s)).1 = true)
    (hspent : s.settings.maxAttempts < m.dequeueCount) :
    courseOf m s = .giveUp job "retries exhausted" := by
  simp [courseOf, courseOfOpen, courseOfTaken, hpayload, hr, hopen, hdue, hbudget, hclaim, hspent]

/-- Giving a job up removes the lock that the message tells of. -/
theorem store_giveUp (m : Held) (s : Service) (job : Job) (reason : String) :
    (follow m s (.giveUp job reason)).2.store =
      ((removeLock job.rootId job.target).exec s.store).2 := by
  obtain ⟨t, hexec, -⟩ := exec_finish m job (.faulted reason) (taken s job.jobId)
  rw [follow, hexec]
  rfl

/-- **A message that tells another target removes the lock of another job**, which waits. -/
theorem handle_otherLock : ∃ p : Pipeline, Pipeline.Run { service := empty } p ∧
    ∃ r ∈ p.service.jobs.records,
      (∀ a ∈ recorded (aboutFirst "x") p.service, r.jobId ≠ a.jobId) ∧ r.status = .queued ∧
        (p.service.store.find? (lockKey r.rootId r.target)).isSome = true ∧
        ((handle (aboutFirst "x")).exec p.service).2.store.find? (lockKey r.rootId r.target) = none := by
  obtain ⟨p, hrun, hp⟩ := run_twoJobs
  obtain ⟨-, hbudget, hclaim, hspent, r, hr, hother, hqueued, hlock, hgone⟩ := twoJobs_spec
  refine ⟨p, hrun, r, hp ▸ hr, ?_, hqueued, hp ▸ hlock, ?_⟩
  · rw [hp, recorded_aboutFirst]
    rintro a ⟨⟩
    exact hother
  · obtain ⟨r', hr', -, hopen, hdue⟩ := get?_twoJobs
    rw [hp, exec_handle, courseOf_eq_giveUp (ofPayload?_aboutFirst "x") hr' hopen hdue hbudget hclaim hspent,
      store_giveUp]
    exact hgone

/-! ## Batches -/

/-- Handling messages leaves all jobs where they belong, as the messages tell. -/
theorem OnlyTouches.told_eq (h : OnlyTouches held own s s') (m : Held) : told m s' = told m s := by
  have hconst : ∀ (t : Service) (job : Job), ((t.jobs.get? job.jobId).map fun _ => job.address) =
      ((t.jobs.get? job.jobId).map (·.address)).map fun _ => job.address := by
    intro t job
    rw [Option.map_map]
    rfl
  unfold told
  simp only [hconst, h.addresses]

/-- The addresses that the messages of a batch tell. -/
def toldBy (batch : List Held) (s : Service) : List Address := batch.flatMap fun m => (told m s).toList

/-- **A batch touches only what its messages tell**, each what it tells. -/
theorem handleAll_onlyTouches (batch : List Held) (s : Service) (hs : s.store.IsSound) :
    OnlyTouches (batch.map (·.id)) (toldBy batch s) s ((handleAll batch).exec s).2 := by
  induction batch generalizing s with
  | nil => exact .refl _ _ _
  | cons m rest ih =>
    have hfirst := (handle_keepsTo m s hs).touches
    have hrest := ih ((handle m).exec s).2 (hfirst.later.isSound hs)
    have hsame : toldBy rest ((handle m).exec s).2 = toldBy rest s :=
      List.flatMap_congr fun m' _ => congrArg Option.toList (hfirst.told_eq m')
    rw [hsame] at hrest
    have hexec : ((handleAll (m :: rest)).exec s).2 = ((handleAll rest).exec ((handle m).exec s).2).2 := by
      rw [handleAll, Effect.exec_settle_bind, Effect.exec_bind]
      rcases (handleAll rest).exec ((handle m).exec s).2 with ⟨e | others, s'⟩ <;> rfl
    rw [hexec]
    refine (hfirst.mono ?_ ?_).trans (hrest.mono ?_ ?_)
    · exact List.cons_subset_cons m.id (List.nil_subset _)
    · exact List.subset_append_left _ _
    · exact List.subset_cons_self _ _
    · exact List.subset_append_right _ _

end Footprint

/-! ## Messages of submissions -/

namespace Pipeline

open Footprint

/-- A message that carries a job with a record agrees with it. -/
theorem IsDelivery.agrees {s : Service} {m : Held} (h : IsDelivery s m) (hunique : s.jobs.HasUniqueIds) :
    Agrees m s := by
  obtain ⟨job, hpayload, r, hr, hof⟩ := h.carries
  have hfound : s.jobs.get? job.jobId = some r :=
    (JobTable.get?_eq_some_iff hunique).mpr ⟨hr, hof.jobId.symm⟩
  rw [Agrees, told, recorded, hpayload, Option.bind_some, Option.bind_some, hfound, Option.map_some,
    Option.map_some, hof.address_eq]

/-- **Messages of submissions touch only their own job.** After any run from an empty service, each message
of the delivery queue that is held agrees with the record of its job, so handling it leaves alone the row,
the lock and the content of every other job. -/
theorem run_ownJob {start p : Pipeline} (hstart : Starts start) (hrun : Run start p) {m : Held}
    (held : m ∈ p.deliveries) :
    KeepsTo (recorded m p.service) m p.service ((handle m).exec p.service).2 ∧
      ∀ r ∈ p.service.jobs.records, (∀ a ∈ recorded m p.service, r.jobId ≠ a.jobId) →
        ((handle m).exec p.service).2.store.find? (lockKey r.rootId r.target) =
          p.service.store.find? (lockKey r.rootId r.target) := by
  have hinv := inv_run hstart hrun
  have ho := hinv.order
  have hkeeps := handle_ownJob m p.service ho.sound ((hinv.deliveries m held).agrees ho.records.unique)
  refine ⟨hkeeps, fun r hr hother => ?_⟩
  rcases hkeeps.touches.bundles _ (startsWith_bundleStart _ _) with hsame | ⟨-, a, ha, hlock⟩
  · exact hsame
  -- two jobs have two locks
  have ha : a ∈ recorded m p.service := Option.mem_toList.mp ha
  obtain ⟨job, -, hrecord⟩ := Option.bind_eq_some_iff.mp ha
  obtain ⟨r', hr', rfl⟩ := Option.map_eq_some_iff.mp hrecord
  have hmem := (JobTable.mem_of_get? hr').1
  obtain ⟨hroot, htarget⟩ :=
    (lockKey_inj (ho.records.isName hr).1 (ho.records.target r hr)).mp hlock.symm
  exact absurd (ho.records.place r hr r' hmem hroot htarget).symm (hother _ ha)

end Pipeline
end Syndication
