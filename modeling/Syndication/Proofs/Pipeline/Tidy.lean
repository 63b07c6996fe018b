import Syndication.Proofs.Pipeline.Run
import Syndication.Proofs.Submission.Frame
import Syndication.Proofs.Worker.Own

/-!
# Proofs.Pipeline.Tidy — what is tidy stays tidy, however the store fails

The registry of sessions is in order, every object can be reached, and directories stand in directories.
So it stays, whatever programs do and wherever the store is out of order. A store keeps taking the names
that it took; messages get numbers that no message had; and what comes into the delivery queue carries
a job that was locked before, so the store takes the name of its lock.

## Contents
* `ObjectStore.Keeps`, `keeps_sweep`            — steps on the store
* `Carries`                                     — payloads with a job that was locked
* `Proceeds`, `Service.Keeps`                   — steps on the service
* `keeps_submit`, `keeps_consider`, `keeps_handleBy`, `keeps_maintain`
-/

namespace Syndication

open Effect Staging

/-! ## Steps on the store -/

namespace ObjectStore

/-- A tidy store stays tidy, and takes the names that it took. -/
def Keeps (s t : ObjectStore) : Prop := s.IsTidy → t.IsTidy ∧ ∀ k, s.Takes k → t.Takes k

variable {α : Type} {e : Effect ObjectStore α}

theorem Keeps.refl (s : ObjectStore) : Keeps s s := fun hs => ⟨hs, fun _ => id⟩

theorem Keeps.trans ⦃s t u : ObjectStore⦄ (h : Keeps s t) (h' : Keeps t u) : Keeps s u := by
  intro hs
  obtain ⟨ht, htakes⟩ := h hs
  obtain ⟨hu, htakes'⟩ := h' ht
  exact ⟨hu, fun k hk => htakes' k (htakes k hk)⟩

theorem Keeps.of_onlyAt {s t : ObjectStore} {keys : List String} (h : s.IsTidy → OnlyAt keys s t) :
    Keeps s t :=
  fun hs => ⟨(h hs).tidy hs, fun k => ((h hs).takes k).mpr⟩

theorem keeps_of_readOnly (h : ReadOnly e) : Leads Keeps e := by
  intro s
  rw [h s]
  exact .refl s

theorem keeps_put (key : String) (data : Bytes) : Leads Keeps (ObjectStore.put key data) :=
  fun _ => .of_onlyAt fun hs => onlyAt_put hs key data

theorem keeps_delete (key : String) : Leads Keeps (ObjectStore.delete key) :=
  fun _ => .of_onlyAt fun hs => onlyAt_delete hs key

theorem keeps_list (start : String) : Leads Keeps (ObjectStore.list start) :=
  keeps_of_readOnly fun _ => list_snd

theorem keeps_checkRoot (root : String) : Leads Keeps (liftM (checkRoot root) : Effect ObjectStore Unit) :=
  keeps_of_readOnly (.liftM _)

theorem keeps_createLock (root target jobId : String) : Leads Keeps (createLock root target jobId) :=
  (keeps_checkRoot root).bind .trans fun _ => keeps_put _ _

theorem keeps_removeLock (root target : String) : Leads Keeps (removeLock root target) :=
  (keeps_checkRoot root).bind .trans fun _ => keeps_delete _

theorem keeps_stage (root : String) (c : PostContent) : Leads Keeps (stage root c) := by
  refine (keeps_checkRoot root).bind .trans fun _ => ?_
  induction parts c with
  | nil => exact .refl
  | cons p rest ih => exact (keeps_put _ _).bind .trans fun _ => ih

theorem keeps_deleteAll (keys : List String) : Leads Keeps (deleteAll keys) := by
  induction keys with
  | nil => exact .refl
  | cons key rest ih =>
    refine (keeps_delete key).bind .trans fun found => ?_
    exact ih.bind .trans fun _ => .refl

theorem keeps_collect (root : String) : Leads Keeps (collect root) := by
  refine (keeps_checkRoot root).bind .trans fun _ => ?_
  refine (keeps_list _).bind .trans fun keys => ?_
  split
  · exact .refl
  simp only
  split
  · exact .refl
  · exact (keeps_deleteAll keys).bind .trans fun _ => .refl

theorem keeps_sweep : Leads Keeps sweep := by
  have hroots : ∀ (roots : List String) (r : SweepReport), Leads Keeps (sweepRoots r roots) := by
    intro roots
    induction roots with
    | nil => exact fun _ => .refl
    | cons root rest ih => exact fun r => (keeps_collect root).settle.bind .trans fun _ => ih _
  have hbundles : Leads Keeps bundles := (keeps_list _).bind .trans fun _ => .refl
  exact hbundles.bind .trans fun roots => hroots roots {}

end ObjectStore

/-! ## Steps on the service -/

/-- The payload carries a job whose objects have places of their own, and the store takes the name of its
lock. -/
def Carries (st : ObjectStore) (payload : String) : Prop :=
  ∃ job, Job.ofPayload? payload = some job ∧ Worker.IsPlaced job ∧
    st.Takes (lockKey job.rootId job.target)

theorem Carries.mono {st st' : ObjectStore} {payload : String} (h : Carries st payload)
    (htakes : ∀ k, st.Takes k → st'.Takes k) : Carries st' payload := by
  obtain ⟨job, hjob, hplaced, hlock⟩ := h
  exact ⟨job, hjob, hplaced, htakes _ hlock⟩

namespace Service

/-- What a service comes to. Sessions and objects are tidy, names are taken as before, and each message
is an earlier one or has a new number. What is new in the delivery queue carries a job that was locked. -/
structure Proceeds (s t : Service) : Prop where
  tidy : Session.IsTidy t.sessionWorld
  takes : ∀ k, s.store.Takes k → t.store.Takes k
  numbered : s.messages.WellNumbered → t.messages.WellNumbered
  nextId : s.messages.nextId ≤ t.messages.nextId
  letters : ∀ m' ∈ t.messages.messages, (∃ m ∈ s.messages.messages, m.letter = m'.letter) ∨
    (s.messages.nextId ≤ m'.id ∧ (m'.queue = MessageTable.deliveryQueue → Carries t.store m'.payload))

/-- A tidy service proceeds. -/
def Keeps (s t : Service) : Prop := Session.IsTidy s.sessionWorld → Proceeds s t

variable {α : Type} {s t : Service} {e : Effect ObjectStore α}

theorem Proceeds.trans {u : Service} (h : Proceeds s t) (h' : Proceeds t u) : Proceeds s u where
  tidy := h'.tidy
  takes := fun k hk => h'.takes k (h.takes k hk)
  numbered := h'.numbered ∘ h.numbered
  nextId := Nat.le_trans h.nextId h'.nextId
  letters := by
    intro m'' hm''
    rcases h'.letters m'' hm'' with ⟨m', hm', hletter⟩ | ⟨hnew, hcarries⟩
    · have hid : m'.id = m''.id := congrArg Letter.id hletter
      have hqueue : m'.queue = m''.queue := congrArg Letter.queue hletter
      have hpayload : m'.payload = m''.payload := congrArg Letter.payload hletter
      rcases h.letters m' hm' with ⟨m, hm, heq⟩ | ⟨hnew, hcarries⟩
      · exact .inl ⟨m, hm, heq.trans hletter⟩
      · refine .inr ⟨hid ▸ hnew, fun hdelivery => ?_⟩
        exact hpayload ▸ (hcarries (hqueue.trans hdelivery)).mono h'.takes
    · exact .inr ⟨Nat.le_trans h.nextId hnew, hcarries⟩

theorem Keeps.trans ⦃s t u : Service⦄ (h : Keeps s t) (h' : Keeps t u) : Keeps s u :=
  fun hs => (h hs).trans (h' (h hs).tidy)

/-- No message is added, and sessions are not touched. -/
theorem Keeps.of_letters (hsessions : t.sessions = s.sessions)
    (hstore : ObjectStore.Keeps s.store t.store)
    (hnumbered : s.messages.WellNumbered → t.messages.WellNumbered)
    (hnext : t.messages.nextId = s.messages.nextId)
    (hletters : ∀ m' ∈ t.messages.messages, ∃ m ∈ s.messages.messages, m.letter = m'.letter) :
    Keeps s t := by
  intro hs
  obtain ⟨htidy, htakes⟩ := hstore hs.store
  refine ⟨⟨?_, htidy⟩, htakes, hnumbered, Nat.le_of_eq hnext.symm, fun m' hm' => .inl (hletters m' hm')⟩
  show Session.Consistent t.sessions
  rw [hsessions]
  exact hs.registry

theorem Keeps.of_store (hsessions : t.sessions = s.sessions) (hmessages : t.messages = s.messages)
    (hstore : ObjectStore.Keeps s.store t.store) : Keeps s t :=
  .of_letters hsessions hstore (by rw [hmessages]; exact id) (by rw [hmessages])
    fun m hm => ⟨m, hmessages ▸ hm, rfl⟩

/-- Neither messages nor sessions nor objects are touched. -/
theorem Keeps.of_eq (hsessions : t.sessions = s.sessions) (hmessages : t.messages = s.messages)
    (hstore : t.store = s.store) : Keeps s t :=
  .of_store hsessions hmessages (hstore ▸ .refl _)

theorem Keeps.refl (s : Service) : Keeps s s := .of_eq rfl rfl rfl

/-- Messages are taken or deferred. -/
theorem Keeps.of_sameLetters (hsessions : t.sessions = s.sessions) (hstore : t.store = s.store)
    (h : s.messages.SameLetters t.messages) : Keeps s t :=
  .of_letters hsessions (hstore ▸ .refl _) (fun hn => hn.sameLetters h) h.nextId
    fun _ hm' => h.exists_mem hm'

/-- A message is deleted, or stays. -/
theorem Keeps.of_mayAcknowledge {m : Held} (hsessions : t.sessions = s.sessions)
    (hstore : t.store = s.store) (h : Worker.MayAcknowledge m s.messages t.messages) : Keeps s t :=
  .of_letters hsessions (hstore ▸ .refl _) h.wellNumbered h.nextId fun m' hm' => ⟨m', h.mem hm', rfl⟩

/-- A message is put on a queue. -/
theorem keeps_enqueued (s : Service) (queue payload : String) (delay : Span)
    (hcarries : queue = MessageTable.deliveryQueue → Carries s.store payload) :
    Keeps s { s with messages := (s.messages.enqueue queue payload s.now delay).2 } := by
  intro hs
  refine ⟨hs, fun _ => id, fun hn => hn.enqueue _ _ _ _, Nat.le_succ _, ?_⟩
  intro m hm
  rcases List.mem_append.mp hm with hold | hnew
  · exact .inl ⟨m, hold, rfl⟩
  · rw [List.mem_singleton.mp hnew]
    exact .inr ⟨Nat.le_refl _, hcarries⟩

theorem keeps_get : Leads Keeps (get : Effect Service Service) := .refl

theorem keeps_changeJobs (f : JobTable → α × JobTable) : Leads Keeps (changeJobs f) :=
  fun _ => .of_eq rfl rfl rfl

theorem keeps_acknowledge (m : Held) : Leads Keeps (acknowledge m) :=
  fun _ => .of_mayAcknowledge (m := m) rfl rfl (.inr rfl)

theorem keeps_defer (m : Held) (delay : Span) (counts : Bool) : Leads Keeps (defer m delay counts) :=
  fun _ => .of_sameLetters rfl rfl (MessageTable.sameLetters_defer _ _ _ _)

theorem keeps_dequeue (queue : String) (max : Nat) (hideFor : Span) :
    Leads Keeps (dequeue queue max hideFor) :=
  fun _ => .of_sameLetters rfl rfl (MessageTable.sameLetters_dequeue _ _ _ _)

theorem keeps_onStore (h : Leads ObjectStore.Keeps e) : Leads Keeps (onStore e) :=
  fun s => .of_store rfl rfl (h s.store)

end Service

open Service

namespace Submission

variable {root : String} {jobs : List Job} {postAt : Option Instant} {content : PostContent}

theorem keeps_stageAll (root : String) (jobs : List Job) (content : PostContent) :
    Leads Keeps (stageAll root jobs content) := by
  have hlocks : Leads Keeps (lockAll jobs) := by
    induction jobs with
    | nil => exact .refl
    | cons job rest ih =>
      exact (keeps_onStore (ObjectStore.keeps_createLock _ _ _)).bind .trans fun _ => ih
  exact hlocks.bind .trans fun _ => keeps_onStore (ObjectStore.keeps_stage _ _)

theorem keeps_releaseLocks (jobs : List Job) : Leads Keeps (releaseLocks jobs) := by
  induction jobs with
  | nil => exact .refl
  | cons job rest ih =>
    exact (keeps_onStore (ObjectStore.keeps_removeLock _ _)).settle.bind .trans fun _ => ih

/-- Once the bundle was locked, the payloads of its jobs may be put on the queue. -/
theorem carries_payloads {s t : Service} (h : (stageAll root jobs content).exec s = (.ok (), t))
    (hs : s.store.IsSound) (hbatch : Batch root jobs) (hcal : ∀ job ∈ jobs, job.InCalendar) :
    ∀ job ∈ jobs, Carries t.store job.payload := by
  obtain ⟨-, hlater, -, hmade, -⟩ := stageAll_spec hs hbatch h
  obtain ⟨-, hlocked⟩ := hmade rfl
  intro job hjob
  obtain ⟨read, hread⟩ := Job.ofPayload?_payload (hcal job hjob)
  have hroot := hbatch.rootId job hjob
  have hplaced : Worker.IsPlaced { job with postAt := read } :=
    ⟨hroot.symm ▸ hbatch.isName, hbatch.target job hjob⟩
  refine ⟨_, hread, hplaced, ?_⟩
  show t.store.Takes (lockKey job.rootId job.target)
  rw [hroot]
  exact (hlater.isSound hs).takes (hlocked job hjob)

theorem keeps_enqueueJob {job : Job} (delay : Span) {s : Service} (h : Carries s.store job.payload) :
    Keeps s ((enqueueJob job delay).exec s).2 := by
  rw [exec_enqueueJob]
  rcases (JobTable.insert (.queued job s.nowSecs)).exec s.jobs with ⟨e | u, t⟩
  · exact .of_eq rfl rfl rfl
  · simp only [mailOne]
    split
    · exact .of_eq rfl rfl rfl
    · have hrecorded : Keeps s { s with jobs := t } := .of_eq rfl rfl rfl
      exact hrecorded.trans (keeps_enqueued { s with jobs := t } MessageTable.deliveryQueue job.payload
        delay fun _ => h)

theorem keeps_abandon (job : Job) (cause : Error) : Leads Keeps (abandon job cause) :=
  fun s => .of_store rfl rfl (ObjectStore.keeps_removeLock job.rootId job.target s.store)

theorem keeps_queueJob {job : Job} (delay : Span) {s : Service} (h : Carries s.store job.payload) :
    Keeps s ((queueJob delay job).exec s).2 := by
  have henqueue := keeps_enqueueJob delay h
  rw [queueJob, exec_settle_bind]
  rcases hexec : (enqueueJob job delay).exec s with ⟨cause | u, t⟩ <;> rw [hexec] at henqueue
  · exact henqueue.trans (keeps_abandon job cause t)
  · exact henqueue

theorem keeps_queueJobs (delay : Span) {s : Service} (h : ∀ job ∈ jobs, Carries s.store job.payload) :
    Keeps s ((queueJobs delay jobs).exec s).2 := by
  induction jobs generalizing s with
  | nil => exact .refl s
  | cons job rest ih =>
    intro hs
    have hfirst := keeps_queueJob delay (h job List.mem_cons_self) hs
    rw [queueJobs, exec_bind]
    rcases hexec : (queueJob delay job).exec s with ⟨cause | outcome, t⟩ <;> rw [hexec] at hfirst
    · exact hfirst
    · have hrest := ih fun job' hjob' => (h job' (List.mem_cons_of_mem _ hjob')).mono hfirst.takes
      refine hfirst.trans ?_
      simp only [exec_bind]
      rcases hexec' : (queueJobs delay rest).exec t with ⟨cause | outcomes, u⟩ <;> rw [hexec'] at hrest <;>
        exact hrest hfirst.tidy

theorem keeps_afterStaging (root : String) (postAt : Option Instant) {r : Except Error Unit} {s : Service}
    (h : r = .ok () → ∀ job ∈ jobs, Carries s.store job.payload) :
    Keeps s ((afterStaging root jobs postAt r).exec s).2 := by
  cases r with
  | error e =>
    have hrelease : Leads Keeps (afterStaging root jobs postAt (.error e)) :=
      (keeps_releaseLocks jobs).bind .trans fun _ => .refl
    exact hrelease s
  | ok u =>
    have hqueue := keeps_queueJobs (visibilityDelay postAt s.nowInstant) (h rfl)
    rw [afterStaging, exec_bind_ok (exec_get s), exec_bind]
    rcases hexec : (queueJobs (visibilityDelay postAt s.nowInstant) jobs).exec s with ⟨e | outcomes, t⟩ <;>
      rw [hexec] at hqueue
    · exact hqueue
    · simp only
      split <;> exact hqueue

theorem keeps_fanOut (userId : String) {targets : List String} (nodup : targets.Nodup)
    (safe : ∀ target ∈ targets, isPathSafe target = true) (content : PostContent)
    (hcal : ∀ t ∈ postAt, t.InCalendar) : Leads Keeps (fanOut userId targets content postAt) := by
  intro s hs
  have hbatch : Batch (rootOf s) (jobsOf s userId targets content postAt) := batch_jobsFrom nodup safe
  have hcalendar : ∀ job ∈ jobsOf s userId targets content postAt, job.InCalendar := by
    intro job hjob
    obtain ⟨n, -, -, -, hn⟩ := mem_jobsFrom hjob
    rw [hn]
    exact hcal
  rcases hstage : (stageAll (rootOf s) (jobsOf s userId targets content postAt) content).exec
    { s with issuer := issuerAfter s targets.length } with ⟨r, t⟩
  have hstaged := keeps_stageAll (rootOf s) (jobsOf s userId targets content postAt) content
    { s with issuer := issuerAfter s targets.length } hs
  rw [hstage] at hstaged
  rw [exec_fanOut s userId targets content postAt hstage]
  have hcarries : r = .ok () → ∀ job ∈ jobsOf s userId targets content postAt,
      Carries t.store job.payload := by
    rintro rfl
    exact carries_payloads hstage hs.store.isSound hbatch hcalendar
  have hissued : Proceeds s { s with issuer := issuerAfter s targets.length } :=
    Keeps.of_eq (t := { s with issuer := issuerAfter s targets.length }) rfl rfl rfl hs
  exact hissued.trans (hstaged.trans (keeps_afterStaging _ postAt hcarries hstaged.tidy))

theorem keeps_submit (request : PostRequest) (hcal : ∀ t ∈ request.postAt, t.InCalendar) :
    Leads Keeps (submit request) := by
  intro s
  rw [exec_submit]
  split
  · exact .refl s
  split
  · exact .refl s
  · rename_i hvalid
    obtain ⟨-, hsafe, hnodup, -⟩ := (validate_eq_ok_iff _ _).mp hvalid
    exact keeps_fanOut _ hnodup hsafe _ hcal s

theorem keeps_submitForUser (userId : String) (targets : List String) (content : PostContent)
    (hcal : ∀ t ∈ postAt, t.InCalendar) : Leads Keeps (submitForUser userId targets content postAt) := by
  intro s
  rw [exec_submitForUser]
  split
  · exact .refl s
  split
  · exact .refl s
  · rename_i hvalid _
    obtain ⟨-, hsafe, hnodup, -⟩ := (validate_eq_ok_iff _ _).mp hvalid
    exact keeps_fanOut userId hnodup hsafe content hcal s

end Submission

theorem Firing.keeps_consider (e : TriggerEvent) (userId : String) (t : Trigger) :
    Leads Keeps (consider e userId t) := by
  intro s
  by_cases hold : s.ledger.HasFired (keyOf e userId t)
  case pos =>
    rw [exec_consider_old hold]
    exact .refl s
  case neg =>
    have hfire : Leads Keeps (fire t e) := by
      intro s
      rw [exec_fire]
      split
      · exact .refl s
      · exact Submission.keeps_submitForUser _ _ _ (by simp) s
    have hreadied : Keeps s (readied e userId t s) := .of_eq rfl rfl rfl
    have hfired := hreadied.trans (hfire (readied e userId t s))
    rw [exec_consider_new hold]
    split
    · exact .of_eq rfl rfl rfl
    rcases hexec : (fire t e).exec (readied e userId t s) with ⟨cause | u, after⟩ <;>
      rw [hexec] at hfired
    · exact hfired.trans (.of_eq rfl rfl rfl)
    · exact hfired

namespace Worker

variable {own : String → String} {deliver : Deliver}

theorem keeps_releaseLock (job : Job) : Leads Keeps (releaseLock job) :=
  (keeps_onStore (ObjectStore.keeps_removeLock _ _)).bind .trans fun _ => .refl

theorem keeps_clearAway (m : Held) (job : Job) (status : JobStatus) :
    Leads Keeps (clearAway m job status) := by
  refine (keeps_releaseLock job).bind .trans fun _ => ?_
  exact (keeps_acknowledge m).bind .trans fun _ => .refl

theorem keeps_finish (m : Held) (job : Job) (c : Completion) : Leads Keeps (finish m job c) := by
  refine keeps_get.bind .trans fun s => ?_
  refine (keeps_changeJobs _).bind .trans fun _ => ?_
  refine (keeps_releaseLock job).bind .trans fun _ => ?_
  exact (keeps_acknowledge m).bind .trans fun _ => .refl

theorem keeps_takeJob (job : Job) : Leads Keeps (takeJob job) := by
  refine keeps_get.bind .trans fun s => ?_
  exact (keeps_changeJobs _).bind .trans fun _ => .refl

theorem keeps_countCall (job : Job) : Leads Keeps (countCall job) :=
  keeps_get.bind .trans fun _ _ => .of_eq rfl rfl rfl

/-- A local platform leaves sessions and objects tidy. -/
theorem keeps_callBy (hlocal : IsLocal own deliver) (p : Platform) (d : Delivery) :
    Leads Keeps (callBy deliver p d) := by
  intro s hs
  have honly := hlocal.only p d s.settings.deliveryTimeout hs
  exact ⟨honly.tidy hs, fun k => (honly.store.takes k).mpr, id, Nat.le_refl _, fun m hm => .inl ⟨m, hm, rfl⟩⟩

theorem keeps_endCall (m : Held) (job : Job) (result : DeliveryResult) :
    Leads Keeps (endCall m job result) := by
  refine keeps_get.bind .trans fun s => ?_
  cases ending m s result with
  | ok c => exact keeps_finish m job c
  | error cause =>
    refine keeps_get.bind .trans fun s => ?_
    refine (keeps_changeJobs _).bind .trans fun _ => ?_
    exact (keeps_defer m _ true).bind .trans fun _ => .refl

theorem keeps_followBy (hlocal : IsLocal own deliver) (m : Held) (course : Course) :
    Leads Keeps (followBy deliver m course) := by
  cases course with
  | drop reason => exact (keeps_acknowledge m).bind .trans fun _ => .refl
  | clear job status => exact keeps_clearAway m job status
  | wait secs => exact (keeps_defer m _ false).bind .trans fun _ => .refl
  | leave => exact .refl
  | giveUp job reason => exact (keeps_takeJob job).bind .trans fun _ => keeps_finish m job _
  | stall job cause => exact (keeps_takeJob job).bind .trans fun _ => .refl
  | call job content p =>
    refine (keeps_takeJob job).bind .trans fun _ => ?_
    refine (keeps_countCall job).bind .trans fun _ => ?_
    exact (keeps_callBy hlocal p _).bind .trans fun result => keeps_endCall m job result

theorem keeps_handleBy (hlocal : IsLocal own deliver) (m : Held) : Leads Keeps (handleBy deliver m) :=
  keeps_get.bind .trans fun _ => keeps_followBy hlocal m _

theorem keeps_handle (m : Held) : Leads Keeps (handle m) :=
  handleBy_deliver m ▸ keeps_handleBy Platform.isLocal_deliver m

end Worker

theorem Maintenance.keeps_maintain (retention : Span) : Leads Keeps (maintain retention) := by
  refine keeps_get.bind .trans fun now => ?_
  refine (keeps_onStore ObjectStore.keeps_sweep).bind .trans fun bundles => ?_
  exact fun s => .of_eq rfl rfl rfl

end Syndication
