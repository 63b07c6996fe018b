import Syndication.Proofs.Submission.FanOut

/-!
# Proofs.Submission.Frame — what a submission does to any service

What becomes of a post is told elsewhere for services with fresh identifiers and a store that deletes.
Two things hold of every service, however its store fails and whatever identifiers are in use. A
relation that each single effect of a submission respects is respected by the whole; and the messages
that a submission adds are as many as the jobs that it tells to be queued.

## Contents
* `OnlyStore`                                    — steps on the bundle
* `Respects`, `leads_submit`, `leads_submitForUser`
* `Mailed`, `queuedIn`, `mailed_submitForUser`
-/

namespace Syndication.Submission

open Effect Staging

/-! ## Steps on the bundle -/

/-- Nothing but the store may differ. -/
def OnlyStore (s s' : Service) : Prop := s' = { s with store := s'.store }

theorem OnlyStore.trans ⦃s t u : Service⦄ (h : OnlyStore s t) (h' : OnlyStore t u) :
    OnlyStore s u := by
  rw [OnlyStore] at *
  rw [h', h]

theorem OnlyStore.messages {s s' : Service} (h : OnlyStore s s') : s'.messages = s.messages := by
  rw [h]

theorem onlyStore_onStore {α : Type} (m : Effect ObjectStore α) :
    Leads OnlyStore (Service.onStore m) := fun _ => rfl

theorem onlyStore_lockAll (jobs : List Job) : Leads OnlyStore (lockAll jobs) := by
  induction jobs with
  | nil => exact fun _ => rfl
  | cons job jobs ih => exact (onlyStore_onStore _).bind .trans fun _ => ih

theorem onlyStore_stageAll (rootId : String) (jobs : List Job) (content : PostContent) :
    Leads OnlyStore (stageAll rootId jobs content) :=
  (onlyStore_lockAll jobs).bind .trans fun _ => onlyStore_onStore _

theorem onlyStore_releaseLocks (jobs : List Job) : Leads OnlyStore (releaseLocks jobs) := by
  induction jobs with
  | nil => exact fun _ => rfl
  | cons job jobs ih =>
    have hremove : Leads OnlyStore (Service.onStore (removeLock job.rootId job.target)).settle :=
      (onlyStore_onStore _).settle
    exact hremove.bind .trans fun _ => ih

/-! ## One target -/

/-- The record comes first; it stays if the message is refused. -/
theorem exec_enqueueJob (job : Job) (delay : Span) (s : Service) :
    (enqueueJob job delay).exec s =
      match (JobTable.insert (.queued job s.nowSecs)).exec s.jobs with
      | (.error e, t) => (.error e, { s with jobs := t })
      | (.ok _, t) => (if refused s job then .error Service.queueUnavailable else .ok (),
          { s with jobs := t, messages := mailOne s delay s.messages job }) := by
  rw [enqueueJob, exec_bind_ok (exec_get s), exec_bind, Service.exec_onJobs]
  rcases (JobTable.insert (.queued job s.nowSecs)).exec s.jobs with ⟨e | u, t⟩
  · rfl
  · simp only [exec_bind, Service.exec_enqueue, refused, mailOne]
    by_cases hrefused : s.refuses MessageTable.deliveryQueue job.payload = true
    · simp only [hrefused, if_true]
    · simp only [hrefused]
      rfl

/-! ## Relations that every effect respects -/

/-- A relation between services that every effect of a submission for this instant respects. -/
structure Respects (R : Service → Service → Prop) (postAt : Option Instant) : Prop where
  trans : ∀ ⦃s t u : Service⦄, R s t → R t u → R s u
  store : ∀ (s : Service) (st : ObjectStore), R s { s with store := st }
  issuer : ∀ (s : Service) (issuer : Issuer), R s { s with issuer := issuer }
  record : ∀ (s : Service) (job : Job), job.postAt = postAt →
    R s { s with jobs := ((JobTable.insert (.queued job s.nowSecs)).exec s.jobs).2 }
  giveUp : ∀ (s : Service) (jobId error : String),
    R s { s with jobs := (s.jobs.finish jobId (.faulted error) s.nowSecs).2 }
  mail : ∀ (s : Service) (payload : String) (delay : Span), R s { s with
    messages := (s.messages.enqueue MessageTable.deliveryQueue payload s.now delay).2 }

section Respects

variable {R : Service → Service → Prop} {postAt : Option Instant} (h : Respects R postAt)
include h

theorem Respects.refl (s : Service) : R s s := h.store s s.store

theorem Respects.of_onlyStore {s s' : Service} (hs : OnlyStore s s') : R s s' := by
  rw [hs]
  exact h.store s s'.store

theorem leads_enqueueJob {job : Job} (hjob : job.postAt = postAt) (delay : Span) :
    Leads R (enqueueJob job delay) := by
  intro s
  have hrecord := h.record s job hjob
  rw [exec_enqueueJob]
  rcases hinsert : (JobTable.insert (.queued job s.nowSecs)).exec s.jobs with ⟨e | u, t⟩
  · rwa [hinsert] at hrecord
  · rw [hinsert] at hrecord
    simp only [mailOne]
    split
    · exact hrecord
    · exact h.trans hrecord (h.mail { s with jobs := t } job.payload delay)

theorem leads_abandon (job : Job) (cause : Error) : Leads R (abandon job cause) := by
  intro s
  exact h.trans (h.giveUp s job.jobId _) (h.store _ _)

theorem leads_queueJob {job : Job} (hjob : job.postAt = postAt) (delay : Span) :
    Leads R (queueJob delay job) := by
  apply (leads_enqueueJob h hjob delay).settle.bind h.trans
  rintro (cause | u)
  · exact (leads_abandon h job cause).bind h.trans fun _ s => h.refl s
  · exact fun s => h.refl s

theorem leads_queueJobs {jobs : List Job} (hjobs : ∀ job ∈ jobs, job.postAt = postAt) (delay : Span) :
    Leads R (queueJobs delay jobs) := by
  induction jobs with
  | nil => exact fun s => h.refl s
  | cons job jobs ih =>
    rw [List.forall_mem_cons] at hjobs
    apply (leads_queueJob h hjobs.1 delay).bind h.trans
    intro outcome
    exact (ih hjobs.2).bind h.trans fun _ s => h.refl s

theorem leads_afterStaging {jobs : List Job} (hjobs : ∀ job ∈ jobs, job.postAt = postAt) (root : String)
    (staged : Except Error Unit) : Leads R (afterStaging root jobs postAt staged) := by
  cases staged with
  | error e =>
    have hrelease : Leads R (releaseLocks jobs) := fun s => h.of_onlyStore (onlyStore_releaseLocks jobs s)
    exact hrelease.bind h.trans fun _ s => h.refl s
  | ok u =>
    have hget : Leads R (get : Effect Service Service) := fun s => h.refl s
    apply hget.bind h.trans
    intro now
    apply (leads_queueJobs h hjobs _).bind h.trans
    intro outcomes s
    simp only
    split <;> exact h.refl s

/-- **A submission respects** what each of its effects respects. -/
theorem leads_fanOut (userId : String) (targets : List String) (content : PostContent) :
    Leads R (fanOut userId targets content postAt) := by
  intro s
  have hjobs : ∀ job ∈ jobsOf s userId targets content postAt, job.postAt = postAt := by
    intro job hjob
    obtain ⟨n, -, -, -, hn⟩ := mem_jobsFrom hjob
    rw [hn]
    rfl
  rcases hstage : (stageAll (rootOf s) (jobsOf s userId targets content postAt) content).exec
    { s with issuer := issuerAfter s targets.length } with ⟨r, t⟩
  have honly := onlyStore_stageAll (rootOf s) (jobsOf s userId targets content postAt) content
    { s with issuer := issuerAfter s targets.length }
  rw [hstage] at honly
  rw [exec_fanOut s userId targets content postAt hstage]
  exact h.trans (h.issuer s _) (h.trans (h.of_onlyStore honly) (leads_afterStaging h hjobs _ r t))

theorem leads_submitForUser (userId : String) (targets : List String) (content : PostContent) :
    Leads R (submitForUser userId targets content postAt) := by
  intro s
  rw [exec_submitForUser]
  split
  · exact h.refl s
  split
  · exact h.refl s
  · exact leads_fanOut h userId targets content s

end Respects

theorem leads_submit {R : Service → Service → Prop} {request : PostRequest}
    (h : Respects R request.postAt) : Leads R (submit request) := by
  intro s
  rw [exec_submit]
  split
  · exact h.refl s
  split
  · exact h.refl s
  · exact leads_fanOut h _ _ _ s

/-! ## Messages -/

/-- So many messages of the delivery queue were added behind those there were. -/
def Mailed (n : Nat) (s s' : Service) : Prop :=
  ∃ new, s'.messages.messages = s.messages.messages ++ new ∧ new.length = n ∧
    ∀ m ∈ new, m.queue = MessageTable.deliveryQueue

theorem Mailed.nothing {s s' : Service} (h : s'.messages = s.messages) : Mailed 0 s s' :=
  ⟨[], by rw [h, List.append_nil], rfl, by simp⟩

theorem Mailed.trans {k n : Nat} {s t u : Service} (h : Mailed k s t) (h' : Mailed n t u) :
    Mailed (k + n) s u := by
  obtain ⟨new, hnew, hlength, hqueue⟩ := h
  obtain ⟨new', hnew', hlength', hqueue'⟩ := h'
  refine ⟨new ++ new', by rw [hnew', hnew, List.append_assoc], ?_, ?_⟩
  · rw [List.length_append, hlength, hlength']
  · intro m hm
    exact (List.mem_append.mp hm).elim (hqueue m) (hqueue' m)

/-- The message of a job is added, or the job is not queued. -/
theorem mailed_enqueueJob (job : Job) (delay : Span) (s : Service) :
    Mailed (if ((enqueueJob job delay).exec s).1.isOk then 1 else 0) s
      ((enqueueJob job delay).exec s).2 := by
  rw [exec_enqueueJob]
  rcases (JobTable.insert (.queued job s.nowSecs)).exec s.jobs with ⟨e | u, t⟩
  · exact .nothing rfl
  · by_cases hrefused : refused s job = true
    · simp only [mailOne, hrefused, if_true]
      exact .nothing rfl
    · simp only [mailOne, hrefused]
      exact ⟨_, rfl, rfl, by simp⟩

/-- A target is told to be queued exactly when its message was added. -/
theorem mailed_queueJob (delay : Span) (job : Job) (s : Service) :
    ∃ o s', (queueJob delay job).exec s = (.ok o, s') ∧ Mailed (if o.enqueued then 1 else 0) s s' := by
  have hmailed := mailed_enqueueJob job delay s
  rw [queueJob, exec_settle_bind]
  rcases henqueue : (enqueueJob job delay).exec s with ⟨cause | u, t⟩
  · rw [henqueue] at hmailed
    -- giving the job up touches its record and its lock only
    exact ⟨_, ((abandon job cause).exec t).2, rfl, hmailed.trans (k := 0) (n := 0) (.nothing rfl)⟩
  · rw [henqueue] at hmailed
    exact ⟨_, t, rfl, hmailed⟩

theorem mailed_queueJobs (delay : Span) (jobs : List Job) (s : Service) :
    ∃ outcomes s', (queueJobs delay jobs).exec s = (.ok outcomes, s') ∧
      outcomes.length = jobs.length ∧ Mailed (outcomes.countP (·.enqueued)) s s' := by
  induction jobs generalizing s with
  | nil => exact ⟨[], s, rfl, rfl, .nothing rfl⟩
  | cons job jobs ih =>
    obtain ⟨o, t, hfirst, hmailed⟩ := mailed_queueJob delay job s
    obtain ⟨outcomes, u, hrest, hlength, hmailed'⟩ := ih t
    refine ⟨o :: outcomes, u, ?_, by rw [List.length_cons, List.length_cons, hlength], ?_⟩
    · rw [queueJobs, exec_bind_ok hfirst, exec_bind_ok hrest]
      rfl
    · rw [List.countP_cons, Nat.add_comm]
      exact hmailed.trans hmailed'

/-- How many jobs a submission tells to be queued. -/
def queuedIn : Except Error Receipt → Nat
  | .ok receipt => receipt.enqueuedCount
  | .error _ => 0

/-- A submission that is answered tells of all its jobs, and of one at least that is queued. -/
def Answers (targets : Nat) : Except Error Receipt → Prop
  | .ok receipt => receipt.jobs.length = targets ∧ 0 < receipt.enqueuedCount
  | .error _ => True

theorem length_jobsFrom {idOf : Nat → String} {rootId userId : String} {content : PostContent}
    {postAt : Option Instant} {n : Nat} {targets : List String} :
    (jobsFrom idOf rootId userId content postAt n targets).length = targets.length := by
  rw [← List.length_map (f := Job.target), map_target_jobsFrom]

theorem mailed_afterStaging (root : String) (jobs : List Job) (postAt : Option Instant)
    (staged : Except Error Unit) (s : Service) :
    Mailed (queuedIn ((afterStaging root jobs postAt staged).exec s).1) s
        ((afterStaging root jobs postAt staged).exec s).2 ∧
      Answers jobs.length ((afterStaging root jobs postAt staged).exec s).1 := by
  cases staged with
  | error e =>
    -- the locks are given back and nothing is queued, whether that succeeds or not
    have honly := onlyStore_releaseLocks jobs s
    rw [afterStaging, exec_bind]
    rcases hrelease : (releaseLocks jobs).exec s with ⟨e' | u, t⟩
    all_goals
      rw [hrelease] at honly
      exact ⟨.nothing honly.messages, trivial⟩
  | ok u =>
    obtain ⟨outcomes, t, hqueue, hlength, hmailed⟩ :=
      mailed_queueJobs (visibilityDelay postAt s.nowInstant) jobs s
    have hexec : (afterStaging root jobs postAt (.ok ())).exec s =
        (if Receipt.enqueuedCount ⟨root, outcomes⟩ = 0 then
          (.error (.queue ("no delivery job could be enqueued for post " ++ root)), t)
        else (.ok ⟨root, outcomes⟩, t)) := by
      rw [afterStaging, exec_bind_ok (exec_get s)]
      refine (exec_bind_ok hqueue).trans ?_
      simp only
      split <;> rfl
    rw [hexec]
    have hcount : Receipt.enqueuedCount ⟨root, outcomes⟩ = outcomes.countP (·.enqueued) := rfl
    split
    · rename_i hzero
      rw [hcount] at hzero
      rw [hzero] at hmailed
      exact ⟨hmailed, trivial⟩
    · rename_i hsome
      exact ⟨hmailed, hlength, Nat.pos_of_ne_zero hsome⟩

/-- **Messages of a submission.** As many were added as jobs are told to be queued. -/
theorem mailed_fanOut (userId : String) (targets : List String) (content : PostContent)
    (postAt : Option Instant) (s : Service) :
    Mailed (queuedIn ((fanOut userId targets content postAt).exec s).1) s
        ((fanOut userId targets content postAt).exec s).2 ∧
      Answers targets.length ((fanOut userId targets content postAt).exec s).1 := by
  rcases hstage : (stageAll (rootOf s) (jobsOf s userId targets content postAt) content).exec
    { s with issuer := issuerAfter s targets.length } with ⟨r, t⟩
  have honly := onlyStore_stageAll (rootOf s) (jobsOf s userId targets content postAt) content
    { s with issuer := issuerAfter s targets.length }
  rw [hstage] at honly
  have hmessages : t.messages = s.messages := honly.messages
  obtain ⟨hmailed, hanswers⟩ :=
    mailed_afterStaging (rootOf s) (jobsOf s userId targets content postAt) postAt r t
  rw [exec_fanOut s userId targets content postAt hstage]
  have hlength : (jobsOf s userId targets content postAt).length = targets.length := length_jobsFrom
  refine ⟨?_, hlength ▸ hanswers⟩
  rw [Mailed, ← hmessages]
  exact hmailed

/-- A submission for one target adds one message if it is answered, and else none. -/
theorem mailed_submitForUser (userId target : String) (content : PostContent)
    (postAt : Option Instant) (s : Service) :
    Mailed (if ((submitForUser userId [target] content postAt).exec s).1.isOk then 1 else 0) s
      ((submitForUser userId [target] content postAt).exec s).2 := by
  rw [exec_submitForUser]
  split
  · exact .nothing rfl
  split
  · exact .nothing rfl
  obtain ⟨hmailed, hanswers⟩ := mailed_fanOut userId [target] content postAt s
  rcases hfan : (fanOut userId [target] content postAt).exec s with ⟨cause | receipt, t⟩
  · rwa [hfan] at hmailed
  · -- of one job one at least and one at most is queued
    rw [hfan] at hmailed hanswers
    obtain ⟨hlength, hpos⟩ := hanswers
    have hle : receipt.enqueuedCount ≤ receipt.jobs.length := List.countP_le_length
    have hone : receipt.enqueuedCount = 1 := by
      rw [hlength, List.length_singleton] at hle
      omega
    rw [queuedIn, hone] at hmailed
    exact hmailed

end Syndication.Submission
