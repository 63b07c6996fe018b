import Syndication.Proofs.Submission.FanOut

/-!
# Proofs.Submission.AllOrNothing — a target is served in whole or not at all

A request is refused before anything is done, or it becomes a post. Of a post that is answered every
target has either its record, one message and its lock, or a record that says it failed and neither
message nor lock. Of a post that failed there are at most records that say so. What belongs to earlier
posts is not touched.

## Contents
* `IsQueued`, `IsGivenUp`, `LeavesEarlier` — what there is afterwards
* `Submitted`, `submit_cases`              — what a submission comes to
* `submit_allOrNothing`
-/

namespace Syndication.Submission

open ObjectStore Staging

/-! ## What there is afterwards -/

/-- A target that is served: its record waits, one message carries its job, and its lock is there. -/
structure IsQueued (s : Service) (root : String) (o : TargetOutcome) : Prop where
  record : ∃ row, s.jobs.get? o.jobId = some row ∧ row.rootId = root ∧ row.target = o.target ∧
    row.status = .queued
  message : s.messages.carriers o.jobId = 1
  lock : (s.store.find? (lockKey root o.target)).isSome = true

/-- A target that is not served: its record says that it failed, and there is neither message nor
lock. -/
structure IsGivenUp (s : Service) (root : String) (o : TargetOutcome) : Prop where
  record : ∃ row, s.jobs.get? o.jobId = some row ∧ row.rootId = root ∧ row.target = o.target ∧
    row.status = .faulted
  message : s.messages.carriers o.jobId = 0
  lock : s.store.find? (lockKey root o.target) = none

/-- What belongs to earlier posts is as it was: records and messages are only added behind the
others, and objects only under the new identifier, which none had before. -/
structure LeavesEarlier (root : String) (s s' : Service) : Prop where
  records : ∃ new, s'.jobs.records = s.jobs.records ++ new ∧ ∀ row ∈ new, row.rootId = root
  messages : s.messages.messages <+: s'.messages.messages
  objects : ∀ key, Text.startsWith key (rootStart root) = false →
    s'.store.find? key = s.store.find? key

section Outcome

variable {s s' : Service} {root : String} {jobs : List Job} {content : PostContent} {issuer : Issuer}
  {delay : Span} {r : Except Error Receipt}

theorem FannedOut.leavesEarlier (h : FannedOut s root jobs content issuer delay r s')
    (hjobs : Batch root jobs) : LeavesEarlier root s s' := by
  cases h with
  | unstaged cause st only unlocked =>
    exact ⟨⟨[], (List.append_nil _).symm, by simp⟩, List.prefix_refl _, fun _ => only.outside⟩
  | staged st only holds locked unlocked =>
    obtain ⟨-, new, hnew, -⟩ := messages_mail s delay jobs
    refine ⟨⟨jobs.map (rowOf s), rfl, fun row hrow => ?_⟩, ⟨new, hnew.symm⟩, fun _ => only.outside⟩
    obtain ⟨job, hjob, rfl⟩ := List.mem_map.mp hrow
    rw [(rowOf_sameJob s job).2.1, hjobs.rootId job hjob]

theorem mail_of_all_refused (h : ∀ job ∈ jobs, refused s job = true) :
    mail s delay jobs = s.messages := by
  have hfold : ∀ t : MessageTable, jobs.foldl (mailOne s delay) t = t := by
    induction jobs with
    | nil => exact fun t => rfl
    | cons job jobs ih =>
      intro t
      rw [List.forall_mem_cons] at h
      rw [List.foldl_cons, mailOne, if_pos h.1, ih h.2]
  exact hfold _

/-- **A post that failed** leaves at most records that say so. -/
theorem FannedOut.failed (h : FannedOut s root jobs content issuer delay r s') {e : Error}
    (he : r = .error e) :
    s'.messages = s.messages ∧ (∀ target, s'.store.find? (lockKey root target) = none) ∧
      ∃ new, s'.jobs.records = s.jobs.records ++ new ∧ ∀ row ∈ new, row.status = .faulted := by
  cases h with
  | unstaged cause st only unlocked =>
    exact ⟨rfl, unlocked, [], (List.append_nil _).symm, by simp⟩
  | staged st only holds locked unlocked =>
    have hall : ∀ job ∈ jobs, refused s job = true := by
      unfold answer at he
      split at he
      · rename_i hall
        exact List.all_eq_true.mp hall
      · cases he
    refine ⟨mail_of_all_refused hall, fun target => unlocked target fun job hjob hrefused => ?_,
      jobs.map (rowOf s), rfl, fun row hrow => ?_⟩
    · rw [hall job hjob] at hrefused
      cases hrefused
    · obtain ⟨job, hjob, rfl⟩ := List.mem_map.mp hrow
      rw [rowOf_status, if_pos (hall job hjob)]

/-- The errors of a checked post are of the store or of the queue. -/
theorem FannedOut.error (h : FannedOut s root jobs content issuer delay r s') {e : Error}
    (he : r = .error e) : (∃ cause, e = .storage cause) ∨ ∃ detail, e = .queue detail := by
  cases h with
  | unstaged cause st only unlocked => exact .inl ⟨cause, (Except.error.inj he).symm⟩
  | staged st only holds locked unlocked =>
    unfold answer at he
    split at he
    · exact .inr ⟨_, (Except.error.inj he).symm⟩
    · cases he

theorem get?_rowOf (hjobs : Batch root jobs) {job : Job} (hjob : job ∈ jobs)
    (hnew : ∀ row ∈ s.jobs.records, row.jobId ≠ job.jobId) :
    JobTable.get? ⟨s.jobs.records ++ jobs.map (rowOf s)⟩ job.jobId = some (rowOf s job) := by
  have hold : s.jobs.get? job.jobId = none := JobTable.get?_eq_none_iff.mpr hnew
  have hids : (jobs.map (rowOf s)).map (·.jobId) = jobs.map (·.jobId) := by
    rw [List.map_map]
    exact List.map_congr_left fun job _ => (rowOf_sameJob s job).1
  have hunique : JobTable.HasUniqueIds ⟨jobs.map (rowOf s)⟩ := by
    rw [JobTable.HasUniqueIds, hids]
    exact hjobs.jobIds
  have hfound : JobTable.get? ⟨jobs.map (rowOf s)⟩ job.jobId = some (rowOf s job) :=
    (JobTable.get?_eq_some_iff hunique).mpr ⟨List.mem_map_of_mem hjob, (rowOf_sameJob s job).1⟩
  rw [JobTable.get?] at hold hfound ⊢
  rw [List.find?_append, hold, Option.none_or]
  exact hfound

/-- **A post that is answered** serves each of its targets in whole or not at all. -/
theorem FannedOut.answered (h : FannedOut s root jobs content issuer delay r s')
    (hjobs : Batch root jobs) (hcal : ∀ job ∈ jobs, job.InCalendar)
    (hrecords : ∀ job ∈ jobs, ∀ row ∈ s.jobs.records, row.jobId ≠ job.jobId)
    (hmessages : ∀ job ∈ jobs, s.messages.carriers job.jobId = 0) {receipt : Receipt}
    (hr : r = .ok receipt) :
    receipt.rootId = root ∧ receipt.jobs.map (·.target) = jobs.map (·.target) ∧
      (receipt.jobs.map (·.jobId)).Nodup ∧ (∃ o ∈ receipt.jobs, o.enqueued = true) ∧
      ∀ o ∈ receipt.jobs, (o.enqueued = true → IsQueued s' root o) ∧
        (o.enqueued = false → IsGivenUp s' root o) := by
  cases h with
  | unstaged cause st only unlocked => cases hr
  | staged st only holds locked unlocked =>
    unfold answer at hr
    split at hr
    · cases hr
    rename_i hsome
    obtain rfl := Except.ok.inj hr
    refine ⟨rfl, ?_, ?_, ?_, fun o ho => ?_⟩
    · rw [List.map_map]
      rfl
    · rw [List.map_map]
      exact hjobs.jobIds
    · rw [Bool.not_eq_true, List.all_eq_false] at hsome
      obtain ⟨job, hjob, hrefused⟩ := hsome
      exact ⟨outcomeOf s job, List.mem_map_of_mem hjob, by simpa [outcomeOf] using hrefused⟩
    obtain ⟨job, hjob, rfl⟩ := List.mem_map.mp ho
    have hrow := get?_rowOf hjobs hjob (hrecords job hjob)
    have hcarriers : (mail s delay jobs).carriers job.jobId = if refused s job then 0 else 1 := by
      rw [carriers_mail hcal, hmessages job hjob, countP_jobId hjobs hjob, Nat.zero_add]
    have hsame := rowOf_sameJob s job
    constructor
    · intro henqueued
      have hrefused : refused s job = false := by simpa [outcomeOf] using henqueued
      refine ⟨⟨_, hrow, hsame.2.1.trans (hjobs.rootId job hjob), hsame.2.2, ?_⟩, ?_, ?_⟩
      · rw [rowOf_status, hrefused]
        rfl
      · refine hcarriers.trans ?_
        rw [hrefused]
        rfl
      · refine (congrArg Option.isSome (locked job hjob hrefused)).trans rfl
    · intro henqueued
      have hrefused : refused s job = true := by simpa [outcomeOf] using henqueued
      refine ⟨⟨_, hrow, hsame.2.1.trans (hjobs.rootId job hjob), hsame.2.2, ?_⟩, ?_, ?_⟩
      · rw [rowOf_status, if_pos hrefused]
      · exact hcarriers.trans (if_pos hrefused)
      · apply unlocked job.target
        intro other hother hother' heq
        -- no other job has the same target, so no lock of one that is queued is meant
        have := List.inj_on_of_nodup_map hjobs.targets hjob hother heq
        rw [← this, hrefused] at hother'
        cases hother'

end Outcome

/-! ## Submissions -/

/-- What a submission comes to. -/
inductive Submitted (s : Service) (request : PostRequest) : Except Error Receipt → Service → Prop
  /-- The credential is not accepted. -/
  | unauthorized (detail : String)
      (refusal : s.keys.authenticate request.credential = .error (.unauthorized detail)) :
      Submitted s request (.error (.unauthorized detail)) s
  /-- The request cannot be made a post. -/
  | invalid (detail : String) (accepted : s.keys.authenticate request.credential = .ok ())
      (refusal : validate request.targets request.content = .error (.invalidInput detail)) :
      Submitted s request (.error (.invalidInput detail)) s
  /-- The request is made a post. -/
  | posted {r : Except Error Receipt} {s' : Service}
      (accepted : s.keys.authenticate request.credential = .ok ())
      (valid : validate request.targets request.content = .ok ())
      (fannedOut : FannedOut s (rootOf s) (jobsOf s request.credential.userId request.targets
        request.content request.postAt) request.content (issuerAfter s request.targets.length)
        (visibilityDelay request.postAt s.nowInstant) r s') :
      Submitted s request r s'

theorem submit_cases {s : Service} (request : PostRequest) (hsound : s.store.IsSound)
    (hdelete : ∀ key, s.store.outage.delete key = false) (hfresh : FreshIds s) :
    Submitted s request ((submit request).exec s).1 ((submit request).exec s).2 := by
  rw [exec_submit]
  cases hauth : s.keys.authenticate request.credential with
  | error e =>
    obtain ⟨detail, rfl⟩ := authenticate_error hauth
    exact .unauthorized detail hauth
  | ok u =>
    cases hvalid : validate request.targets request.content with
    | error e =>
      obtain ⟨detail, rfl⟩ := validate_error hvalid
      simp only
      exact .invalid detail hauth hvalid
    | ok v =>
      obtain ⟨-, hsafe, hnodup, -⟩ := (validate_eq_ok_iff _ _).mp hvalid
      simp only
      exact .posted hauth hvalid (fanOut_spec hsound hdelete hfresh hnodup hsafe _ _)

/-- What a request is refused for. -/
def IsInvalid (request : PostRequest) : Prop :=
  request.targets = [] ∨ (∃ target ∈ request.targets, isPathSafe target = false) ∨
    ¬ request.targets.Nodup ∨ request.content.isEmpty = true

theorem not_isInvalid_iff (request : PostRequest) :
    ¬ IsInvalid request ↔ validate request.targets request.content = .ok () := by
  rw [validate_eq_ok_iff, IsInvalid]
  simp only [not_or, not_exists, not_and, Bool.not_eq_false, not_not, Bool.not_eq_true]

theorem isInvalid_of_error {request : PostRequest} {e : Error}
    (h : validate request.targets request.content = .error e) : IsInvalid request := by
  apply Classical.byContradiction
  intro hnot
  rw [not_isInvalid_iff, h] at hnot
  cases hnot

/-- **Submission is all or nothing per target.** In every state with fresh identifiers and a store that
deletes, whatever payloads the queue refuses and whatever objects the store does not take:
a request is unauthorized exactly when its credential is not accepted; an authorized one is invalid
exactly when it names no targets, targets that are not path-safe or a target twice, or has no content;
and then nothing has changed. Any other failure leaves no message, no lock and no record but of failed
jobs. A receipt tells of every target in order, and each target is served in whole or not at all. What
belongs to earlier posts is as it was. -/
theorem submit_allOrNothing (s : Service) (request : PostRequest) (hsound : s.store.IsSound)
    (hdelete : ∀ key, s.store.outage.delete key = false) (hfresh : FreshIds s)
    (hpostAt : ∀ t ∈ request.postAt, t.InCalendar) (r : Except Error Receipt) (s' : Service)
    (hexec : (submit request).exec s = (r, s')) :
    ((∃ detail, r = .error (.unauthorized detail)) ↔
        ∃ e, s.keys.authenticate request.credential = .error e) ∧
      (s.keys.authenticate request.credential = .ok () →
        ((∃ detail, r = .error (.invalidInput detail)) ↔ IsInvalid request)) ∧
      ((∃ detail, r = .error (.unauthorized detail)) ∨
        (∃ detail, r = .error (.invalidInput detail)) → s' = s) ∧
      (∀ e, r = .error e → (∀ detail, e ≠ .unauthorized detail) →
        (∀ detail, e ≠ .invalidInput detail) →
        s'.messages = s.messages ∧ (∀ target, s'.store.find? (lockKey (rootOf s) target) = none) ∧
          ∃ new, s'.jobs.records = s.jobs.records ++ new ∧ ∀ row ∈ new, row.status = .faulted) ∧
      (∀ receipt, r = .ok receipt →
        receipt.rootId = rootOf s ∧ receipt.jobs.map (·.target) = request.targets ∧
          (receipt.jobs.map (·.jobId)).Nodup ∧ (∃ o ∈ receipt.jobs, o.enqueued = true) ∧
          ∀ o ∈ receipt.jobs, (o.enqueued = true → IsQueued s' receipt.rootId o) ∧
            (o.enqueued = false → IsGivenUp s' receipt.rootId o)) ∧
      LeavesEarlier (rootOf s) s s' := by
  have hunchanged : LeavesEarlier (rootOf s) s s :=
    ⟨⟨[], (List.append_nil _).symm, by simp⟩, List.prefix_refl _, fun _ _ => rfl⟩
  have hcases := submit_cases request hsound hdelete hfresh
  rw [hexec] at hcases
  cases hcases with
  | unauthorized detail refusal =>
    refine ⟨iff_of_true ⟨detail, rfl⟩ ⟨_, refusal⟩, ?_, fun _ => rfl, ?_, by simp, hunchanged⟩
    · simp [refusal]
    · exact fun e he hno => absurd (Except.error.inj he).symm (hno detail)
  | invalid detail accepted refusal =>
    refine ⟨by simp [accepted], ?_, fun _ => rfl, ?_, by simp, hunchanged⟩
    · intro _
      exact iff_of_true ⟨detail, rfl⟩ (isInvalid_of_error refusal)
    · exact fun e he _ hno => absurd (Except.error.inj he).symm (hno detail)
  | posted accepted valid fannedOut =>
    obtain ⟨-, hsafe, hnodup, -⟩ := (validate_eq_ok_iff _ _).mp valid
    have hbatch : Batch (rootOf s) (jobsOf s request.credential.userId request.targets request.content
        request.postAt) := batch_jobsFrom hnodup hsafe
    -- a checked post fails for the store or for the queue, and for nothing else
    have hunauthorized : ∀ detail, r ≠ .error (.unauthorized detail) := by
      intro detail he
      rcases fannedOut.error he with ⟨cause, h⟩ | ⟨cause, h⟩ <;> cases h
    have hinvalid : ∀ detail, r ≠ .error (.invalidInput detail) := by
      intro detail he
      rcases fannedOut.error he with ⟨cause, h⟩ | ⟨cause, h⟩ <;> cases h
    refine ⟨?_, fun _ => ?_, ?_, fun e he _ _ => fannedOut.failed he, fun receipt hreceipt => ?_,
      fannedOut.leavesEarlier hbatch⟩
    · exact iff_of_false (fun ⟨detail, he⟩ => hunauthorized detail he) (by simp [accepted])
    · exact iff_of_false (fun ⟨detail, he⟩ => hinvalid detail he)
        ((not_isInvalid_iff request).mpr valid)
    · rintro (⟨detail, he⟩ | ⟨detail, he⟩)
      · exact absurd he (hunauthorized detail)
      · exact absurd he (hinvalid detail)
    · obtain ⟨hroot, htargets, hids, hsome, hall⟩ := fannedOut.answered hbatch
        (fun job hjob => (mem_jobsOf hfresh hpostAt hjob).1)
        (fun job hjob => (mem_jobsOf hfresh hpostAt hjob).2.1)
        (fun job hjob => (mem_jobsOf hfresh hpostAt hjob).2.2) hreceipt
      exact ⟨hroot, htargets.trans map_target_jobsFrom, hids, hsome, hroot ▸ hall⟩

/-- A queue that does not take the shorter of two payloads leaves one target served and one not. -/
theorem submit_allOrNothing_partly :
    ∃ receipt s', (submit Service.samplePost).exec { Service.started {} Service.sampleKeys with
        refuses := fun _ payload => payload.utf8ByteSize < 160 } =
        (.ok receipt, s') ∧ receipt.jobs.map (·.enqueued) = [true, false] ∧
      ∀ o ∈ receipt.jobs, (o.enqueued = true → IsQueued s' receipt.rootId o) ∧
        (o.enqueued = false → IsGivenUp s' receipt.rootId o) := by
  rcases hexec : (submit Service.samplePost).exec { Service.started {} Service.sampleKeys with
    refuses := fun _ payload => payload.utf8ByteSize < 160 } with ⟨r, s'⟩
  have hfresh : FreshIds { Service.started {} Service.sampleKeys with
      refuses := fun _ payload => payload.utf8ByteSize < 160 } :=
    freshIds_of_empty rfl rfl fun _ _ => rfl
  have hevaluated : ((submit Service.samplePost).exec { Service.started {} Service.sampleKeys with
      refuses := fun _ payload => payload.utf8ByteSize < 160 }).1.toOption.map
      (·.jobs.map (·.enqueued)) = some [true, false] := by decide +kernel
  rw [hexec] at hevaluated
  obtain ⟨-, -, -, -, hreceipt, -⟩ := submit_allOrNothing _ _ inMemory_isSound (fun _ => rfl) hfresh
    (by simp [Service.samplePost]) r s' hexec
  cases r with
  | error e => cases hevaluated
  | ok receipt =>
    obtain ⟨-, -, -, -, hall⟩ := hreceipt receipt rfl
    exact ⟨receipt, s', rfl, Option.some.inj hevaluated, hall⟩

end Syndication.Submission
