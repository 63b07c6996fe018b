import Syndication.Proofs.Submission.Checks
import Syndication.Proofs.Submission.Parts

/-!
# Proofs.Submission.FanOut — one post becomes one job per target

What a post leaves is told by the jobs that were drawn for it. Either the bundle could not be made:
then there are neither records nor messages, and no lock. Or it was made: then every job has its
record, and those whose payload was taken have a message and a lock as well.

## Contents
* `rootOf`, `jobsOf`              — the post and its jobs
* `messages_mail`, `carriers_mail` — the messages of the jobs
* `FannedOut`, `fanOut_spec`
* `Posted`, `submit_posted`, `submitForUser_posted`
-/

namespace Syndication.Submission

open ObjectStore Staging

/-- The identifier of the next post. -/
def rootOf (s : Service) : String := s.issuer.idOf s.issuer.ids

/-- The jobs of the next post. -/
def jobsOf (s : Service) (userId : String) (targets : List String) (content : PostContent)
    (postAt : Option Instant) : List Job :=
  jobsFrom s.issuer.idOf (rootOf s) userId content postAt (s.issuer.ids + 1) targets

/-- The issuer after a post for so many targets. -/
def issuerAfter (s : Service) (targets : Nat) : Issuer :=
  { s.issuer with ids := s.issuer.ids + 1 + targets }

/-! ## Messages -/

section Mail

variable {s : Service} {delay : Span} {jobs : List Job}

/-- A letter that was added for one of the jobs. -/
def IsLetterOf (s : Service) (t : MessageTable) (jobs : List Job) (l : Letter) : Prop :=
  t.nextId ≤ l.id ∧ ∃ job ∈ jobs, refused s job = false ∧
    l.queue = MessageTable.deliveryQueue ∧ l.payload = job.payload

theorem foldl_mailOne (t : MessageTable) :
    t.nextId ≤ (jobs.foldl (mailOne s delay) t).nextId ∧
      ∃ new, (jobs.foldl (mailOne s delay) t).messages = t.messages ++ new ∧
        ∀ m ∈ new, IsLetterOf s t jobs m.letter := by
  induction jobs generalizing t with
  | nil => exact ⟨Nat.le_refl _, [], by simp⟩
  | cons job jobs ih =>
    obtain ⟨hle, new, hnew, hmem⟩ := ih (mailOne s delay t job)
    rw [List.foldl_cons]
    by_cases hrefused : refused s job = true
    · rw [mailOne, if_pos hrefused] at hle hnew hmem ⊢
      refine ⟨hle, new, hnew, ?_⟩
      intro m hm
      obtain ⟨hid, other, hother, h⟩ := hmem m hm
      exact ⟨hid, other, List.mem_cons_of_mem _ hother, h⟩
    · obtain ⟨m, hone, hletter⟩ := MessageTable.messages_enqueue t MessageTable.deliveryQueue
        job.payload s.now delay
      have hnext : (t.enqueue MessageTable.deliveryQueue job.payload s.now delay).2.nextId =
          t.nextId + 1 := rfl
      rw [mailOne, if_neg hrefused] at hle hnew hmem ⊢
      refine ⟨by omega, m :: new, ?_, List.forall_mem_cons.mpr ⟨?_, ?_⟩⟩
      · rw [hnew, hone, List.append_assoc, List.singleton_append]
      · rw [hletter]
        exact ⟨Nat.le_refl _, job, List.mem_cons_self, by simpa using hrefused, rfl, rfl⟩
      · intro m' hm'
        obtain ⟨hid, other, hother, h⟩ := hmem m' hm'
        exact ⟨by omega, other, List.mem_cons_of_mem _ hother, h⟩

/-- The messages of jobs stand behind the earlier ones. -/
theorem messages_mail (s : Service) (delay : Span) (jobs : List Job) :
    s.messages.nextId ≤ (mail s delay jobs).nextId ∧
      ∃ new, (mail s delay jobs).messages = s.messages.messages ++ new ∧
        ∀ m ∈ new, IsLetterOf s s.messages jobs m.letter :=
  foldl_mailOne s.messages

theorem wellNumbered_mail (h : s.messages.WellNumbered) : (mail s delay jobs).WellNumbered := by
  have hfold : ∀ t : MessageTable, t.WellNumbered → (jobs.foldl (mailOne s delay) t).WellNumbered := by
    induction jobs with
    | nil => exact fun t ht => ht
    | cons job jobs ih =>
      intro t ht
      refine ih _ ?_
      unfold mailOne
      split
      · exact ht
      · exact ht.enqueue _ _ _ _
  exact hfold _ h

theorem carries_payload {job : Job} (h : job.InCalendar) (id : Nat) (jobId : String) :
    Letter.carries jobId ⟨id, MessageTable.deliveryQueue, job.payload⟩ = decide (job.jobId = jobId) := by
  obtain ⟨postAt, hpayload⟩ := Job.ofPayload?_payload h
  simp [Letter.carries, hpayload]

/-- Each job whose payload is taken adds one carrier. -/
theorem carriers_mail (hcal : ∀ job ∈ jobs, job.InCalendar) (jobId : String) :
    (mail s delay jobs).carriers jobId = s.messages.carriers jobId +
      jobs.countP fun job => !refused s job && decide (job.jobId = jobId) := by
  -- the table grows along the induction, so it is stated for any table
  have hfold : ∀ t : MessageTable, (jobs.foldl (mailOne s delay) t).carriers jobId =
      t.carriers jobId + jobs.countP fun job => !refused s job && decide (job.jobId = jobId) := by
    induction jobs with
    | nil => exact fun t => rfl
    | cons job jobs ih =>
      intro t
      rw [List.forall_mem_cons] at hcal
      rw [List.foldl_cons, ih hcal.2, List.countP_cons, mailOne]
      by_cases hrefused : refused s job = true
      · simp [hrefused]
      · rw [if_neg hrefused, MessageTable.carriers_enqueue, carries_payload hcal.1]
        simp only [Bool.not_eq_true] at hrefused
        simp only [hrefused, Bool.not_false, Bool.true_and]
        omega
  exact hfold _

/-- One message at most carries a job of a post. -/
theorem countP_jobId {root : String} (hjobs : Batch root jobs) {job : Job} (hjob : job ∈ jobs) :
    jobs.countP (fun other => !refused s other && decide (other.jobId = job.jobId)) =
      if refused s job then 0 else 1 := by
  have honly : ∀ other ∈ jobs, other.jobId = job.jobId → other = job := fun other hother heq =>
    List.inj_on_of_nodup_map hjobs.jobIds hother hjob heq
  split
  · rename_i hrefused
    rw [List.countP_eq_zero]
    intro other hother h
    rw [Bool.and_eq_true, decide_eq_true_eq] at h
    rw [honly other hother h.2, hrefused] at h
    cases h.1
  · rename_i hrefused
    have hcount : (jobs.map (·.jobId)).count job.jobId = 1 :=
      List.count_eq_one_of_mem hjobs.jobIds (List.mem_map_of_mem hjob)
    rw [List.count, List.countP_map] at hcount
    rw [← hcount]
    apply List.countP_congr
    intro other hother
    simp only [Bool.and_eq_true, Bool.not_eq_true', decide_eq_true_eq, Function.comp_apply, beq_iff_eq]
    apply and_iff_right_of_imp
    intro heq
    rw [honly other hother heq]
    simpa using hrefused

end Mail

/-! ## The whole -/

/-- No identifier that is still to be drawn is used anywhere. -/
structure FreshIds (s : Service) : Prop where
  jobIds : ∀ n, s.issuer.ids ≤ n → ∀ r ∈ s.jobs.records, r.jobId ≠ s.issuer.idOf n
  rootIds : ∀ n, s.issuer.ids ≤ n → ∀ r ∈ s.jobs.records, r.rootId ≠ s.issuer.idOf n
  messages : ∀ n, s.issuer.ids ≤ n → s.messages.carriers (s.issuer.idOf n) = 0
  keys : ∀ n, s.issuer.ids ≤ n → ∀ k, Text.startsWith k (rootStart (s.issuer.idOf n)) = true →
    s.store.find? k = none

/-- Where nothing was posted, every identifier is fresh. -/
theorem freshIds_of_empty {s : Service} (hjobs : s.jobs.records = [])
    (hmessages : s.messages.messages = [])
    (hkeys : ∀ k, Text.startsWith k bundleStart = true → s.store.find? k = none) : FreshIds s where
  jobIds := by simp [hjobs]
  rootIds := by simp [hjobs]
  messages := by simp [MessageTable.carriers, hmessages]
  keys := by
    intro n _ k hk
    obtain ⟨rest, rfl⟩ := Text.startsWith_iff.mp hk
    exact hkeys _ (startsWith_bundleStart _ rest)

/-- The jobs of a post have identifiers that are in no record and in no message, and an instant that
can be written. -/
theorem mem_jobsOf {s : Service} (hfresh : FreshIds s) {userId : String} {targets : List String}
    {content : PostContent} {postAt : Option Instant} (hpostAt : ∀ t ∈ postAt, t.InCalendar)
    {job : Job} (hjob : job ∈ jobsOf s userId targets content postAt) :
    job.InCalendar ∧ (∀ row ∈ s.jobs.records, row.jobId ≠ job.jobId) ∧
      s.messages.carriers job.jobId = 0 := by
  obtain ⟨n, hle, -, -, hn⟩ := mem_jobsFrom hjob
  rw [hn]
  exact ⟨hpostAt, hfresh.jobIds n (by omega), hfresh.messages n (by omega)⟩

/-- A store in which only locks and content of the bundle may differ. -/
structure OnlyBundle (root : String) (s s' : ObjectStore) : Prop where
  later : Later s s'
  frame : ∀ k, (∀ target, k ≠ lockKey root target) → (∀ name ∈ partNames, k ≠ contentKey root name) →
    s'.find? k = s.find? k

/-- Outside the bundle nothing differs. -/
theorem OnlyBundle.outside {root : String} {s s' : ObjectStore} (h : OnlyBundle root s s') {k : String}
    (hk : Text.startsWith k (rootStart root) = false) : s'.find? k = s.find? k := by
  have hne : ∀ name, k ≠ contentKey root name := by
    rintro name rfl
    rw [startsWith_rootStart] at hk
    cases hk
  exact h.frame k (fun target => hne _) fun name _ => hne name

/-- The answer to a post whose bundle was made. -/
def answer (s : Service) (root : String) (jobs : List Job) : Except Error Receipt :=
  if jobs.all (refused s) then
    .error (.queue ("no delivery job could be enqueued for post " ++ root))
  else .ok ⟨root, jobs.map (outcomeOf s)⟩

/-- What a post of these jobs answers and leaves. -/
inductive FannedOut (s : Service) (root : String) (jobs : List Job) (content : PostContent)
    (issuer : Issuer) (delay : Span) : Except Error Receipt → Service → Prop
  /-- The bundle could not be made. -/
  | unstaged (cause : StorageError) (st : ObjectStore) (only : OnlyBundle root s.store st)
      (unlocked : ∀ target, st.find? (lockKey root target) = none) :
      FannedOut s root jobs content issuer delay (.error (.storage cause))
        { s with issuer := issuer, store := st }
  /-- The bundle was made, and every job was queued or given up. -/
  | staged (st : ObjectStore) (only : OnlyBundle root s.store st) (holds : Holds st root content)
      (locked : ∀ job ∈ jobs, refused s job = false →
        st.find? (lockKey root job.target) = some (Utf8.encode job.jobId))
      (unlocked : ∀ target, (∀ job ∈ jobs, refused s job = false → target ≠ job.target) →
        st.find? (lockKey root target) = none) :
      FannedOut s root jobs content issuer delay (answer s root jobs)
        { s with issuer := issuer, jobs := ⟨s.jobs.records ++ jobs.map (rowOf s)⟩,
                 messages := mail s delay jobs, store := st }

theorem enqueuedCount_eq_zero_iff (s : Service) (root : String) (jobs : List Job) :
    Receipt.enqueuedCount ⟨root, jobs.map (outcomeOf s)⟩ = 0 ↔ jobs.all (refused s) = true := by
  rw [Receipt.enqueuedCount, List.countP_eq_zero, List.all_eq_true]
  simp [outcomeOf]

/-- What happens to a post once its bundle was made or could not be made. -/
def afterStaging (root : String) (jobs : List Job) (postAt : Option Instant) :
    Except Error Unit → Effect Service Receipt
  | .error e => do
    releaseLocks jobs
    throw e
  | .ok () => do
    let delay := visibilityDelay postAt (← get).nowInstant
    let receipt : Receipt := ⟨root, ← queueJobs delay jobs⟩
    if receipt.enqueuedCount = 0 then
      throw (.queue ("no delivery job could be enqueued for post " ++ root))
    else return receipt

theorem exec_fanOut (s : Service) (userId : String) (targets : List String) (content : PostContent)
    (postAt : Option Instant) {r : Except Error Unit} {t : Service}
    (hstage : (stageAll (rootOf s) (jobsOf s userId targets content postAt) content).exec
      { s with issuer := issuerAfter s targets.length } = (r, t)) :
    (fanOut userId targets content postAt).exec s =
      (afterStaging (rootOf s) (jobsOf s userId targets content postAt) postAt r).exec t := by
  rw [fanOut, Effect.exec_bind_ok (Service.exec_drawId s),
    Effect.exec_bind_ok (exec_drawJobs _ _ _ _ _ _), Effect.exec_settle_bind]
  -- the program goes on with the answer of the staging, whatever it is
  change Effect.exec (match (Effect.exec (stageAll (rootOf s)
    (jobsOf s userId targets content postAt) content)
    { s with issuer := issuerAfter s targets.length }).1 with | .error e => _ | .ok () => _)
    (Effect.exec (stageAll (rootOf s) (jobsOf s userId targets content postAt) content)
    { s with issuer := issuerAfter s targets.length }).2 = _
  rw [hstage]
  cases r <;> rfl

/-- Once its jobs were queued or given up, a post is answered by what became of them. -/
theorem exec_afterStaging {s t t' : Service} {root : String} {jobs : List Job}
    {postAt : Option Instant}
    (hqueue : (queueJobs (visibilityDelay postAt t.nowInstant) jobs).exec t =
      (.ok (jobs.map (outcomeOf s)), t')) :
    (afterStaging root jobs postAt (.ok ())).exec t = (answer s root jobs, t') := by
  rw [afterStaging, Effect.exec_bind_ok (Effect.exec_get _)]
  refine (Effect.exec_bind_ok hqueue).trans ?_
  rw [answer]
  by_cases hall : jobs.all (refused s) = true
  · rw [if_pos hall]
    exact congrArg (Effect.exec · t') (if_pos ((enqueuedCount_eq_zero_iff s root jobs).mpr hall))
  · rw [if_neg hall]
    exact congrArg (Effect.exec · t') (if_neg (mt (enqueuedCount_eq_zero_iff s root jobs).mp hall))

/-- There is no lock but for the targets of the jobs. -/
theorem unlocked_of_other {st st' : ObjectStore} {root : String} {jobs : List Job}
    (hnone : ∀ target, st.find? (lockKey root target) = none)
    (hframe : ∀ k, (∀ job ∈ jobs, k ≠ lockKey root job.target) →
      (∀ name ∈ partNames, k ≠ contentKey root name) → st'.find? k = st.find? k)
    {target : String} (hother : ∀ job ∈ jobs, target ≠ job.target) :
    (∀ job ∈ jobs, lockKey root target ≠ lockKey root job.target) ∧
      st'.find? (lockKey root target) = none := by
  have hne : ∀ job ∈ jobs, lockKey root target ≠ lockKey root job.target :=
    fun job hjob heq => hother job hjob (lockKey_right_inj.mp heq)
  refine ⟨hne, ?_⟩
  rw [hframe _ hne fun name hname heq => contentKey_ne_lockKey hname _ heq.symm]
  exact hnone target

section Staged

variable {s : Service} {issuer : Issuer} {st : ObjectStore} {root : String} {jobs : List Job}
  (hs : s.store.IsSound) (hdel : ∀ k, s.store.outage.delete k = false) (hbatch : Batch root jobs)
  (hnone : ∀ target, s.store.find? (lockKey root target) = none) (hlater : Later s.store st)
  (hframe : ∀ k, (∀ job ∈ jobs, k ≠ lockKey root job.target) →
    (∀ name ∈ partNames, k ≠ contentKey root name) → st.find? k = s.store.find? k)
include hs hdel hbatch hnone hlater hframe

/-- A bundle that could not be made: the locks are removed again. -/
theorem fannedOut_unstaged (content : PostContent) (postAt : Option Instant) (delay : Span)
    (cause : StorageError) :
    FannedOut s root jobs content issuer delay
      ((afterStaging root jobs postAt (.error (.storage cause))).exec
        { s with issuer := issuer, store := st }).1
      ((afterStaging root jobs postAt (.error (.storage cause))).exec
        { s with issuer := issuer, store := st }).2 := by
  obtain ⟨st', hrelease, hlater', hframe', hgone⟩ :=
    exec_releaseLocks (s := { s with issuer := issuer, store := st })
      (hlater.isSound hs) (hlater.outage ▸ hdel) hbatch
  rw [afterStaging, Effect.exec_bind_ok hrelease]
  have honly : OnlyBundle root s.store st' := by
    refine ⟨hlater.trans hlater', ?_⟩
    intro k hlock hname
    rw [hframe' k fun job _ => hlock _, hframe k (fun job _ => hlock _) hname]
  refine .unstaged cause st' honly ?_
  intro target
  by_cases hmem : ∃ job ∈ jobs, target = job.target
  · obtain ⟨job, hjob, rfl⟩ := hmem
    exact hgone job hjob
  · obtain ⟨hne, hunlocked⟩ :=
      unlocked_of_other hnone hframe fun job hjob heq => hmem ⟨job, hjob, heq⟩
    rw [hframe' _ hne]
    exact hunlocked

/-- A bundle that was made: each job is queued, or is given up with its lock. -/
theorem fannedOut_staged {content : PostContent} (postAt : Option Instant)
    (hnew : ∀ job ∈ jobs, ∀ r ∈ s.jobs.records, r.jobId ≠ job.jobId) (hholds : Holds st root content)
    (hthere : ∀ job ∈ jobs, st.find? (lockKey root job.target) = some (Utf8.encode job.jobId)) :
    FannedOut s root jobs content issuer (visibilityDelay postAt s.nowInstant)
      ((afterStaging root jobs postAt (.ok ())).exec { s with issuer := issuer, store := st }).1
      ((afterStaging root jobs postAt (.ok ())).exec { s with issuer := issuer, store := st }).2 := by
  obtain ⟨st', hqueue, hlater', hframe', hgone⟩ :=
    exec_queueJobs (s := { s with issuer := issuer, store := st })
      (visibilityDelay postAt s.nowInstant) (hlater.isSound hs) (hlater.outage ▸ hdel) hbatch hnew
  have hanswer : (afterStaging root jobs postAt (.ok ())).exec
      { s with issuer := issuer, store := st } = (answer s root jobs, { s with
        issuer := issuer
        jobs := ⟨s.jobs.records ++ jobs.map (rowOf s)⟩
        messages := mail s (visibilityDelay postAt s.nowInstant) jobs
        store := st' }) := exec_afterStaging hqueue
  rw [hanswer]
  have honly : OnlyBundle root s.store st' := by
    refine ⟨hlater.trans hlater', ?_⟩
    intro k hlock hname
    rw [hframe' k fun job _ _ => hlock _, hframe k (fun job _ => hlock _) hname]
  refine .staged st' honly
    (hholds.of_same fun name hname => hframe' _ fun job _ _ => contentKey_ne_lockKey hname _) ?_ ?_
  · intro job hjob hqueued
    -- the lock of a job that is queued is not among those that are removed
    have hne : ∀ o ∈ jobs, refused s o = true → lockKey root job.target ≠ lockKey root o.target := by
      intro o ho hrefused heq
      have hsame := List.inj_on_of_nodup_map hbatch.targets hjob ho (lockKey_right_inj.mp heq)
      rw [← hsame, hqueued] at hrefused
      cases hrefused
    exact (hframe' _ hne).trans (hthere job hjob)
  · intro target htarget
    by_cases hmem : ∃ job ∈ jobs, target = job.target
    · obtain ⟨job, hjob, rfl⟩ := hmem
      exact hgone job hjob (Bool.of_not_eq_false fun hqueued => htarget job hjob hqueued rfl)
    · obtain ⟨hne, hunlocked⟩ :=
        unlocked_of_other hnone hframe fun job hjob heq => hmem ⟨job, hjob, heq⟩
      rw [hframe' _ fun job hjob _ => hne job hjob]
      exact hunlocked

end Staged

/-- **A post** is as `FannedOut` tells, for every state with fresh identifiers, every set of refused
payloads and every refusal of the store to put objects. -/
theorem fanOut_spec {s : Service} (hs : s.store.IsSound) (hdel : ∀ k, s.store.outage.delete k = false)
    (hfresh : FreshIds s) {userId : String} {targets : List String} (hnodup : targets.Nodup)
    (hsafe : ∀ target ∈ targets, isPathSafe target = true) (content : PostContent)
    (postAt : Option Instant) :
    FannedOut s (rootOf s) (jobsOf s userId targets content postAt) content
      (issuerAfter s targets.length) (visibilityDelay postAt s.nowInstant)
      ((fanOut userId targets content postAt).exec s).1
      ((fanOut userId targets content postAt).exec s).2 := by
  have hbatch : Batch (rootOf s) (jobsOf s userId targets content postAt) :=
    batch_jobsFrom hnodup hsafe
  have hnone : ∀ target, s.store.find? (lockKey (rootOf s) target) = none := fun target =>
    hfresh.keys _ (Nat.le_refl _) _ (startsWith_rootStart _ _)
  have hnew : ∀ job ∈ jobsOf s userId targets content postAt, ∀ r ∈ s.jobs.records,
      r.jobId ≠ job.jobId := by
    intro job hjob r hr
    obtain ⟨k, hle, -, -, hk⟩ := mem_jobsFrom hjob
    rw [hk]
    exact hfresh.jobIds k (by omega) r hr
  rcases hstage : (stageAll (rootOf s) (jobsOf s userId targets content postAt) content).exec
    { s with issuer := issuerAfter s targets.length } with ⟨r, t⟩
  rw [exec_fanOut s userId targets content postAt hstage]
  -- from here on it only matters that these are jobs of one post
  generalize jobsOf s userId targets content postAt = jobs at *
  obtain ⟨hsame, hlater, hframe, hmade, herror⟩ :=
    stageAll_spec (s := { s with issuer := issuerAfter s targets.length }) hs hbatch hstage
  obtain ⟨st, rfl⟩ : ∃ st, t = { s with issuer := issuerAfter s targets.length, store := st } :=
    ⟨_, hsame⟩
  cases r with
  | error e =>
    obtain ⟨cause, rfl⟩ := herror e rfl
    exact fannedOut_unstaged hs hdel hbatch hnone hlater hframe content postAt _ cause
  | ok u =>
    obtain ⟨hholds, hthere⟩ := hmade rfl
    exact fannedOut_staged hs hdel hbatch hnone hlater hframe postAt hnew hholds hthere

/-! ## With and without a credential -/

/-- What an attempt to post content comes to. -/
inductive Posted (s : Service) (content : PostContent) (postAt : Option Instant) :
    Except Error Receipt → Service → Prop
  /-- Nothing is done. -/
  | refused (e : Error) : Posted s content postAt (.error e) s
  /-- The post is made for targets that can be told apart. -/
  | made {r : Except Error Receipt} {s' : Service} (userId : String) (targets : List String)
      (nodup : targets.Nodup) (safe : ∀ target ∈ targets, isPathSafe target = true)
      (fannedOut : FannedOut s (rootOf s) (jobsOf s userId targets content postAt) content
        (issuerAfter s targets.length) (visibilityDelay postAt s.nowInstant) r s') :
      Posted s content postAt r s'

section Posted

variable {s : Service} (hs : s.store.IsSound) (hdel : ∀ k, s.store.outage.delete k = false)
  (hfresh : FreshIds s)
include hs hdel hfresh

theorem posted_of_valid (userId : String) {targets : List String} {content : PostContent}
    (hvalid : validate targets content = .ok ()) (postAt : Option Instant) :
    Posted s content postAt ((fanOut userId targets content postAt).exec s).1
      ((fanOut userId targets content postAt).exec s).2 := by
  obtain ⟨-, hsafe, hnodup, -⟩ := (validate_eq_ok_iff _ _).mp hvalid
  exact .made userId targets hnodup hsafe (fanOut_spec hs hdel hfresh hnodup hsafe content postAt)

theorem submit_posted (request : PostRequest) :
    Posted s request.content request.postAt ((submit request).exec s).1
      ((submit request).exec s).2 := by
  rw [exec_submit]
  split
  · exact .refused _
  split
  · exact .refused _
  rename_i hvalid
  exact posted_of_valid hs hdel hfresh request.credential.userId hvalid request.postAt

theorem submitForUser_posted (userId : String) (targets : List String) (content : PostContent)
    (postAt : Option Instant) :
    Posted s content postAt ((submitForUser userId targets content postAt).exec s).1
      ((submitForUser userId targets content postAt).exec s).2 := by
  rw [exec_submitForUser]
  split
  · exact .refused _
  split
  · exact .refused _
  rename_i hvalid _
  exact posted_of_valid hs hdel hfresh userId hvalid postAt

end Posted

end Syndication.Submission
