import Syndication.Proofs.Pipeline.Preserved

/-!
# Proofs.Pipeline.Growth — what a post adds

A post adds records, messages and objects under identifiers that nothing else has, so what was there
is not touched, and what is new is in order by itself.

## Contents
* `accepted`                               — the posts that were accepted
* `RecordsInOrder.append`, `LettersInOrder.mail`
* `NewJobs`, `afterPost`                   — a post whose bundle was made
* `InOrder.unstaged`, `InOrder.staged`, `InOrder.posted`
-/

namespace Syndication.Pipeline

open ObjectStore Staging Submission

variable {s s' : Service} {posts : List (String × PostContent)}

/-- The post that an answer accepts, with its content. -/
def accepted (content : PostContent) : Except Error Receipt → List (String × PostContent)
  | .ok receipt => [(receipt.rootId, content)]
  | .error _ => []

/-- A post that was not accepted adds at most content. -/
theorem IsKept.issued {k : String} (h : IsKept s k) (n : Nat) {st : ObjectStore} :
    IsKept { s with issuer := issuerAfter s n, store := st } k := by
  rcases h with ⟨i, hi, name, hname, rfl⟩ | hlock
  · refine .inl ⟨i, ?_, name, hname, rfl⟩
    show i < s.issuer.ids + 1 + n
    omega
  · exact .inr hlock

/-- What stands in a store after a post is of the post, or stood there before. -/
theorem isSome_of_onlyBundle {root : String} {st st' : ObjectStore} (h : OnlyBundle root st st')
    {k : String} (hk : (st'.find? k).isSome = true) :
    (∃ name ∈ partNames, k = contentKey root name) ∨ (∃ target, k = lockKey root target) ∨
      (st.find? k).isSome = true := by
  by_cases hname : ∃ name ∈ partNames, k = contentKey root name
  · exact .inl hname
  by_cases hlock : ∃ target, k = lockKey root target
  · exact .inr (.inl hlock)
  · rw [h.frame k (fun target heq => hlock ⟨target, heq⟩) fun name hn heq => hname ⟨name, hn, heq⟩] at hk
    exact .inr (.inr hk)

section Posted

variable {userId : String} {targets : List String} {content : PostContent} {postAt : Option Instant}
  {r : Except Error Receipt}

/-- The parts of an earlier job are not touched. -/
theorem find?_earlier (ho : InOrder s posts) {st : ObjectStore}
    (h : OnlyBundle (rootOf s) s.store st) {row : JobRecord} (hrow : row ∈ s.jobs.records)
    (name : String) :
    st.find? (contentKey row.rootId name) = s.store.find? (contentKey row.rootId name) := by
  apply h.outside
  rw [Bool.eq_false_iff]
  intro hstart
  have hroot := (startsWith_contentKey_iff (ho.records.isName hrow).1.slash
    (isName_idOf s.issuer s.issuer.ids).slash).mp hstart
  exact ho.freshIds.rootIds _ (Nat.le_refl _) row hrow hroot.symm

/-- An earlier job that waits has its parts still. -/
theorem IsOpen.earlier (ho : InOrder s posts) {st : ObjectStore}
    (h : OnlyBundle (rootOf s) s.store st) {row : JobRecord} (hrow : row ∈ s.jobs.records)
    (hopen : IsOpen s posts row) {posts' : List (String × PostContent)}
    (hposts : ∀ q ∈ posts, q ∈ posts') {t : Service} (hstore : t.store = st)
    (hcarriers : t.messages.carriers row.jobId = s.messages.carriers row.jobId) :
    IsOpen t posts' row := by
  obtain ⟨hqueued, hmessage, hlock, c, hc, hholds⟩ := hopen
  refine ⟨hqueued, hcarriers.trans hmessage, ?_, c, hposts _ hc, ?_⟩
  · rw [hstore]
    show (st.find? (contentKey row.rootId (lockStart ++ row.target))).isSome = true
    rw [find?_earlier ho h hrow]
    exact hlock
  · rw [hstore]
    exact hholds.of_same fun name _ => find?_earlier ho h hrow name

/-- A post whose bundle could not be made. -/
theorem InOrder.unstaged (ho : InOrder s posts) {st : ObjectStore} (n : Nat)
    (only : OnlyBundle (rootOf s) s.store st)
    (unlocked : ∀ target, st.find? (lockKey (rootOf s) target) = none) :
    InOrder { s with issuer := issuerAfter s n, store := st } posts where
  sound := only.later.isSound ho.sound
  records := ho.records.of_sameJobs (.refl _) rfl (by show _ ≤ s.issuer.ids + 1 + n; omega)
  letters := ho.letters.of_sameJobs (.refl _) ho.letters.numbered fun m hm _ => ⟨m, hm, rfl⟩
  opened := by
    intro row hrow hopen
    exact (ho.opened row hrow hopen).earlier ho only hrow (fun q hq => hq) rfl rfl
  kept := by
    intro k hk hfound
    rcases isSome_of_onlyBundle only hfound with ⟨name, hname, rfl⟩ | ⟨target, rfl⟩ | hbefore
    · exact .inl ⟨s.issuer.ids, by show _ < s.issuer.ids + 1 + n; omega, name, hname, rfl⟩
    · have hnone := unlocked target
      rw [show st.find? (lockKey (rootOf s) target) = none from hnone] at hfound
      cases hfound
    · exact (ho.kept k hk hbefore).issued n
  posts_nodup := ho.posts_nodup
  posts_drawn := by
    intro q hq
    obtain ⟨i, hi, heq⟩ := ho.posts_drawn q hq
    exact ⟨i, by show _ < s.issuer.ids + 1 + n; omega, heq⟩

/-! ## A post that is made -/

/-- The identifiers of the jobs of a post are drawn after the one of the post. -/
theorem jobId_jobsOf {job : Job} (hjob : job ∈ jobsOf s userId targets content postAt) :
    ∃ n, s.issuer.ids < n ∧ n < s.issuer.ids + 1 + targets.length ∧ job.jobId = s.issuer.idOf n := by
  obtain ⟨n, hle, hlt, -, heq⟩ := mem_jobsFrom hjob
  refine ⟨n, by omega, hlt, ?_⟩
  rw [heq]
  rfl

/-- A record after a post is an earlier one or that of a job of the post. -/
theorem row_cases {jobs : List Job} (hbatch : Batch (rootOf s) jobs) :
    ∀ row ∈ s.jobs.records ++ jobs.map (rowOf s), row ∈ s.jobs.records ∨
      ∃ job ∈ jobs, row.jobId = job.jobId ∧ row.rootId = rootOf s ∧ row.target = job.target := by
  intro row hrow
  rcases List.mem_append.mp hrow with hold | hnew
  · exact .inl hold
  · obtain ⟨job, hjob, rfl⟩ := List.mem_map.mp hnew
    obtain ⟨hid, hroot, htarget⟩ := rowOf_sameJob s job
    exact .inr ⟨job, hjob, hid, hroot.trans (hbatch.rootId job hjob), htarget⟩

/-- Jobs of other identifiers are written behind the others. -/
theorem nodup_rows {jobs : List Job} (hbatch : Batch (rootOf s) jobs) (hunique : s.jobs.HasUniqueIds)
    (hnew : ∀ job ∈ jobs, ∀ row ∈ s.jobs.records, row.jobId ≠ job.jobId) :
    ((s.jobs.records ++ jobs.map (rowOf s)).map (·.jobId)).Nodup := by
  have hrows : (jobs.map (rowOf s)).map (·.jobId) = jobs.map (·.jobId) := by
    rw [List.map_map]
    exact List.map_congr_left fun job _ => (rowOf_sameJob s job).1
  rw [List.map_append, hrows, List.nodup_append]
  refine ⟨hunique, hbatch.jobIds, ?_⟩
  intro id hmem id' hmem' heq
  obtain ⟨row, hrow, rfl⟩ := List.mem_map.mp hmem
  obtain ⟨job, hjob, rfl⟩ := List.mem_map.mp hmem'
  exact hnew job hjob row hrow heq

/-- The records of a post stand behind those of other jobs of other posts. -/
theorem RecordsInOrder.append (ho : InOrder s posts) (nodup : targets.Nodup)
    (safe : ∀ target ∈ targets, isPathSafe target = true) {t : Service}
    (hissuer : t.issuer = issuerAfter s targets.length)
    (hjobs : t.jobs = ⟨s.jobs.records ++
      (jobsOf s userId targets content postAt).map (rowOf s)⟩) : RecordsInOrder t := by
  have hbatch : Batch (rootOf s) (jobsOf s userId targets content postAt) := batch_jobsFrom nodup safe
  have hids : t.issuer.ids = s.issuer.ids + 1 + targets.length := by rw [hissuer]; rfl
  have hidOf : ∀ n, t.issuer.idOf n = s.issuer.idOf n := by intro n; rw [hissuer]; rfl
  have hcases : ∀ row ∈ t.jobs.records, row ∈ s.jobs.records ∨
      ∃ job ∈ jobsOf s userId targets content postAt, row.jobId = job.jobId ∧
        row.rootId = rootOf s ∧ row.target = job.target := hjobs ▸ row_cases hbatch
  have hother : ∀ row ∈ s.jobs.records, row.rootId ≠ rootOf s :=
    ho.freshIds.rootIds _ (Nat.le_refl _)
  constructor
  case unique =>
    unfold JobTable.HasUniqueIds
    rw [hjobs]
    refine nodup_rows hbatch ho.records.unique ?_
    intro job hjob row hrow hid
    obtain ⟨n, hlt, -, hn⟩ := jobId_jobsOf hjob
    exact ho.freshIds.jobIds n (by omega) row hrow (hid.trans hn)
  case jobId =>
    intro row hrow
    rcases hcases row hrow with hold | ⟨job, hjob, hid, -, -⟩
    · obtain ⟨n, hn, heq⟩ := ho.records.jobId row hold
      exact ⟨n, by omega, by rw [hidOf, heq]⟩
    · obtain ⟨n, -, hlt, hn⟩ := jobId_jobsOf hjob
      exact ⟨n, by omega, by rw [hidOf, hid, hn]⟩
  case rootId =>
    intro row hrow
    rcases hcases row hrow with hold | ⟨job, -, -, hroot, -⟩
    · obtain ⟨n, hn, heq⟩ := ho.records.rootId row hold
      exact ⟨n, by omega, by rw [hidOf, heq]⟩
    · exact ⟨s.issuer.ids, by omega, by rw [hidOf, hroot]; rfl⟩
  case target =>
    intro row hrow
    rcases hcases row hrow with hold | ⟨job, hjob, -, -, htarget⟩
    · exact ho.records.target row hold
    · rw [htarget]
      exact hbatch.target job hjob
  case place =>
    -- an earlier job is of another post, and two jobs of one post have two targets
    intro a ha b hb hroot htarget
    rcases hcases a ha with holdA | ⟨jobA, hjobA, hidA, hrootA, htargetA⟩
    · rcases hcases b hb with holdB | ⟨jobB, -, -, hrootB, -⟩
      · exact ho.records.place a holdA b holdB hroot htarget
      · exact absurd (hroot.symm.trans hrootB) (hother a holdA)
    · rcases hcases b hb with holdB | ⟨jobB, hjobB, hidB, -, htargetB⟩
      · exact absurd (hroot.trans hrootA) (hother b holdB)
      · have hsame : jobB = jobA := List.inj_on_of_nodup_map hbatch.targets hjobB hjobA
          (htargetB.symm.trans (htarget.trans htargetA))
        rw [hidA, hidB, hsame]

/-- The messages of a post carry its jobs. -/
theorem LettersInOrder.mail (ho : InOrder s posts) (hcal : ∀ t ∈ postAt, t.InCalendar) {t : Service}
    (hjobs : t.jobs = ⟨s.jobs.records ++
      (jobsOf s userId targets content postAt).map (rowOf s)⟩) {delay : Span}
    (hmessages : t.messages = mail s delay (jobsOf s userId targets content postAt)) :
    LettersInOrder t where
  numbered := hmessages ▸ wellNumbered_mail ho.letters.numbered
  carried := by
    intro m hm hqueue
    obtain ⟨-, new, hnew, hletters⟩ := messages_mail s delay (jobsOf s userId targets content postAt)
    rw [hmessages, hnew] at hm
    rcases List.mem_append.mp hm with hold | hmem
    · obtain ⟨job, hjob, row, hrow, hof⟩ := ho.letters.carried m hold hqueue
      exact ⟨job, hjob, row, hjobs ▸ List.mem_append_left _ hrow, hof⟩
    · obtain ⟨-, job, hjob, -, -, hpayload⟩ := hletters m hmem
      obtain ⟨read, hread⟩ :=
        Job.ofPayload?_payload (mem_jobsOf ho.freshIds hcal hjob).1
      have hpayload : m.payload = job.payload := hpayload
      obtain ⟨hid, hroot, htarget⟩ := rowOf_sameJob s job
      refine ⟨{ job with postAt := read }, by rw [hpayload, hread], rowOf s job, ?_, hid.symm,
        hroot.symm, htarget.symm⟩
      exact hjobs ▸ List.mem_append_right _ (List.mem_map_of_mem hjob)

/-- What an answer accepts is the post, if anything. -/
theorem roots_accepted (content : PostContent) (s : Service) (jobs : List Job) :
    (accepted content (answer s (rootOf s) jobs)).map (·.1) = [] ∨
      (accepted content (answer s (rootOf s) jobs)).map (·.1) = [rootOf s] := by
  unfold answer
  split
  · exact .inl rfl
  · exact .inr rfl

theorem root_accepted {jobs : List Job} {q : String × PostContent}
    (hq : q ∈ accepted content (answer s (rootOf s) jobs)) : q.1 = rootOf s := by
  have hroot : q.1 ∈ (accepted content (answer s (rootOf s) jobs)).map (·.1) := List.mem_map_of_mem hq
  rcases roots_accepted content s jobs with hnone | hone
  · rw [hnone] at hroot
    cases hroot
  · rw [hone] at hroot
    exact List.mem_singleton.mp hroot

/-- A post with a job that is queued is accepted. -/
theorem mem_accepted {jobs : List Job} {job : Job} (hjob : job ∈ jobs) (hqueued : refused s job = false) :
    (rootOf s, content) ∈ accepted content (answer s (rootOf s) jobs) := by
  have hsome : ¬ jobs.all (refused s) = true := by
    rw [List.all_eq_true]
    intro hall
    rw [hall job hjob] at hqueued
    cases hqueued
  rw [answer, if_neg hsome]
  exact List.mem_cons_self

theorem refused_of_open {job : Job} (hopen : (rowOf s job).status.isTerminal = false) :
    refused s job = false := by
  rw [Bool.eq_false_iff]
  intro hrefused
  rw [rowOf_status, if_pos hrefused] at hopen
  cases hopen

/-- The service after a post whose bundle was made. -/
def afterPost (s : Service) (jobs : List Job) (targets : Nat) (delay : Span) (st : ObjectStore) :
    Service :=
  { s with
    issuer := issuerAfter s targets
    jobs := ⟨s.jobs.records ++ jobs.map (rowOf s)⟩
    messages := mail s delay jobs, store := st }

/-- The jobs of a post are new: nothing has their identifiers. -/
structure NewJobs (s : Service) (jobs : List Job) : Prop where
  batch : Batch (rootOf s) jobs
  calendar : ∀ job ∈ jobs, job.InCalendar
  records : ∀ job ∈ jobs, ∀ row ∈ s.jobs.records, row.jobId ≠ job.jobId
  carriers : ∀ job ∈ jobs, s.messages.carriers job.jobId = 0

theorem newJobs_jobsOf (ho : InOrder s posts) (hcal : ∀ t ∈ postAt, t.InCalendar)
    (nodup : targets.Nodup) (safe : ∀ target ∈ targets, isPathSafe target = true) :
    NewJobs s (jobsOf s userId targets content postAt) where
  batch := batch_jobsFrom nodup safe
  calendar := fun _ hjob => (mem_jobsOf ho.freshIds hcal hjob).1
  records := fun _ hjob => (mem_jobsOf ho.freshIds hcal hjob).2.1
  carriers := fun _ hjob => (mem_jobsOf ho.freshIds hcal hjob).2.2

namespace NewJobs

variable {jobs : List Job} {job : Job} {delay : Span} {st : ObjectStore} {n : Nat}

/-- The messages of a post carry no earlier job. -/
theorem carriers_earlier (hnew : NewJobs s jobs) {row : JobRecord} (hrow : row ∈ s.jobs.records) :
    (mail s delay jobs).carriers row.jobId = s.messages.carriers row.jobId := by
  rw [carriers_mail hnew.calendar, Nat.add_eq_left, List.countP_eq_zero]
  intro job hjob hcount
  rw [Bool.and_eq_true, decide_eq_true_eq] at hcount
  exact hnew.records job hjob row hrow hcount.2.symm

/-- A job that is queued is open, with its message and its lock. -/
theorem isOpen (hnew : NewJobs s jobs) (hjob : job ∈ jobs) (hqueued : refused s job = false)
    (holds : Holds st (rootOf s) content)
    (hlock : st.find? (lockKey (rootOf s) job.target) = some (Utf8.encode job.jobId)) :
    IsOpen (afterPost s jobs n delay st)
      (posts ++ accepted content (answer s (rootOf s) jobs)) (rowOf s job) := by
  obtain ⟨hid, hroot, htarget⟩ := rowOf_sameJob s job
  have hroot : (rowOf s job).rootId = rootOf s := hroot.trans (hnew.batch.rootId job hjob)
  constructor
  case queued => rw [rowOf_status, if_neg (by simp [hqueued])]
  case message =>
    show (mail s delay jobs).carriers (rowOf s job).jobId = 1
    rw [hid, carriers_mail hnew.calendar, hnew.carriers job hjob, countP_jobId hnew.batch hjob,
      hqueued]
    rfl
  case lock =>
    rw [lockOf, hroot, htarget]
    exact Option.isSome_iff_exists.mpr ⟨_, hlock⟩
  case content =>
    rw [hroot]
    exact ⟨content, List.mem_append_right _ (mem_accepted hjob hqueued), holds⟩

/-- What stands in the store after a post is kept: it is content, or the lock of a job that is queued,
or it was kept before. -/
theorem isKept (hnew : NewJobs s jobs) (ho : InOrder s posts) (only : OnlyBundle (rootOf s) s.store st)
    (unlocked : ∀ target, (∀ job ∈ jobs, refused s job = false → target ≠ job.target) →
      st.find? (lockKey (rootOf s) target) = none) {k : String}
    (hk : Text.startsWith k bundleStart = true) (hfound : (st.find? k).isSome = true) :
    IsKept (afterPost s jobs n delay st) k := by
  have hdrawn : ∀ i ≤ s.issuer.ids, i < (afterPost s jobs n delay st).issuer.ids := by
    intro i hi
    show i < s.issuer.ids + 1 + n
    omega
  rcases isSome_of_onlyBundle only hfound with ⟨name, hname, rfl⟩ | ⟨target, rfl⟩ | hbefore
  · exact .inl ⟨s.issuer.ids, hdrawn _ (Nat.le_refl _), name, hname, rfl⟩
  · -- a lock that is there is of a job that was queued
    have hqueued : ∃ job ∈ jobs, refused s job = false ∧ target = job.target := by
      apply Classical.byContradiction
      intro hnot
      have hnone := unlocked target fun job hjob hrefused heq => hnot ⟨job, hjob, hrefused, heq⟩
      rw [show st.find? (lockKey (rootOf s) target) = none from hnone] at hfound
      cases hfound
    obtain ⟨job, hjob, hqueued, rfl⟩ := hqueued
    obtain ⟨-, hroot, htarget⟩ := rowOf_sameJob s job
    refine .inr ⟨rowOf s job, List.mem_append_right _ (List.mem_map_of_mem hjob), ?_, ?_⟩
    · rw [rowOf_status, if_neg (by simp [hqueued])]
      rfl
    · rw [lockOf, hroot, htarget, hnew.batch.rootId job hjob]
  · rcases ho.kept k hk hbefore with ⟨i, hi, name, hname, rfl⟩ | ⟨row, hrow, hopen, rfl⟩
    · exact .inl ⟨i, hdrawn i (Nat.le_of_lt hi), name, hname, rfl⟩
    · exact .inr ⟨row, List.mem_append_left _ hrow, hopen, rfl⟩

end NewJobs

/-- The posts that are remembered are different ones. -/
theorem nodup_posts (ho : InOrder s posts) (content : PostContent) (jobs : List Job) :
    ((posts ++ accepted content (answer s (rootOf s) jobs)).map (·.1)).Nodup := by
  rw [List.map_append, List.nodup_append]
  refine ⟨ho.posts_nodup, ?_, ?_⟩
  · rcases roots_accepted content s jobs with hnone | hone
    · rw [hnone]
      exact List.nodup_nil
    · rw [hone]
      exact List.nodup_singleton _
  · intro root hroot root' hroot' heq
    obtain ⟨q, hq, rfl⟩ := List.mem_map.mp hroot
    obtain ⟨q', hq', rfl⟩ := List.mem_map.mp hroot'
    obtain ⟨n, hn, hid⟩ := ho.posts_drawn q hq
    -- an earlier post has an identifier that was drawn before this one
    have hsame := s.issuer.idOf_injective (hid.symm.trans (heq.trans (root_accepted hq')))
    omega

/-- A post whose bundle was made. -/
theorem InOrder.staged (ho : InOrder s posts) (hcal : ∀ t ∈ postAt, t.InCalendar)
    (nodup : targets.Nodup) (safe : ∀ target ∈ targets, isPathSafe target = true) {delay : Span}
    {st : ObjectStore} (only : OnlyBundle (rootOf s) s.store st)
    (holds : Holds st (rootOf s) content)
    (locked : ∀ job ∈ jobsOf s userId targets content postAt, refused s job = false →
      st.find? (lockKey (rootOf s) job.target) = some (Utf8.encode job.jobId))
    (unlocked : ∀ target, (∀ job ∈ jobsOf s userId targets content postAt, refused s job = false →
      target ≠ job.target) → st.find? (lockKey (rootOf s) target) = none) :
    InOrder (afterPost s (jobsOf s userId targets content postAt) targets.length delay st)
      (posts ++ accepted content (answer s (rootOf s) (jobsOf s userId targets content postAt))) := by
  have hnew : NewJobs s (jobsOf s userId targets content postAt) :=
    newJobs_jobsOf ho hcal nodup safe
  constructor
  case sound => exact only.later.isSound ho.sound
  case records => exact .append ho nodup safe rfl rfl
  case letters => exact .mail ho hcal rfl rfl
  case opened =>
    intro row hrow hopen
    rcases List.mem_append.mp hrow with hold | hadded
    · exact (ho.opened row hold hopen).earlier ho only hold (fun q hq => List.mem_append_left _ hq)
        rfl (hnew.carriers_earlier hold)
    · obtain ⟨job, hjob, rfl⟩ := List.mem_map.mp hadded
      have hqueued : refused s job = false := refused_of_open hopen
      exact hnew.isOpen hjob hqueued holds (locked job hjob hqueued)
  case kept => exact fun k hk hfound => hnew.isKept ho only unlocked hk hfound
  case posts_nodup => exact nodup_posts ho _ _
  case posts_drawn =>
    intro q hq
    rcases List.mem_append.mp hq with hold | hadded
    · obtain ⟨n, hn, heq⟩ := ho.posts_drawn q hold
      exact ⟨n, by show _ < s.issuer.ids + 1 + _; omega, heq⟩
    · have hroot : q.1 = s.issuer.idOf s.issuer.ids := root_accepted hadded
      exact ⟨s.issuer.ids, by show _ < s.issuer.ids + 1 + _; omega, hroot⟩

/-- **A post** keeps order, and if it is accepted its content is remembered. -/
theorem InOrder.posted (ho : InOrder s posts) (hcal : ∀ t ∈ postAt, t.InCalendar)
    (h : Posted s content postAt r s') : InOrder s' (posts ++ accepted content r) := by
  cases h with
  | refused e =>
    rw [accepted, List.append_nil]
    exact ho
  | made userId targets nodup safe fannedOut =>
    cases fannedOut with
    | unstaged cause st only unlocked =>
      rw [accepted, List.append_nil]
      exact ho.unstaged targets.length only unlocked
    | staged st only holds locked unlocked =>
      exact ho.staged hcal nodup safe only holds locked unlocked

end Posted

end Syndication.Pipeline
