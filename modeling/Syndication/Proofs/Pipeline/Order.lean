import Syndication.Proofs.Submission.FanOut
import Syndication.Proofs.Trigger.Firing
import Syndication.Proofs.Worker.Handling

/-!
# Proofs.Pipeline.Order — records, messages and objects that belong together

Records, messages and objects are kept in three places that change one after the other. They are in
order when each job that has not ended has all three of its parts, and there is no part without a job.
What a holder has in hand stays a message of a job while the rest goes on.

## Contents
* `lockOf`, `SameJobs`
* `RecordsInOrder`, `LettersInOrder`, `IsOpen`, `IsKept`, `InOrder`
* `IsDelivery`, `IsEvent`, `Grows`  — what is held
* `freshIds`, `ready`               — what order gives the operations
-/

namespace Syndication.Pipeline

open ObjectStore Staging

/-- The lock of a job. -/
def lockOf (r : JobRecord) : String := lockKey r.rootId r.target

/-- The records of the tables are of the same jobs, one by one. -/
def SameJobs (t t' : JobTable) : Prop :=
  t'.records.map (fun r => (r.jobId, r.rootId, r.target)) =
    t.records.map fun r => (r.jobId, r.rootId, r.target)

theorem SameJobs.refl (t : JobTable) : SameJobs t t := rfl

theorem SameJobs.symm {t t' : JobTable} (h : SameJobs t t') : SameJobs t' t := Eq.symm h

/-- A change of one record that keeps its job. -/
theorem sameJobs_update {t : JobTable} {jobId : String} {change : JobRecord → JobRecord}
    (h : ∀ r, JobRecord.SameJob r (change r)) : SameJobs t (t.update jobId change) := by
  unfold SameJobs
  rw [JobTable.update, List.map_map]
  apply List.map_congr_left
  intro r _
  show (fun r : JobRecord => (r.jobId, r.rootId, r.target)) (if r.jobId = jobId then change r else r) = _
  split
  · simp only [(h r).jobId, (h r).rootId, (h r).target]
  · rfl

theorem SameJobs.exists_mem {t t' : JobTable} (h : SameJobs t t') {r' : JobRecord}
    (hr' : r' ∈ t'.records) : ∃ r ∈ t.records, r.SameJob r' := by
  have hmem := List.mem_map_of_mem (f := fun r : JobRecord => (r.jobId, r.rootId, r.target)) hr'
  unfold SameJobs at h
  rw [h] at hmem
  obtain ⟨r, hr, heq⟩ := List.mem_map.mp hmem
  simp only [Prod.mk.injEq] at heq
  exact ⟨r, hr, heq.1.symm, heq.2.1.symm, heq.2.2.symm⟩

theorem SameJobs.unique {t t' : JobTable} (h : SameJobs t t') (hu : t.HasUniqueIds) :
    t'.HasUniqueIds := by
  have hids : ∀ u : JobTable, u.records.map (·.jobId) =
      (u.records.map fun r => (r.jobId, r.rootId, r.target)).map (·.1) := by
    intro u
    rw [List.map_map]
    rfl
  unfold JobTable.HasUniqueIds at hu ⊢
  unfold SameJobs at h
  rwa [hids, h, ← hids]

/-! ## Order -/

/-- Identifiers tell records apart, and so do the post and the target. All identifiers were drawn. -/
structure RecordsInOrder (s : Service) : Prop where
  unique : s.jobs.HasUniqueIds
  jobId : ∀ r ∈ s.jobs.records, ∃ n < s.issuer.ids, r.jobId = s.issuer.idOf n
  rootId : ∀ r ∈ s.jobs.records, ∃ n < s.issuer.ids, r.rootId = s.issuer.idOf n
  target : ∀ r ∈ s.jobs.records, isPathSafe r.target = true
  place : ∀ r ∈ s.jobs.records, ∀ r' ∈ s.jobs.records, r'.rootId = r.rootId → r'.target = r.target →
    r'.jobId = r.jobId

/-- Every message of the delivery queue carries a job that has a record. -/
structure LettersInOrder (s : Service) : Prop where
  numbered : s.messages.WellNumbered
  carried : ∀ m ∈ s.messages.messages, m.queue = MessageTable.deliveryQueue →
    ∃ job, Job.ofPayload? m.payload = some job ∧ ∃ r ∈ s.jobs.records, job.IsOf r

/-- What there is of a job that has not ended: it waits, one message carries it, its lock is there, and
so is the content that was posted. -/
structure IsOpen (s : Service) (posts : List (String × PostContent)) (r : JobRecord) : Prop where
  queued : r.status = .queued
  message : s.messages.carriers r.jobId = 1
  lock : (s.store.find? (lockOf r)).isSome = true
  content : ∃ c, (r.rootId, c) ∈ posts ∧ Holds s.store r.rootId c

/-- An object that may stand among the bundles: content of a post, or the lock of a job that has not
ended. -/
def IsKept (s : Service) (k : String) : Prop :=
  (∃ n < s.issuer.ids, ∃ name ∈ partNames, k = contentKey (s.issuer.idOf n) name) ∨
    ∃ r ∈ s.jobs.records, r.status.isTerminal = false ∧ k = lockOf r

/-- **Order.** Each job that has not ended has its parts, and there is no part without a job. The posts
are those that were accepted, with their content. -/
structure InOrder (s : Service) (posts : List (String × PostContent)) : Prop where
  sound : s.store.IsSound
  records : RecordsInOrder s
  letters : LettersInOrder s
  opened : ∀ r ∈ s.jobs.records, r.status.isTerminal = false → IsOpen s posts r
  kept : ∀ k, Text.startsWith k bundleStart = true → (s.store.find? k).isSome = true → IsKept s k
  posts_nodup : (posts.map (·.1)).Nodup
  posts_drawn : ∀ q ∈ posts, ∃ n < s.issuer.ids, q.1 = s.issuer.idOf n

/-- A message of the delivery queue in the hands of a worker. It may have been taken again since, or
be gone. -/
structure IsDelivery (s : Service) (h : Held) : Prop where
  number : h.id < s.messages.nextId
  carries : ∃ job, Job.ofPayload? h.payload = some job ∧ ∃ r ∈ s.jobs.records, job.IsOf r
  letter : ∀ m ∈ s.messages.messages, m.id = h.id →
    m.letter = ⟨h.id, MessageTable.deliveryQueue, h.payload⟩

/-- A message of the trigger queue in somebody's hands. -/
structure IsEvent (s : Service) (h : Held) : Prop where
  number : h.id < s.messages.nextId
  queue : ∀ m ∈ s.messages.messages, m.id = h.id → m.queue = MessageTable.triggerQueue

/-- No record goes away, and no message takes the number of another. -/
structure Grows (s s' : Service) : Prop where
  records : ∀ r ∈ s.jobs.records, ∃ r' ∈ s'.jobs.records, r.SameJob r'
  nextId : s.messages.nextId ≤ s'.messages.nextId
  letters : ∀ m' ∈ s'.messages.messages, (∃ m ∈ s.messages.messages, m.letter = m'.letter) ∨
    s.messages.nextId ≤ m'.id

section

variable {s s' : Service} {h : Held} {r : JobRecord} {posts : List (String × PostContent)}

theorem IsOf.sameJob {job : Job} {r' : JobRecord} (hof : job.IsOf r) (hsame : r.SameJob r') :
    job.IsOf r' :=
  ⟨hof.jobId.trans hsame.jobId.symm, hof.rootId.trans hsame.rootId.symm,
    hof.target.trans hsame.target.symm⟩

theorem IsDelivery.grows (hh : IsDelivery s h) (hgrows : Grows s s') : IsDelivery s' h where
  number := Nat.lt_of_lt_of_le hh.number hgrows.nextId
  carries := by
    obtain ⟨job, hjob, r, hr, hof⟩ := hh.carries
    obtain ⟨r', hr', hsame⟩ := hgrows.records r hr
    exact ⟨job, hjob, r', hr', IsOf.sameJob hof hsame⟩
  letter := by
    intro m' hm' hid
    rcases hgrows.letters m' hm' with ⟨m, hm, hletter⟩ | hnew
    · rw [← hletter]
      exact hh.letter m hm ((congrArg Letter.id hletter).trans hid)
    · have := hh.number
      omega

theorem IsEvent.grows (hh : IsEvent s h) (hgrows : Grows s s') : IsEvent s' h where
  number := Nat.lt_of_lt_of_le hh.number hgrows.nextId
  queue := by
    intro m' hm' hid
    rcases hgrows.letters m' hm' with ⟨m, hm, hletter⟩ | hnew
    · have hqueue : m.queue = m'.queue := congrArg Letter.queue hletter
      rw [← hqueue]
      exact hh.queue m hm ((congrArg Letter.id hletter).trans hid)
    · have := hh.number
      omega

/-! ## What order gives -/

theorem RecordsInOrder.isName (ho : RecordsInOrder s) (hr : r ∈ s.jobs.records) :
    IsName r.rootId ∧ isPathSafe r.rootId = true := by
  obtain ⟨n, -, hn⟩ := ho.rootId r hr
  rw [hn]
  exact ⟨isName_idOf s.issuer n, s.issuer.isPathSafe_idOf n⟩

/-- One lock is of one job. -/
theorem RecordsInOrder.eq_of_lock (ho : RecordsInOrder s) {r' : JobRecord} (hr : r ∈ s.jobs.records)
    (hr' : r' ∈ s.jobs.records) (heq : lockOf r' = lockOf r) : r' = r := by
  obtain ⟨hroot, htarget⟩ := (lockKey_inj (ho.isName hr).1 (ho.target r hr)).mp heq
  exact JobTable.eq_of_jobId ho.unique hr hr' (ho.place r hr r' hr' hroot htarget)

theorem startsWith_lockOf (r : JobRecord) : Text.startsWith (lockOf r) bundleStart = true :=
  startsWith_bundleStart _ _

/-- A job that has ended has no lock. -/
theorem InOrder.unlocked (ho : InOrder s posts) (hr : r ∈ s.jobs.records)
    (hended : r.status.isTerminal = true) : s.store.find? (lockOf r) = none := by
  rw [← Option.not_isSome_iff_eq_none]
  intro hlock
  rcases ho.kept _ (startsWith_lockOf r) hlock with ⟨n, -, name, hname, heq⟩ | ⟨r', hr', hopen, heq⟩
  · exact lockKey_ne_contentKey (isName_idOf s.issuer n).slash hname r.target heq
  · rw [ho.records.eq_of_lock hr' hr heq, hopen] at hended
    cases hended

/-- **Order makes identifiers fresh**: those that are still to be drawn are used nowhere. -/
theorem InOrder.freshIds (ho : InOrder s posts) : Submission.FreshIds s where
  jobIds := by
    intro n hn r hr heq
    obtain ⟨k, hk, hid⟩ := ho.records.jobId r hr
    have := s.issuer.idOf_injective (hid.symm.trans heq)
    omega
  rootIds := by
    intro n hn r hr heq
    obtain ⟨k, hk, hid⟩ := ho.records.rootId r hr
    have := s.issuer.idOf_injective (hid.symm.trans heq)
    omega
  messages := by
    intro n hn
    unfold MessageTable.carriers
    rw [List.countP_eq_zero]
    intro m hm hcarries
    obtain ⟨hqueue, job, hjob, hid⟩ := Letter.carries_iff.mp hcarries
    obtain ⟨job', hjob', r, hr, hof⟩ := ho.letters.carried m hm hqueue
    obtain ⟨k, hk, heq⟩ := ho.records.jobId r hr
    have hsame : job = job' := Option.some.inj (hjob.symm.trans hjob')
    rw [hsame, hof.jobId, heq] at hid
    have := s.issuer.idOf_injective hid
    omega
  keys := by
    intro n hn k hk
    obtain ⟨rest, rfl⟩ := Text.startsWith_iff.mp hk
    have hslash : ∀ n, '/' ∉ (s.issuer.idOf n).toList := fun n => (isName_idOf s.issuer n).slash
    rw [← Option.not_isSome_iff_eq_none]
    intro hfound
    -- whatever is kept is of a post whose identifier was drawn before
    rcases ho.kept _ (startsWith_bundleStart _ rest) hfound with
      ⟨i, hi, name, -, heq⟩ | ⟨r, hr, -, heq⟩
    · rw [← contentKey_eq, heq, startsWith_contentKey_iff (hslash i) (hslash n)] at hk
      have := s.issuer.idOf_injective hk
      omega
    · obtain ⟨i, hi, hroot⟩ := ho.records.rootId r hr
      rw [← contentKey_eq, heq, lockOf, lockKey, hroot,
        startsWith_contentKey_iff (hslash i) (hslash n)] at hk
      have := s.issuer.idOf_injective hk
      omega

/-- Order lets a worker attempt any job. -/
theorem InOrder.ready (ho : InOrder s posts) (hget : ∀ k, s.store.outage.get k = false)
    (hdelete : ∀ k, s.store.outage.delete k = false) (hr : r ∈ s.jobs.records) :
    Worker.Ready s r where
  unique := ho.records.unique
  found := (JobTable.get?_eq_some_iff ho.records.unique).mpr ⟨hr, rfl⟩
  sound := ho.sound
  get := hget
  delete := hdelete
  isName := (ho.records.isName hr).1
  safe := (ho.records.isName hr).2
  target := ho.records.target r hr
  waits := by
    intro hopen
    obtain ⟨hqueued, -, -, c, -, hholds⟩ := ho.opened r hr hopen
    exact ⟨hqueued, c, hholds⟩

end

end Syndication.Pipeline
