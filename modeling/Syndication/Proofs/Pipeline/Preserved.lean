import Syndication.Proofs.Pipeline.Order
import Syndication.Proofs.Staging.Collect

/-!
# Proofs.Pipeline.Preserved — order is kept

Whatever is done, records, messages and objects stay in order: when nothing is done to them but that
jobs are taken and given back, when a job ends, and when bundles are swept.

## Contents
* `StillLetters`, `InOrder.still`        — jobs that wait
* `InOrder.ends`, `InOrder.handled`      — what a worker leaves
* `InOrder.swept`                        — what a sweep leaves
-/

namespace Syndication.Pipeline

open ObjectStore Staging

variable {s s' : Service} {r : JobRecord} {posts : List (String × PostContent)}

/-! ## Jobs that wait -/

/-- The messages carry the same jobs, and none was added to the delivery queue. -/
structure StillLetters (t t' : MessageTable) : Prop where
  numbered : t.WellNumbered → t'.WellNumbered
  carriers : ∀ jobId, t'.carriers jobId = t.carriers jobId
  letters : ∀ m' ∈ t'.messages, m'.queue = MessageTable.deliveryQueue →
    ∃ m ∈ t.messages, m.letter = m'.letter

theorem StillLetters.of_sameLetters {t t' : MessageTable} (h : t.SameLetters t') :
    StillLetters t t' where
  numbered := fun hn => hn.sameLetters h
  carriers := h.carriers
  letters := fun _ hm' _ => h.exists_mem hm'

theorem StillLetters.refl (t : MessageTable) : StillLetters t t := .of_sameLetters (.refl t)

theorem idOf_congr {i i' : Issuer} (h : i'.idSeed = i.idSeed) (n : Nat) : i'.idOf n = i.idOf n := by
  rw [Issuer.idOf, Issuer.idOf, h]

theorem RecordsInOrder.of_sameJobs (ho : RecordsInOrder s) (hjobs : SameJobs s.jobs s'.jobs)
    (hseed : s'.issuer.idSeed = s.issuer.idSeed) (hids : s.issuer.ids ≤ s'.issuer.ids) :
    RecordsInOrder s' where
  unique := hjobs.unique ho.unique
  jobId := by
    intro r' hr'
    obtain ⟨r, hr, hsame⟩ := hjobs.exists_mem hr'
    obtain ⟨n, hn, heq⟩ := ho.jobId r hr
    exact ⟨n, by omega, by rw [idOf_congr hseed, hsame.jobId, heq]⟩
  rootId := by
    intro r' hr'
    obtain ⟨r, hr, hsame⟩ := hjobs.exists_mem hr'
    obtain ⟨n, hn, heq⟩ := ho.rootId r hr
    exact ⟨n, by omega, by rw [idOf_congr hseed, hsame.rootId, heq]⟩
  target := by
    intro r' hr'
    obtain ⟨r, hr, hsame⟩ := hjobs.exists_mem hr'
    rw [hsame.target]
    exact ho.target r hr
  place := by
    intro a' ha' b' hb' hroot htarget
    obtain ⟨a, ha, hsameA⟩ := hjobs.exists_mem ha'
    obtain ⟨b, hb, hsameB⟩ := hjobs.exists_mem hb'
    rw [hsameA.rootId, hsameB.rootId] at hroot
    rw [hsameA.target, hsameB.target] at htarget
    rw [hsameA.jobId, hsameB.jobId]
    exact ho.place a ha b hb hroot htarget

/-- Messages that were there before carry jobs that have records. -/
theorem LettersInOrder.of_sameJobs (ho : LettersInOrder s) (hjobs : SameJobs s.jobs s'.jobs)
    (hnumbered : s'.messages.WellNumbered)
    (hletters : ∀ m' ∈ s'.messages.messages, m'.queue = MessageTable.deliveryQueue →
      ∃ m ∈ s.messages.messages, m.letter = m'.letter) : LettersInOrder s' where
  numbered := hnumbered
  carried := by
    intro m' hm' hqueue
    obtain ⟨m, hm, hletter⟩ := hletters m' hm' hqueue
    have hqueue' : m.queue = m'.queue := congrArg Letter.queue hletter
    have hpayload : m.payload = m'.payload := congrArg Letter.payload hletter
    obtain ⟨job, hjob, r, hr, hof⟩ := ho.carried m hm (hqueue'.trans hqueue)
    obtain ⟨r', hr', hsame⟩ := hjobs.symm.exists_mem hr
    refine ⟨job, hpayload ▸ hjob, r', hr', ?_⟩
    exact ⟨hof.jobId.trans hsame.jobId, hof.rootId.trans hsame.rootId, hof.target.trans hsame.target⟩

theorem lockOf_congr {r' : JobRecord} (h : r.SameJob r') : lockOf r' = lockOf r := by
  rw [lockOf, lockOf, h.rootId, h.target]

/-- **Jobs that wait** stay in order, whatever else happens. -/
theorem InOrder.still (ho : InOrder s posts) (hjobs : SameJobs s.jobs s'.jobs)
    (hstatus : ∀ r ∈ s.jobs.records, ∀ r' ∈ s'.jobs.records, r'.jobId = r.jobId →
      r'.status = r.status)
    (hletters : StillLetters s.messages s'.messages) (hbundles : SameBundles s.store s'.store)
    (hseed : s'.issuer.idSeed = s.issuer.idSeed) (hids : s.issuer.ids ≤ s'.issuer.ids) :
    InOrder s' posts where
  sound := hbundles.later.isSound ho.sound
  records := ho.records.of_sameJobs hjobs hseed hids
  letters := ho.letters.of_sameJobs hjobs (hletters.numbered ho.letters.numbered) hletters.letters
  opened := by
    intro r' hr' hopen
    -- the job was open before, with the same lock and the same content
    obtain ⟨r, hr, hsame⟩ := hjobs.exists_mem hr'
    have hsameStatus := hstatus r hr r' hr' hsame.jobId
    obtain ⟨hqueued, hmessage, hlock, c, hc, hholds⟩ := ho.opened r hr (hsameStatus ▸ hopen)
    refine ⟨hsameStatus.trans hqueued, ?_, ?_, c, ?_, ?_⟩
    · rw [hsame.jobId, hletters.carriers]
      exact hmessage
    · rw [lockOf_congr hsame, hbundles.find _ (startsWith_lockOf r)]
      exact hlock
    · rw [hsame.rootId]
      exact hc
    · rw [hsame.rootId]
      exact hholds.of_same fun name _ => hbundles.find _ (startsWith_bundleStart _ _)
  kept := by
    intro k hk hfound
    rw [hbundles.find k hk] at hfound
    rcases ho.kept k hk hfound with ⟨n, hn, name, hname, rfl⟩ | ⟨r, hr, hopen, rfl⟩
    · exact .inl ⟨n, by omega, name, hname, by rw [idOf_congr hseed]⟩
    · obtain ⟨r', hr', hsame⟩ := hjobs.symm.exists_mem hr
      refine .inr ⟨r', hr', ?_, lockOf_congr hsame⟩
      rw [hstatus r hr r' hr' hsame.jobId.symm]
      exact hopen
  posts_nodup := ho.posts_nodup
  posts_drawn := by
    intro q hq
    obtain ⟨n, hn, heq⟩ := ho.posts_drawn q hq
    exact ⟨n, by omega, by rw [idOf_congr hseed, heq]⟩

/-- The records themselves are the ones there were. -/
theorem status_eq_of_jobs (ho : InOrder s posts) (hjobs : s'.jobs = s.jobs) :
    ∀ r ∈ s.jobs.records, ∀ r' ∈ s'.jobs.records, r'.jobId = r.jobId → r'.status = r.status := by
  intro r hr r' hr' hid
  rw [hjobs] at hr'
  rw [JobTable.eq_of_jobId ho.records.unique hr hr' hid]

theorem InOrder.samePosts (ho : InOrder s posts) (hsame : SamePosts s s') : InOrder s' posts :=
  ho.still (hsame.jobs ▸ .refl _) (status_eq_of_jobs ho hsame.jobs) (hsame.messages ▸ .refl _)
    hsame.bundles hsame.idSeed hsame.ids

/-- A change of messages that leaves the delivery queue alone. -/
theorem InOrder.withMessages (ho : InOrder s posts) {t : MessageTable}
    (h : StillLetters s.messages t) : InOrder { s with messages := t } posts :=
  ho.still (.refl _) (status_eq_of_jobs ho rfl) h (.refl _) rfl (Nat.le_refl _)

/-! ## What a worker leaves -/

/-- The job that a held message carries, and its record. -/
theorem carries_eq_false {m : Held} {job : Job} (hheld : IsDelivery s m)
    (hjob : Job.ofPayload? m.payload = some job) {jobId : String} (hne : job.jobId ≠ jobId) :
    ∀ m' ∈ s.messages.messages, m'.id = m.id → m'.letter.carries jobId = false := by
  intro m' hm' hid
  rw [hheld.letter m' hm' hid, Bool.eq_false_iff]
  intro hcarries
  obtain ⟨-, job', hjob', heq⟩ := Letter.carries_iff.mp hcarries
  have hsame : job = job' := Option.some.inj (hjob.symm.trans hjob')
  exact hne (hsame ▸ heq)

/-- A job that has not ended once another has ended is another one, and has its record still. -/
theorem mem_of_open_update {t : JobTable} (hunique : t.HasUniqueIds) (hr : r ∈ t.records)
    {change : JobRecord → JobRecord} (terminal : (change r).status.isTerminal = true) {r' : JobRecord}
    (hr' : r' ∈ (t.update r.jobId change).records) (hopen : r'.status.isTerminal = false) :
    r' ∈ t.records ∧ r'.jobId ≠ r.jobId := by
  obtain ⟨before, hbefore, rfl⟩ := JobTable.mem_update.mp hr'
  by_cases heq : before.jobId = r.jobId
  · rw [if_pos heq, JobTable.eq_of_jobId hunique hr hbefore heq, terminal] at hopen
    cases hopen
  · rw [if_neg heq]
    exact ⟨hbefore, heq⟩

section Ends

variable (ho : InOrder s posts) (hr : r ∈ s.jobs.records)
  (find : ∀ k, Text.startsWith k bundleStart = true →
    s'.store.find? k = if k = lockOf r then none else s.store.find? k)
include ho hr find

/-- Another job keeps what it has when the lock of a job is removed. -/
theorem IsOpen.unlocked {r' : JobRecord} (hmem : r' ∈ s.jobs.records) (hne : r'.jobId ≠ r.jobId)
    (hcarriers : s'.messages.carriers r'.jobId = s.messages.carriers r'.jobId)
    (hopen : IsOpen s posts r') : IsOpen s' posts r' := by
  obtain ⟨hqueued, hmessage, hlock, c, hc, hholds⟩ := hopen
  refine ⟨hqueued, hcarriers.trans hmessage, ?_, c, hc, hholds.of_same ?_⟩
  · -- a lock tells the one job that it is of
    have hother : lockOf r' ≠ lockOf r := fun heq => hne (by rw [ho.records.eq_of_lock hr hmem heq])
    rw [find _ (startsWith_lockOf r'), if_neg hother]
    exact hlock
  · intro name hname
    have hother : contentKey r'.rootId name ≠ lockOf r := fun heq =>
      lockKey_ne_contentKey (ho.records.isName hmem).1.slash hname r.target heq.symm
    rw [find _ (startsWith_bundleStart _ _), if_neg hother]

/-- What is left when the lock of a job is removed belongs to other jobs, or is content. -/
theorem isKept_unlocked {change : JobRecord → JobRecord} (jobs : s'.jobs = s.jobs.update r.jobId change)
    (issuer : s'.issuer = s.issuer) {k : String} (hk : Text.startsWith k bundleStart = true)
    (hfound : (s'.store.find? k).isSome = true) : IsKept s' k := by
  rw [find k hk] at hfound
  split at hfound
  · cases hfound
  rename_i hne
  rcases ho.kept k hk hfound with ⟨n, hn, name, hname, rfl⟩ | ⟨other, hother, hopen, rfl⟩
  · exact .inl ⟨n, by rw [issuer]; exact hn, name, hname, by rw [issuer]⟩
  · refine .inr ⟨other, ?_, hopen, rfl⟩
    rw [jobs]
    refine JobTable.mem_update.mpr ⟨other, hother, (if_neg fun heq => hne ?_).symm⟩
    rw [JobTable.eq_of_jobId ho.records.unique hr hother heq]

/-- **A job that ends** takes its lock and at most its own message with it. -/
theorem InOrder.ends {m : Held} {job : Job} (hheld : IsDelivery s m)
    (hjob : Job.ofPayload? m.payload = some job) (hof : job.IsOf r)
    (change : JobRecord → JobRecord) (sameJob : ∀ r', JobRecord.SameJob r' (change r'))
    (terminal : (change r).status.isTerminal = true) (jobs : s'.jobs = s.jobs.update r.jobId change)
    (messages : Worker.MayAcknowledge m s.messages s'.messages) (later : Later s.store s'.store)
    (issuer : s'.issuer = s.issuer) : InOrder s' posts := by
  have hjobs : SameJobs s.jobs s'.jobs := jobs ▸ sameJobs_update sameJob
  constructor
  case sound => exact later.isSound ho.sound
  case records =>
    exact ho.records.of_sameJobs hjobs (by rw [issuer]) (issuer ▸ Nat.le_refl _)
  case letters =>
    exact ho.letters.of_sameJobs hjobs (messages.wellNumbered ho.letters.numbered)
      fun m' hm' _ => ⟨m', messages.mem hm', rfl⟩
  case opened =>
    intro r' hr' hopen
    obtain ⟨hmem, hne⟩ := mem_of_open_update ho.records.unique hr terminal (jobs ▸ hr') hopen
    have hother : job.jobId ≠ r'.jobId := fun heq => hne (heq.symm.trans hof.jobId)
    exact (ho.opened r' hmem hopen).unlocked ho hr find hmem hne
      (messages.carriers (carries_eq_false hheld hjob hother))
  case kept => exact fun k hk hfound => isKept_unlocked ho hr find jobs issuer hk hfound
  case posts_nodup => exact ho.posts_nodup
  case posts_drawn =>
    rw [issuer]
    exact ho.posts_drawn

end Ends

/-- **Handling a message** keeps order. -/
theorem InOrder.handled (ho : InOrder s posts) (hget : ∀ k, s.store.outage.get k = false)
    (hdelete : ∀ k, s.store.outage.delete k = false) {m : Held} (hheld : IsDelivery s m) :
    InOrder ((Worker.handle m).exec s).2 posts := by
  obtain ⟨job, hjob, r, hr, hof⟩ := hheld.carries
  have hissuer : ((Worker.handle m).exec s).2.issuer = s.issuer := by
    rw [Worker.onlyWork_handle m s]
  cases Worker.handle_spec (ho.ready hget hdelete hr) hof hjob with
  | waits change sameJob status jobs letters bundles =>
    refine ho.still (jobs ▸ sameJobs_update sameJob) ?_ (.of_sameLetters letters) bundles
      (by rw [hissuer]) (hissuer ▸ Nat.le_refl _)
    -- only the record of the job has changed, and it waits as before
    intro r₁ hr₁ r' hr' hid
    rw [jobs] at hr'
    obtain ⟨r₀, hr₀, rfl⟩ := JobTable.mem_update.mp hr'
    split at hid
    · rename_i heq
      rw [if_pos heq]
      have h₀ : r₀ = r := JobTable.eq_of_jobId ho.records.unique hr hr₀ heq
      have h₁ : r₀ = r₁ :=
        JobTable.eq_of_jobId ho.records.unique hr₁ hr₀ ((sameJob r₀).jobId.symm.trans hid)
      rw [← h₁, h₀]
      exact status
    · rename_i hne
      rw [if_neg hne, JobTable.eq_of_jobId ho.records.unique hr₁ hr₀ hid]
  | ends change sameJob terminal jobs messages later find =>
    exact ho.ends hr find hheld hjob hof change sameJob terminal jobs messages later hissuer

/-! ## What a sweep leaves -/

/-- **A sweep** keeps order: it leaves the bundle of a job that has not ended, since that is locked. -/
theorem InOrder.swept (ho : InOrder s posts) {report : Except Error SweepReport} {st : ObjectStore}
    (h : (sweep).exec s.store = (report, st)) : InOrder { s with store := st } posts := by
  obtain ⟨hlater, hfind⟩ := sweep_frame ho.sound h
  have hsame : ∀ r ∈ s.jobs.records, r.status.isTerminal = false → ∀ name,
      st.find? (contentKey r.rootId name) = s.store.find? (contentKey r.rootId name) := by
    intro r hr hopen name
    rcases hfind (contentKey r.rootId name) with hkept | ⟨-, root, hslash, hstart, hunlocked⟩
    · exact hkept
    · have hname := (ho.records.isName hr).1
      obtain rfl := (startsWith_contentKey_iff hname.slash hslash).mp hstart
      -- the bundle is locked for the job, so it was not collected
      have hlock := (ho.opened r hr hopen).lock
      rw [lockOf, hunlocked r.target (ho.records.target r hr)] at hlock
      cases hlock
  have hrecords : RecordsInOrder { s with store := st } :=
    ho.records.of_sameJobs (.refl _) rfl (Nat.le_refl _)
  have hletters : LettersInOrder { s with store := st } :=
    ho.letters.of_sameJobs (.refl _) ho.letters.numbered fun m hm _ => ⟨m, hm, rfl⟩
  refine ⟨hlater.isSound ho.sound, hrecords, hletters, ?_, ?_, ho.posts_nodup, ho.posts_drawn⟩
  · intro r hr hopen
    obtain ⟨hqueued, hmessage, hlock, c, hc, hholds⟩ := ho.opened r hr hopen
    refine ⟨hqueued, hmessage, ?_, c, hc, hholds.of_same fun name _ => hsame r hr hopen name⟩
    show (st.find? (contentKey r.rootId (lockStart ++ r.target))).isSome = true
    rw [hsame r hr hopen]
    exact hlock
  · intro k hk hfound
    apply ho.kept k hk
    rcases hfind k with heq | ⟨hnone, -⟩
    · rwa [heq] at hfound
    · rw [hnone] at hfound
      cases hfound

end Syndication.Pipeline
