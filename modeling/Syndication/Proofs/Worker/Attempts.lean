import Mathlib.Data.Finset.Prod
import Syndication.Proofs.Queue.Takings
import Syndication.Proofs.Worker.Shift

/-!
# Proofs.Worker.Attempts — retries are bounded

However many workers there are and however late they handle what they took, a message leads to few
calls of a platform, and a job is delivered for good once at most. Two things carry this. Takings of a
message that were not given back have different numbers, so few of them are within the budget; and a
record that says that its job has ended is never changed.

## Contents
* `callsFor`, `callsOfJob`
* `Inv`, `inv_start`, `inv_step`, `inv_run`
* `Inv.uncounted`                     — deferrals
* `callsFor_le`                       — calls of a message
* `hasEnded_run`, `countP_final_le_one` — calls of a job
* `run_attempts`                      — the bounds
-/

namespace Syndication.Worker.Shift

open MessageTable

variable {s : Service} {w w' : Shift} {m : Held}

/-- How many calls a message has led to. -/
def callsFor (w : Shift) (id : Nat) : Nat := w.calls.countP (·.held.id = id)

/-- The calls for a job, in order. -/
def callsOfJob (w : Shift) (jobId : String) : List Call := w.calls.filter (·.jobId = jobId)

/-- **The invariant of a run** from a service. -/
structure Inv (s : Service) (w : Shift) : Prop where
  maxAttempts : w.service.settings.maxAttempts = s.settings.maxAttempts
  unique : w.service.jobs.HasUniqueIds
  accounts : ∃ number,
    Accounts s.messages.countOf number w.service.messages w.takings w.returned
  /-- A taking waits, or has led to a call, or was given back, and only one of these. -/
  once : ∀ h, w.waiting.count h + (w.calls.map (·.held)).count h + w.returned.count h ≤
    w.takings.count h
  budget : ∀ c ∈ w.calls, c.held.dequeueCount ≤ s.settings.maxAttempts
  ended : ∀ c ∈ w.calls, c.result.isTransient = false → w.service.jobs.HasEnded c.jobId
  last : w.calls.Pairwise fun c c' => c'.jobId = c.jobId → c.result.isTransient = true

theorem inv_start (hunique : s.jobs.HasUniqueIds) (hnumbered : s.messages.WellNumbered) :
    Inv s { service := s } where
  maxAttempts := rfl
  unique := hunique
  accounts := ⟨_, .start hnumbered⟩
  once := fun _ => Nat.le_refl _
  budget := fun _ hc => nomatch hc
  ended := fun _ hc => nomatch hc
  last := .nil

/-! ## Steps -/

/-- A taking that waits was not given back. -/
theorem Inv.waits_mem (h : Inv s w) (hm : m ∈ w.waiting) :
    m ∈ w.takings ∧ m ∉ w.returned := by
  obtain ⟨number, ha⟩ := h.accounts
  have honce := h.once m
  have hwaits := List.count_pos_iff.mpr hm
  have hnodup := List.nodup_iff_count_le_one.mp ha.nodup m
  exact ⟨List.count_pos_iff.mp (by omega), List.count_eq_zero.mp (by omega)⟩

theorem count_erase_add {l : List Held} (hm : m ∈ l) (h : Held) :
    (l.erase m).count h + [m].count h = l.count h := by
  rw [(List.perm_cons_erase hm).count_eq h, List.count_cons, List.count_cons, List.count_nil, Nat.zero_add]

/-- The accounts after a message was handled. -/
theorem accounts_worked {initial : Nat → Nat} {number : Held → Nat} {takings returned : List Held}
    {calls : List Call} {back : List Held} {s' : Service}
    (ha : Accounts initial number s.messages takings returned) (hm : m ∈ takings)
    (hnot : m ∉ returned) (h : Worked m s calls back s') :
    Accounts initial number s'.messages takings (returned ++ back) := by
  have hack : MayAcknowledge m s.messages s'.messages →
      Accounts initial number s'.messages takings returned := by
    rintro (heq | heq)
    · rw [heq]
      exact ha
    · rw [heq]
      exact ha.acknowledged m
  cases h with
  | silent moves messages =>
    rw [List.append_nil]
    exact hack messages
  | putOff delay jobs messages =>
    rw [messages]
    split
    · rename_i hheld
      exact ha.givenBack hm hnot hheld _ _
    · -- the receipt is an old one
      rename_i hnotHeld
      rw [List.append_nil]
      exact ha.deferred m _ _ (.inr (by simpa using hnotHeld))
  | called jobId result budget opened moves ends messages =>
    rw [List.append_nil]
    rcases messages with hmay | ⟨delay, hdeferred⟩
    · exact hack hmay
    · rw [hdeferred]
      exact ha.deferred m _ _ (.inl rfl)

/-- **A message is handled**, and the invariant is kept. -/
theorem Inv.handled (h : Inv s w) (hm : m ∈ w.waiting) {calls : List Call} {back : List Held}
    {s' : Service} (hmax : s'.settings.maxAttempts = w.service.settings.maxAttempts)
    (hworked : Worked m w.service calls back s') :
    Inv s ⟨s', w.waiting.erase m, w.takings, w.returned ++ back, w.calls ++ calls⟩ where
  maxAttempts := hmax.trans h.maxAttempts
  unique := hworked.moves.hasUniqueIds h.unique
  accounts := by
    obtain ⟨number, ha⟩ := h.accounts
    obtain ⟨htaken, hnotBack⟩ := h.waits_mem hm
    exact ⟨number, accounts_worked ha htaken hnotBack hworked⟩
  once := by
    intro g
    have honce := h.once g
    have herased := count_erase_add hm g
    have hadded := hworked.count_le g
    simp only [List.map_append, List.count_append]
    omega
  budget := by
    intro c hc
    rcases List.mem_append.mp hc with hold | hnew
    · exact h.budget c hold
    · exact h.maxAttempts ▸ hworked.budget c hnew
  ended := by
    intro c hc hfinal
    rcases List.mem_append.mp hc with hold | hnew
    · exact hworked.moves.hasEnded (h.ended c hold hfinal)
    · exact hworked.hasEnded c hnew hfinal
  last := by
    refine List.pairwise_append.mpr ⟨h.last, ?_, ?_⟩
    · have hlength := hworked.length_calls
      match calls, hlength with
      | [], _ => exact .nil
      | [c], _ => exact List.pairwise_singleton _ _
    · intro c hold c' hnew hjob
      -- a call that was final has ended the job, which would not be called again
      by_contra hfinal
      rw [Bool.not_eq_true] at hfinal
      exact hworked.not_hasEnded h.unique c' hnew (hjob ▸ h.ended c hold hfinal)

theorem maxAttempts_handle (m : Held) (s : Service) :
    ((handle m).exec s).2.settings.maxAttempts = s.settings.maxAttempts := by
  have honly := onlyWork_handle m s
  rw [OnlyWork] at honly
  rw [honly]

theorem Inv.taken (h : Inv s w) (max : Nat) (hideFor : Span) : Inv s (w.afterTaking max hideFor) := by
  obtain ⟨number, ha⟩ := h.accounts
  refine ⟨h.maxAttempts, h.unique, ⟨_, ha.taken (ha.wellNumbered.sameLetters
    (sameLetters_dequeue deliveryQueue w.service.now max hideFor))
    (takes_dequeue ha.wellNumbered deliveryQueue w.service.now max hideFor)⟩, ?_, h.budget, h.ended,
    h.last⟩
  intro g
  have honce := h.once g
  simp only [afterTaking, List.count_append]
  omega

/-- The invariant where the messages and the calls are as they were. -/
theorem Inv.still (h : Inv s w) {s' : Service}
    (hmax : s'.settings.maxAttempts = w.service.settings.maxAttempts)
    (hunique : s'.jobs.HasUniqueIds)
    (hended : ∀ jobId, w.service.jobs.HasEnded jobId → s'.jobs.HasEnded jobId)
    (hmessages : s'.messages = w.service.messages) : Inv s { w with service := s' } where
  maxAttempts := hmax.trans h.maxAttempts
  unique := hunique
  accounts := hmessages ▸ h.accounts
  once := h.once
  budget := h.budget
  ended := fun c hc hfinal => hended c.jobId (h.ended c hc hfinal)
  last := h.last

theorem inv_step (h : Inv s w) (hstep : Step w w') : Inv s w' := by
  cases hstep with
  | take max hideFor => exact h.taken max hideFor
  | work m waits => exact h.handled waits (maxAttempts_handle m _) (worked_handle m _)
  | mail queue payload delay =>
    rw [Service.exec_enqueue]
    split
    · exact h
    · obtain ⟨number, ha⟩ := h.accounts
      exact ⟨h.maxAttempts, h.unique, ⟨number, ha.mailed queue payload _ delay⟩, h.once, h.budget,
        h.ended, h.last⟩
  | record r =>
    obtain ⟨hunique, hended⟩ := JobTable.insert_spec r h.unique
    exact h.still rfl hunique hended rfl
  | surroundings s' same =>
    exact h.still same.maxAttempts (same.jobs ▸ h.unique) (fun _ hended => same.jobs ▸ hended)
      same.messages

/-- **The invariant holds after every run.** -/
theorem inv_run (h : Inv s w) (hrun : Run w w') : Inv s w' := by
  induction hrun with
  | refl => exact h
  | tail _ hstep ih => exact inv_step ih hstep

/-! ## Deferrals -/

/-- **A job that is not delivered yet** leaves its message with one taking less than it counted, if it is
put off by who holds the latest receipt. -/
theorem Inv.uncounted (h : Inv s w) (hm : m ∈ w.waiting) {secs : Int}
    (hwait : courseOf m w.service = .wait secs) :
    ∀ held ∈ w.service.messages.messages, isHeld m held = true →
      ∃ held' ∈ (w.afterHandling m).service.messages.messages,
        held'.id = held.id ∧ held'.dequeueCount + 1 = held.dequeueCount := by
  intro held hmem hheld
  obtain ⟨number, ha⟩ := h.accounts
  obtain ⟨htaken, hnot⟩ := h.waits_mem hm
  -- the taking is counted, since its number is positive and is the count
  have hpos : 0 < held.dequeueCount := ha.latest held hmem m htaken hnot hheld ▸ ha.pos m htaken
  have hmessages : (w.afterHandling m).service.messages =
      (w.service.messages.defer m w.service.now (.ofSecs secs.toNat) false).2 := by
    show ((handle m).exec w.service).2.messages = _
    rw [exec_handle, hwait]
    rfl
  rw [hmessages]
  refine ⟨_, List.mem_map_of_mem hmem, ?_⟩
  rw [if_pos hheld]
  exact ⟨rfl, Nat.sub_add_cancel hpos⟩

/-! ## Calls of a message -/

/-- Of the numbers up to a bound, few leave a small rest. -/
theorem length_le_of_mod {numbers : List Nat} {bound step most : Nat} (hnodup : numbers.Nodup)
    (h : ∀ n ∈ numbers, 0 < n ∧ n ≤ bound ∧ n % step ≤ most) :
    numbers.length ≤ most + (most + 1) * (bound / step) := by
  -- a number is told by its quotient and its rest, and zero is not among them
  have hsub : numbers.toFinset ⊆
      ((Finset.range (bound / step + 1) ×ˢ Finset.range (most + 1)).erase (0, 0)).image
        fun p => step * p.1 + p.2 := by
    intro n hn
    obtain ⟨hpos, hle, hmod⟩ := h n (List.mem_toFinset.mp hn)
    have hparts : step * (n / step) + n % step = n := Nat.div_add_mod n step
    refine Finset.mem_image.mpr ⟨(n / step, n % step), ?_, hparts⟩
    rw [Finset.mem_erase, Finset.mem_product, Finset.mem_range, Finset.mem_range]
    refine ⟨?_, Nat.lt_succ_of_le (Nat.div_le_div_right hle), Nat.lt_succ_of_le hmod⟩
    intro hzero
    obtain ⟨hquotient, hrest⟩ := Prod.mk.inj hzero
    rw [hquotient, hrest] at hparts
    omega
  have hcard := (Finset.card_le_card hsub).trans Finset.card_image_le
  rw [List.toFinset_card_of_nodup hnodup, Finset.card_erase_of_mem (by simp), Finset.card_product,
    Finset.card_range, Finset.card_range] at hcard
  have hproduct : (bound / step + 1) * (most + 1) = (most + 1) * (bound / step) + most + 1 := by
    rw [Nat.add_one_mul, Nat.mul_comm]
    rfl
  omega

/-- A taking is given back only where it has led to no call. -/
theorem Inv.held_mem (h : Inv s w) {c : Call} (hc : c ∈ w.calls) :
    c.held ∈ w.takings ∧ c.held ∉ w.returned := by
  obtain ⟨number, ha⟩ := h.accounts
  have honce := h.once c.held
  have hone := List.nodup_iff_count_le_one.mp ha.nodup c.held
  have hcalled : 0 < (w.calls.map (·.held)).count c.held :=
    List.count_pos_iff.mpr (List.mem_map.mpr ⟨c, hc, rfl⟩)
  exact ⟨List.count_pos_iff.mp (by omega), List.count_eq_zero.mp (by omega)⟩

/-- A taking has led to one call at most. -/
theorem Inv.nodup_calls (h : Inv s w) : (w.calls.map (·.held)).Nodup := by
  obtain ⟨number, ha⟩ := h.accounts
  apply List.nodup_iff_count_le_one.mpr
  intro g
  have honce := h.once g
  have hone := List.nodup_iff_count_le_one.mp ha.nodup g
  omega

/-- **Calls of a message** were made by different takings, whose numbers are different and within the
budget. -/
theorem callsFor_le (h : Inv s w) (id : Nat) :
    w.callsFor id ≤ s.settings.maxAttempts + (s.settings.maxAttempts + 1) *
      ((s.messages.countOf id + timesTaken w.takings id) / Word.range32) := by
  obtain ⟨number, ha⟩ := h.accounts
  have hmem : ∀ c ∈ w.calls.filter (·.held.id = id), c ∈ w.calls ∧ c.held.id = id := by
    intro c hc
    rw [List.mem_filter, decide_eq_true_eq] at hc
    exact hc
  -- a taking that led to a call was not given back, so the numbers of such takings differ
  have hnodup : (((w.calls.filter (·.held.id = id)).map (·.held)).map number).Nodup := by
    refine ((List.filter_sublist.map _).nodup h.nodup_calls).map_on ?_
    intro g hg g' hg' heq
    obtain ⟨c, hc, rfl⟩ := List.mem_map.mp hg
    obtain ⟨c', hc', rfl⟩ := List.mem_map.mp hg'
    obtain ⟨hcall, hid⟩ := hmem c hc
    obtain ⟨hcall', hid'⟩ := hmem c' hc'
    obtain ⟨htaken, hnot⟩ := h.held_mem hcall
    obtain ⟨htaken', hnot'⟩ := h.held_mem hcall'
    exact ha.distinct _ htaken' _ htaken hnot' hnot (hid.trans hid'.symm) heq
  have hrange : ∀ n ∈ ((w.calls.filter (·.held.id = id)).map (·.held)).map number,
      0 < n ∧ n ≤ s.messages.countOf id + timesTaken w.takings id ∧
        n % Word.range32 ≤ s.settings.maxAttempts := by
    intro n hn
    obtain ⟨g, hg, rfl⟩ := List.mem_map.mp hn
    obtain ⟨c, hc, rfl⟩ := List.mem_map.mp hg
    obtain ⟨hcall, hid⟩ := hmem c hc
    obtain ⟨htaken, -⟩ := h.held_mem hcall
    refine ⟨ha.pos _ htaken, hid ▸ ha.bound _ htaken, ?_⟩
    rw [← ha.shown _ htaken]
    exact h.budget c hcall
  have hlength := length_le_of_mod hnodup hrange
  rw [List.length_map, List.length_map] at hlength
  rw [callsFor, List.countP_eq_length_filter]
  exact hlength

/-! ## Calls of a job -/

/-- A job that has ended stays so, and is not called again. -/
theorem hasEnded_step {jobId : String} (h : Inv s w) (hended : w.service.jobs.HasEnded jobId)
    (hstep : Step w w') :
    w'.service.jobs.HasEnded jobId ∧ w'.callsOfJob jobId = w.callsOfJob jobId := by
  cases hstep with
  | take max hideFor => exact ⟨hended, rfl⟩
  | work m waits =>
    have hworked := worked_handle m w.service
    refine ⟨hworked.moves.hasEnded hended, ?_⟩
    -- a worker that holds an old message reads the record, and makes no call
    have hnone : (callsOf m w.service).filter (·.jobId = jobId) = [] := by
      apply List.filter_eq_nil_iff.mpr
      intro c hc heq
      rw [decide_eq_true_eq] at heq
      exact hworked.not_hasEnded h.unique c hc (heq ▸ hended)
    show (w.calls ++ callsOf m w.service).filter (·.jobId = jobId) = _
    rw [List.filter_append, hnone, List.append_nil]
    rfl
  | mail queue payload delay =>
    rw [Service.exec_enqueue]
    split
    · exact ⟨hended, rfl⟩
    · exact ⟨hended, rfl⟩
  | record r => exact ⟨(JobTable.insert_spec r h.unique).2 jobId hended, rfl⟩
  | surroundings s' same => exact ⟨same.jobs ▸ hended, rfl⟩

theorem hasEnded_run {jobId : String} (h : Inv s w) (hended : w.service.jobs.HasEnded jobId)
    (hrun : Run w w') :
    w'.service.jobs.HasEnded jobId ∧ w'.callsOfJob jobId = w.callsOfJob jobId := by
  induction hrun with
  | refl => exact ⟨hended, rfl⟩
  | tail hbefore hstep ih =>
    obtain ⟨hended', hcalls⟩ := ih
    obtain ⟨hended'', hcalls'⟩ := hasEnded_step (inv_run h hbefore) hended' hstep
    exact ⟨hended'', hcalls'.trans hcalls⟩

/-- A call that does not fail transiently has ended its job. -/
theorem hasEnded_afterHandling {c : Call} (hc : c ∈ callsOf m w.service)
    (hfinal : c.result.isTransient = false) :
    (w.afterHandling m).service.jobs.HasEnded c.jobId :=
  (worked_handle m w.service).hasEnded c hc hfinal

/-- Where every call that has another one after it failed transiently, at most one did not. -/
theorem countP_final_le_one {calls : List Call}
    (h : calls.Pairwise fun c _ => c.result.isTransient = true) :
    calls.countP (fun c => !c.result.isTransient) ≤ 1 := by
  induction h with
  | nil => exact Nat.zero_le _
  | @cons c calls hfirst _ ih =>
    cases calls with
    | nil => exact List.countP_le_length
    | cons c' rest =>
      have htransient := hfirst c' List.mem_cons_self
      rw [List.countP_cons, htransient]
      exact ih

/-! ## A job with two messages -/

/-- A job for one target. -/
def sampleJob : Job where
  rootId := "post"
  jobId := "job"
  userId := "ada"
  target := "blog"
  status := .queued

/-- What the job is to deliver. -/
def sampleContent : PostContent := { title := "News" }

/-- A service in which the job waits, its content is staged, and two messages carry it. -/
def sampleService : Service :=
  { Service.started {} [] with
    jobs := ⟨[.queued sampleJob 0]⟩
    messages := (((({} : MessageTable).enqueue deliveryQueue sampleJob.payload 0 Span.zero).2).enqueue
      deliveryQueue sampleJob.payload 0 Span.zero).2
    store := ((Staging.stage "post" sampleContent).exec .inMemory).2
    platforms := ⟨[.mock { id := "blog" }]⟩ }

/-- Both messages are taken. -/
def sampleShift : Shift := afterTaking { service := sampleService } 16 Span.zero

/-- A message as it is taken first. -/
def sampleHeld (id : Nat) : Held := ⟨id, 0, 1, sampleJob.payload, 0⟩

theorem takings_sample : sampleShift.takings = [sampleHeld 1, sampleHeld 2] := by
  have hdue : sampleService.messages.due deliveryQueue 0 16 = sampleService.messages.messages := by
    rw [due, List.mergeSort_of_pairwise]
    · rfl
    · decide +kernel
  show [] ++ (sampleService.messages.dequeue deliveryQueue 0 16 Span.zero).1 = _
  rw [dequeue, hdue]
  decide +kernel

theorem load_sample :
    ((Staging.load "post").exec sampleService.store).1 = .ok (some sampleContent) := by
  have hsafe : isPathSafe "post" = true := by decide +kernel
  have hname : Staging.IsName "post" :=
    ⟨by decide +kernel, by decide +kernel, by decide +kernel, by decide +kernel⟩
  have hstaged : ((Staging.stage "post" sampleContent).exec .inMemory).1.toBool = true := by
    decide +kernel
  rcases hexec : (Staging.stage "post" sampleContent).exec .inMemory with ⟨r, st⟩
  have hstore : sampleService.store = st := congrArg Prod.snd hexec
  obtain ⟨hlater, -, hholds⟩ := Staging.stage_spec ObjectStore.inMemory_isSound hsafe hexec
  rw [hexec] at hstaged
  cases r with
  | error e => cases hstaged
  | ok u =>
    rw [hstore, Staging.load_eq (hlater.isSound ObjectStore.inMemory_isSound)
      (fun _ => hlater.outage ▸ rfl) hname hsafe (hholds rfl)]

/-- A mock that is not told to fail takes what it is handed. -/
theorem isTransient_callOf_mock (m : Held) (s : Service) (job : Job) (content : PostContent)
    (id : String) : (callOf m s job content (.mock { id := id })).1.isTransient = false := by
  simp [callOf, Platform.deliver, Mock.deliver, Mock.verdict, Mock.note, Span.zero]
  rfl

theorem callsOf_sample : ∃ result, result.isTransient = false ∧
    callsOf (sampleHeld 1) sampleShift.service = [⟨sampleHeld 1, "job", result⟩] := by
  have hcalendar : sampleJob.InCalendar := by simp [Job.InCalendar, sampleJob]
  obtain ⟨postAt, hread⟩ := Job.ofPayload?_payload hcalendar
  have hcourse : courseOf (sampleHeld 1) sampleShift.service =
      .call { sampleJob with postAt := postAt } sampleContent (.mock { id := "blog" }) :=
    courseOf_eq_call_iff.mpr ⟨hread, ⟨.queued sampleJob 0, rfl, rfl, rfl⟩, rfl, rfl, by decide,
      load_sample, rfl⟩
  refine ⟨(callOf (sampleHeld 1) (taken sampleShift.service "job")
    { sampleJob with postAt := postAt } sampleContent (.mock { id := "blog" })).1, ?_, ?_⟩
  · exact isTransient_callOf_mock _ _ _ _ _
  · rw [callsOf, hcourse]
    rfl

theorem run_sample : Run { service := sampleService } (sampleShift.afterHandling (sampleHeld 1)) := by
  have htake : Step { service := sampleService } sampleShift := .take _ 16 Span.zero
  have hwaits : sampleHeld 1 ∈ sampleShift.waiting := by
    show sampleHeld 1 ∈ sampleShift.takings
    rw [takings_sample]
    exact List.mem_cons_self
  exact .tail (.single htake) (.work _ _ hwaits)

/-! ## The bounds -/

/-- **Retries are bounded, and a job is delivered for good once at most.** After any run from a service,
by any number of workers, with any clock and any platforms:
a message has led to at most `maxAttempts` calls, as long as it was not taken `2 ^ 32` times, where the
count that a worker sees begins again; at most one call for a job did not fail transiently, and no
call for the job came after it; once a job has ended, no run makes another call for it; a deferral with
the latest receipt takes back what the taking counted; and so, however often that was done, the count of
a message is that of the takings that were not given back. -/
theorem run_attempts (s : Service) (hunique : s.jobs.HasUniqueIds)
    (hnumbered : s.messages.WellNumbered) (w : Shift) (hrun : Run { service := s } w) :
    (∀ id, w.callsFor id ≤ s.settings.maxAttempts + (s.settings.maxAttempts + 1) *
        ((s.messages.countOf id + timesTaken w.takings id) / Word.range32)) ∧
      (∀ id, s.messages.countOf id + timesTaken w.takings id < Word.range32 →
        w.callsFor id ≤ s.settings.maxAttempts) ∧
      (∀ jobId, (w.callsOfJob jobId).countP (fun c => !c.result.isTransient) ≤ 1) ∧
      (∀ jobId, (w.callsOfJob jobId).Pairwise fun c _ => c.result.isTransient = true) ∧
      (∀ jobId, w.service.jobs.HasEnded jobId →
        ∀ w', Run w w' → w'.callsOfJob jobId = w.callsOfJob jobId) ∧
      (∀ m ∈ w.waiting, ∀ secs, courseOf m w.service = .wait secs →
        ∀ held ∈ w.service.messages.messages, isHeld m held = true →
          ∃ held' ∈ (w.afterHandling m).service.messages.messages,
            held'.id = held.id ∧ held'.dequeueCount + 1 = held.dequeueCount) ∧
      ∀ m ∈ w.service.messages.messages,
        m.dequeueCount + timesTaken w.returned m.id =
          s.messages.countOf m.id + timesTaken w.takings m.id := by
  have h := inv_run (inv_start hunique hnumbered) hrun
  have hlast : ∀ jobId, (w.callsOfJob jobId).Pairwise fun c _ => c.result.isTransient = true := by
    intro jobId
    have hmem : ∀ c ∈ w.callsOfJob jobId, c.jobId = jobId := by
      intro c hc
      simpa using (List.mem_filter.mp hc).2
    refine (h.last.filter _).imp_of_mem ?_
    intro c c' hc hc' hfinal
    exact hfinal ((hmem c' hc').trans (hmem c hc).symm)
  refine ⟨callsFor_le h, ?_, fun jobId => countP_final_le_one (hlast jobId), hlast, ?_,
    fun m hm secs hwait => h.uncounted hm hwait, ?_⟩
  · intro id hfew
    have hle := callsFor_le h id
    rw [Nat.div_eq_of_lt hfew, Nat.mul_zero] at hle
    exact hle
  · intro jobId hended w' hrun'
    exact (hasEnded_run h hended hrun').2
  · obtain ⟨number, ha⟩ := h.accounts
    exact ha.sum

/-- The first of the messages leads to the call that ends the job, and the other one to none. -/
theorem run_attempts_duplicate : ∃ w, Run { service := sampleService } w ∧ w.takings.length = 2 ∧
    w.callsFor 1 = 1 ∧ w.callsFor 1 ≤ sampleService.settings.maxAttempts ∧
      ∀ w', Run w w' → w'.callsOfJob "job" = w.callsOfJob "job" := by
  have hnumbered : sampleService.messages.WellNumbered := ⟨by decide +kernel, by decide +kernel⟩
  obtain ⟨-, hbound, -, -, hlast, -, -⟩ :=
    run_attempts sampleService (List.nodup_singleton _) hnumbered _ run_sample
  have hfew : sampleService.messages.countOf 1 +
      timesTaken (sampleShift.afterHandling (sampleHeld 1)).takings 1 < Word.range32 := by
    show _ + timesTaken sampleShift.takings 1 < _
    rw [takings_sample]
    decide +kernel
  obtain ⟨result, hfinal, hcalls⟩ := callsOf_sample
  have hmem : ⟨sampleHeld 1, "job", result⟩ ∈ callsOf (sampleHeld 1) sampleShift.service := by
    rw [hcalls]
    exact List.mem_singleton_self _
  have hended := hasEnded_afterHandling hmem hfinal
  refine ⟨_, run_sample, ?_, ?_, hbound 1 hfew, hlast "job" hended⟩
  · show sampleShift.takings.length = 2
    rw [takings_sample]
    rfl
  · show ([] ++ callsOf (sampleHeld 1) sampleShift.service).countP _ = 1
    rw [hcalls]
    rfl

end Syndication.Worker.Shift
