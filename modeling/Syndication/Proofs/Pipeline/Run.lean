import Mathlib.Logic.Relation
import Syndication.Maintenance
import Syndication.Proofs.Pipeline.Growth

/-!
# Proofs.Pipeline.Run — runs of the whole service

A run interleaves submissions, triggers, workers and maintenance in any order. Workers hold messages
that they have taken and handle them late, or never, while others take the same messages again. Each
step is one program run on the state that it finds; what is around the service may change in between.

## Contents
* `Pipeline`, `fired`, `Step`, `Run`
* `Starts`, `Inv`, `inv_start`, `inv_step`, `inv_run`
-/

namespace Syndication

/-- A service, the messages that were taken from its queues, and the posts that it has accepted. -/
structure Pipeline where
  service : Service
  /-- What workers hold of the delivery queue. -/
  deliveries : List Held := []
  /-- What is held of the trigger queue. -/
  events : List Held := []
  /-- The accepted posts, each with its content. -/
  posts : List (String × PostContent) := []

namespace Pipeline

open ObjectStore Staging Submission

/-- The post that a trigger has submitted, with the content that its template makes of the event. -/
def fired (e : TriggerEvent) (t : Trigger) (s : Service) :
    Except Error FiringResult → List (String × PostContent)
  | .ok .submitted =>
    match s.triggers.template? t.userId t.templateId with
    | some template => [(rootOf s, Firing.contentOf template e)]
    | none => []
  | _ => []

/-- One step of a run. -/
inductive Step : Pipeline → Pipeline → Prop
  /-- A request is submitted, to be refused or not. -/
  | submit (p : Pipeline) (request : PostRequest) (calendar : ∀ t ∈ request.postAt, t.InCalendar) :
      Step p { p with
        service := ((submit request).exec p.service).2
        posts := p.posts ++ accepted request.content ((submit request).exec p.service).1 }
  /-- A trigger is considered for an event. -/
  | consider (p : Pipeline) (e : TriggerEvent) (userId : String) (t : Trigger) :
      Step p { p with
        service := ((Firing.consider e userId t).exec p.service).2
        posts := p.posts ++ fired e t p.service ((Firing.consider e userId t).exec p.service).1 }
  /-- A worker takes messages of the delivery queue. -/
  | takeDeliveries (p : Pipeline) (max : Nat) (hideFor : Span) :
      Step p { p with
        service := ((Service.dequeue MessageTable.deliveryQueue max hideFor).exec p.service).2
        deliveries := p.deliveries ++
          (p.service.messages.dequeue MessageTable.deliveryQueue p.service.now max hideFor).1 }
  /-- A worker handles a message that was taken, however long ago. -/
  | work (p : Pipeline) (m : Held) (held : m ∈ p.deliveries) :
      Step p { p with service := ((Worker.handle m).exec p.service).2 }
  /-- Messages of the trigger queue are taken. -/
  | takeEvents (p : Pipeline) (max : Nat) (hideFor : Span) :
      Step p { p with
        service := ((Service.dequeue MessageTable.triggerQueue max hideFor).exec p.service).2
        events := p.events ++
          (p.service.messages.dequeue MessageTable.triggerQueue p.service.now max hideFor).1 }
  /-- A message of the trigger queue is done with. -/
  | acknowledgeEvent (p : Pipeline) (m : Held) (held : m ∈ p.events) :
      Step p { p with service := ((Service.acknowledge m).exec p.service).2 }
  /-- A message of the trigger queue is put off. -/
  | deferEvent (p : Pipeline) (m : Held) (held : m ∈ p.events) (delay : Span) (counts : Bool) :
      Step p { p with service := ((Service.defer m delay counts).exec p.service).2 }
  /-- An event is put on the trigger queue. -/
  | offerEvent (p : Pipeline) (payload : String) (delay : Span) :
      Step p { p with
        service := ((Service.enqueue MessageTable.triggerQueue payload delay).exec p.service).2 }
  /-- Maintenance. -/
  | maintain (p : Pipeline) (retention : Span) :
      Step p { p with service := ((Maintenance.maintain retention).exec p.service).2 }
  /-- The clock, the platforms, what queues refuse, or anything else that no post depends on. -/
  | surroundings (p : Pipeline) (s : Service) (same : SamePosts p.service s) :
      Step p { p with service := s }

/-- Any number of steps. -/
def Run : Pipeline → Pipeline → Prop := Relation.ReflTransGen Step

/-- Nothing was posted yet, and the store reads and deletes. -/
structure Starts (p : Pipeline) : Prop where
  jobs : p.service.jobs.records = []
  messages : p.service.messages.messages = []
  bundles : ∀ k, Text.startsWith k bundleStart = true → p.service.store.find? k = none
  sound : p.service.store.IsSound
  get : ∀ k, p.service.store.outage.get k = false
  delete : ∀ k, p.service.store.outage.delete k = false
  deliveries : p.deliveries = []
  events : p.events = []
  posts : p.posts = []

/-- **The invariant of runs**: records, messages and objects are in order, what is held are messages
of jobs and of events, and the store is a later state of the one at the start. -/
structure Inv (start p : Pipeline) : Prop where
  order : InOrder p.service p.posts
  deliveries : ∀ m ∈ p.deliveries, IsDelivery p.service m
  events : ∀ m ∈ p.events, IsEvent p.service m
  later : Later start.service.store p.service.store

/-- A service that has just been started has posted nothing. -/
theorem starts_started (c : Config) (keys : List ApiKey) : Starts { service := .started c keys } where
  jobs := rfl
  messages := rfl
  bundles := fun _ _ => rfl
  sound := inMemory_isSound
  get := fun _ => rfl
  delete := fun _ => rfl
  deliveries := rfl
  events := rfl
  posts := rfl

variable {p p' start : Pipeline} {s s' : Service}

/-! ## What is held -/

theorem Grows.refl (s : Service) : Grows s s where
  records := fun r hr => ⟨r, hr, rfl, rfl, rfl⟩
  nextId := Nat.le_refl _
  letters := fun m hm => .inl ⟨m, hm, rfl⟩

theorem Grows.of_sameJobs (hjobs : SameJobs s.jobs s'.jobs)
    (hnext : s'.messages.nextId = s.messages.nextId)
    (hletters : ∀ m' ∈ s'.messages.messages, ∃ m ∈ s.messages.messages, m.letter = m'.letter) :
    Grows s s' where
  records := by
    intro r hr
    obtain ⟨r', hr', hsame⟩ := hjobs.symm.exists_mem hr
    exact ⟨r', hr', hsame.jobId.symm, hsame.rootId.symm, hsame.target.symm⟩
  nextId := Nat.le_of_eq hnext.symm
  letters := fun m' hm' => .inl (hletters m' hm')

/-- Messages that are taken or deferred stay what they are. -/
theorem Grows.of_sameLetters (hjobs : SameJobs s.jobs s'.jobs)
    (hletters : s.messages.SameLetters s'.messages) : Grows s s' :=
  .of_sameJobs hjobs hletters.nextId fun _ hm' => hletters.exists_mem hm'

theorem Grows.acknowledge (hjobs : SameJobs s.jobs s'.jobs) {m : Held}
    (h : Worker.MayAcknowledge m s.messages s'.messages) : Grows s s' :=
  .of_sameJobs hjobs h.nextId fun m' hm' => ⟨m', h.mem hm', rfl⟩

theorem grows_posted {content : PostContent} {postAt : Option Instant} {r : Except Error Receipt}
    (h : Posted s content postAt r s') : Grows s s' := by
  cases h with
  | refused e => exact .refl s
  | made userId targets nodup safe fannedOut =>
    cases fannedOut with
    | unstaged cause st only unlocked =>
      exact .of_sameJobs (.refl _) rfl fun m' hm' => ⟨m', hm', rfl⟩
    | staged st only holds locked unlocked =>
      obtain ⟨hnext, new, hnew, hletters⟩ := messages_mail s (visibilityDelay postAt s.nowInstant)
        (jobsOf s userId targets content postAt)
      refine ⟨fun row hrow => ⟨row, List.mem_append_left _ hrow, rfl, rfl, rfl⟩, hnext, ?_⟩
      intro m hm
      rcases List.mem_append.mp (hnew ▸ hm) with hold | hmem
      · exact .inl ⟨m, hold, rfl⟩
      · exact .inr (hletters m hmem).1

theorem later_posted {content : PostContent} {postAt : Option Instant} {r : Except Error Receipt}
    (h : Posted s content postAt r s') : Later s.store s'.store := by
  cases h with
  | refused e => exact .refl _
  | made userId targets nodup safe fannedOut =>
    cases fannedOut with
    | unstaged cause st only unlocked => exact only.later
    | staged st only holds locked unlocked => exact only.later

theorem Grows.trans {s'' : Service} (h : Grows s s') (h' : Grows s' s'') : Grows s s'' where
  records := by
    intro r hr
    obtain ⟨r', hr', hsame⟩ := h.records r hr
    obtain ⟨r'', hr'', hsame'⟩ := h'.records r' hr'
    exact ⟨r'', hr'', hsame.trans hsame'⟩
  nextId := Nat.le_trans h.nextId h'.nextId
  letters := by
    intro m'' hm''
    rcases h'.letters m'' hm'' with ⟨m', hm', heq⟩ | hnew
    · have hid : m'.id = m''.id := congrArg Letter.id heq
      rcases h.letters m' hm' with ⟨m, hm, heq'⟩ | hnew
      · exact .inl ⟨m, hm, heq'.trans heq⟩
      · exact .inr (hid ▸ hnew)
    · exact .inr (Nat.le_trans h.nextId hnew)

theorem grows_samePosts (h : SamePosts s s') : Grows s s' :=
  .of_sameJobs (h.jobs ▸ .refl _) (by rw [h.messages]) fun m' hm' => ⟨m', h.messages ▸ hm', rfl⟩

/-! ## Steps -/

/-- A step keeps the invariant if it keeps order and what is held stays what it is. -/
theorem Inv.of_grows (hinv : Inv start p) (hgrows : Grows p.service s)
    {posts : List (String × PostContent)} (horder : InOrder s posts)
    (hlater : Later p.service.store s.store) : Inv start { p with service := s, posts := posts } where
  order := horder
  deliveries := fun m hm => (hinv.deliveries m hm).grows hgrows
  events := fun m hm => (hinv.events m hm).grows hgrows
  later := hinv.later.trans hlater

/-- An empty service is in order. -/
theorem inv_start (h : Starts start) : Inv start start := by
  -- without records, messages and posts nothing is said of any
  have hrow : ∀ r, r ∉ start.service.jobs.records := by
    intro r
    rw [h.jobs]
    exact List.not_mem_nil
  have hmessage : ∀ m, m ∉ start.service.messages.messages := by
    intro m
    rw [h.messages]
    exact List.not_mem_nil
  have hrecords : RecordsInOrder start.service := by
    refine ⟨?_, fun r hr => absurd hr (hrow r), fun r hr => absurd hr (hrow r),
      fun r hr => absurd hr (hrow r), fun r hr => absurd hr (hrow r)⟩
    unfold JobTable.HasUniqueIds
    rw [h.jobs]
    exact List.nodup_nil
  have hnumbered : start.service.messages.WellNumbered := by
    refine ⟨?_, fun m hm => absurd hm (hmessage m)⟩
    rw [h.messages]
    exact List.nodup_nil
  constructor
  case order =>
    refine ⟨h.sound, hrecords, ⟨hnumbered, fun m hm => absurd hm (hmessage m)⟩,
      fun r hr => absurd hr (hrow r), ?_, ?_, ?_⟩
    · intro k hk hfound
      rw [h.bundles k hk] at hfound
      cases hfound
    · rw [h.posts]
      exact List.nodup_nil
    · rw [h.posts]
      intro q hq
      cases hq
  case deliveries =>
    rw [h.deliveries]
    intro m hm
    cases hm
  case events =>
    rw [h.events]
    intro m hm
    cases hm
  case later => exact .refl _

/-- What is taken from the delivery queue is a message of a job. -/
theorem isDelivery_dequeue {posts : List (String × PostContent)} (ho : InOrder s posts) {max : Nat}
    {now : Int} {hideFor : Span} {h : Held}
    (hmem : h ∈ (s.messages.dequeue MessageTable.deliveryQueue now max hideFor).1) :
    IsDelivery s h := by
  obtain ⟨m, hm, hletter⟩ := MessageTable.mem_dequeue hmem ho.letters.numbered.nodup
  have hid : m.id = h.id := congrArg Letter.id hletter
  have hpayload : m.payload = h.payload := congrArg Letter.payload hletter
  refine ⟨hid ▸ ho.letters.numbered.lt m hm, ?_, ?_⟩
  · rw [← hpayload]
    exact ho.letters.carried m hm (congrArg Letter.queue hletter)
  · intro m' hm' hid'
    rw [← hletter, List.inj_on_of_nodup_map ho.letters.numbered.nodup hm' hm (hid'.trans hid.symm)]

/-- What is taken from the trigger queue is a message of that queue. -/
theorem isEvent_dequeue {posts : List (String × PostContent)} (ho : InOrder s posts) {max : Nat}
    {now : Int} {hideFor : Span} {h : Held}
    (hmem : h ∈ (s.messages.dequeue MessageTable.triggerQueue now max hideFor).1) :
    IsEvent s h := by
  obtain ⟨m, hm, hletter⟩ := MessageTable.mem_dequeue hmem ho.letters.numbered.nodup
  have hid : m.id = h.id := congrArg Letter.id hletter
  refine ⟨hid ▸ ho.letters.numbered.lt m hm, ?_⟩
  intro m' hm' hid'
  rw [List.inj_on_of_nodup_map ho.letters.numbered.nodup hm' hm (hid'.trans hid.symm)]
  exact congrArg Letter.queue hletter

/-- The queues are two. -/
theorem carries_triggerQueue {jobId payload : String} {id : Nat} :
    Letter.carries jobId ⟨id, MessageTable.triggerQueue, payload⟩ = false := by
  rw [Bool.eq_false_iff]
  intro hcarries
  have hqueue : MessageTable.triggerQueue = MessageTable.deliveryQueue :=
    (Letter.carries_iff.mp hcarries).1
  exact absurd hqueue (by decide)

/-- An event that is done with carries no job. -/
theorem stillLetters_acknowledge {m : Held} (hevent : IsEvent s m) :
    StillLetters s.messages (s.messages.acknowledge m).2 where
  numbered := fun h => h.acknowledge m
  carriers := by
    intro jobId
    apply MessageTable.carriers_acknowledge
    intro m' hm' hid
    rw [Message.letter, hevent.queue m' hm' hid]
    exact carries_triggerQueue
  letters := fun m' hm' _ => ⟨m', (MessageTable.mem_acknowledge.mp hm').1, rfl⟩

/-- What is put on a queue has a number of its own. -/
theorem grows_enqueue (s : Service) (payload : String) (delay : Span) :
    Grows s { s with
      messages := (s.messages.enqueue MessageTable.triggerQueue payload s.now delay).2 } where
  records := fun r hr => ⟨r, hr, rfl, rfl, rfl⟩
  nextId := Nat.le_succ _
  letters := by
    intro m hm
    rcases List.mem_append.mp hm with hold | hnew
    · exact .inl ⟨m, hold, rfl⟩
    · rw [List.mem_singleton.mp hnew]
      exact .inr (Nat.le_refl _)

/-- An event that is offered carries no job. -/
theorem stillLetters_enqueue (t : MessageTable) (payload : String) (now : Int) (delay : Span) :
    StillLetters t (t.enqueue MessageTable.triggerQueue payload now delay).2 where
  numbered := fun h => h.enqueue _ _ _ _
  carriers := by
    intro jobId
    rw [MessageTable.carriers_enqueue, carries_triggerQueue]
    rfl
  letters := by
    intro m' hm' hqueue
    rcases List.mem_append.mp hm' with hold | hnew
    · exact ⟨m', hold, rfl⟩
    · rw [List.mem_singleton.mp hnew] at hqueue
      have hqueue : MessageTable.triggerQueue = MessageTable.deliveryQueue := hqueue
      exact absurd hqueue (by decide)

theorem exec_maintain (retention : Span) (s : Service) :
    SamePosts { s with store := ((sweep).exec s.store).2 }
      ((Maintenance.maintain retention).exec s).2 := by
  rw [Maintenance.maintain, Effect.exec_bind_ok (Effect.exec_get s)]
  simp only [Effect.exec_bind, Service.exec_onStore]
  rcases (sweep).exec s.store with ⟨e | report, st⟩
  · exact .refl _
  · exact .of_eq rfl rfl rfl rfl

/-- The post of a trigger that was submitted is the one that was accepted. -/
theorem fired_eq {e : TriggerEvent} {t : Trigger} {template : Template} {before after : Service}
    {r : Except Error Receipt} {result : FiringResult}
    (found : s.triggers.template? t.userId t.templateId = some template)
    (issuer : before.issuer = s.issuer)
    (h : Posted before (Firing.contentOf template e) none r after)
    (told : result = .submitted ↔ ∃ receipt, r = .ok receipt) :
    fired e t s (.ok result) = accepted (Firing.contentOf template e) r := by
  cases r with
  | error cause =>
    have hne : result ≠ .submitted := by simp [told]
    cases result <;> first | rfl | exact absurd rfl hne
  | ok receipt =>
    obtain rfl := told.mpr ⟨receipt, rfl⟩
    -- the post has the identifier that was drawn first, before those of its jobs
    have hroot : receipt.rootId = rootOf s := by
      rw [rootOf, ← issuer]
      generalize hr : Except.ok receipt = r at h
      cases h with
      | refused e => cases hr
      | made userId targets nodup safe fannedOut =>
        cases fannedOut with
        | unstaged cause st only unlocked => cases hr
        | staged st only holds locked unlocked =>
          unfold answer at hr
          split at hr
          · cases hr
          · rw [Except.ok.inj hr]
            rfl
    rw [fired, found, accepted, hroot]

/-- The store reads and deletes, as it did at the start. -/
theorem Inv.answers (hinv : Inv start p) (hstart : Starts start) :
    (∀ k, p.service.store.outage.get k = false) ∧ ∀ k, p.service.store.outage.delete k = false := by
  rw [hinv.later.outage]
  exact ⟨hstart.get, hstart.delete⟩

/-- A trigger is considered, and may post. -/
theorem Inv.considered (hinv : Inv start p) (hdelete : ∀ k, p.service.store.outage.delete k = false)
    (e : TriggerEvent) (userId : String) (t : Trigger) :
    Inv start { p with
      service := ((Firing.consider e userId t).exec p.service).2
      posts := p.posts ++ fired e t p.service ((Firing.consider e userId t).exec p.service).1 } := by
  have ho := hinv.order
  have hspec := Firing.consider_spec e userId t p.service
  generalize (Firing.consider e userId t).exec p.service = result at hspec ⊢
  obtain ⟨result, s'⟩ := result
  cases hspec with
  | passed result silent same =>
    have hnone : fired e t p.service (.ok result) = [] := by
      cases result <;> first | rfl | exact absurd rfl silent
    rw [hnone, List.append_nil]
    exact hinv.of_grows (grows_samePosts same) (ho.samePosts same) same.bundles.later
  | @tried before after _ template result found same issuer r post told same' =>
    -- what was done before the post and after it touches no job and no bundle
    have hbefore := ho.samePosts same
    have hdelete' : ∀ k, before.store.outage.delete k = false := same.bundles.later.outage ▸ hdelete
    have hposted := submitForUser_posted hbefore.sound hdelete' hbefore.freshIds
      t.userId [t.target] (Firing.contentOf template e) none
    rw [post] at hposted
    rw [fired_eq found issuer hposted told]
    refine hinv.of_grows (((grows_samePosts same).trans (grows_posted hposted)).trans
      (grows_samePosts same')) ?_ ?_
    · exact (hbefore.posted (by simp) hposted).samePosts same'
    · exact (same.bundles.later.trans (later_posted hposted)).trans same'.bundles.later

/-- A worker handles a message, which may have been taken again since. -/
theorem Inv.worked (hinv : Inv start p) (hstart : Starts start) {m : Held} (held : m ∈ p.deliveries) :
    Inv start { p with service := ((Worker.handle m).exec p.service).2 } := by
  have ho := hinv.order
  obtain ⟨hget, hdelete⟩ := hinv.answers hstart
  have hheld := hinv.deliveries m held
  obtain ⟨job, hjob, r, hr, hof⟩ := hheld.carries
  have horder := ho.handled hget hdelete hheld
  cases Worker.handle_spec (ho.ready hget hdelete hr) hof hjob with
  | waits change sameJob status jobs letters bundles =>
    exact hinv.of_grows (.of_sameLetters (jobs ▸ sameJobs_update sameJob) letters) horder
      bundles.later
  | ends change sameJob terminal jobs messages later find =>
    exact hinv.of_grows (.acknowledge (jobs ▸ sameJobs_update sameJob) messages) horder later

/-- Messages of a queue are taken. -/
theorem Inv.dequeued (hinv : Inv start p) (queue : String) (max : Nat) (hideFor : Span) :
    Grows p.service ((Service.dequeue queue max hideFor).exec p.service).2 ∧
      Inv start { p with service := ((Service.dequeue queue max hideFor).exec p.service).2 } := by
  have hletters := MessageTable.sameLetters_dequeue (t := p.service.messages) queue p.service.now max
    hideFor
  have hgrows : Grows p.service ((Service.dequeue queue max hideFor).exec p.service).2 :=
    .of_sameLetters (.refl _) hletters
  exact ⟨hgrows,
    hinv.of_grows hgrows (hinv.order.withMessages (.of_sameLetters hletters)) (.refl _)⟩

/-- **One step keeps the invariant.** -/
theorem inv_step (hstart : Starts start) (hinv : Inv start p) (hstep : Step p p') :
    Inv start p' := by
  have ho := hinv.order
  obtain ⟨-, hdelete⟩ := hinv.answers hstart
  cases hstep with
  | submit request calendar =>
    have hposted := submit_posted ho.sound hdelete ho.freshIds request
    exact hinv.of_grows (grows_posted hposted) (ho.posted calendar hposted) (later_posted hposted)
  | consider e userId t => exact hinv.considered hdelete e userId t
  | takeDeliveries max hideFor =>
    obtain ⟨hgrows, hnext⟩ := hinv.dequeued MessageTable.deliveryQueue max hideFor
    refine { hnext with deliveries := ?_ }
    intro m hm
    rcases List.mem_append.mp hm with hold | hnew
    · exact hnext.deliveries m hold
    · exact (isDelivery_dequeue ho hnew).grows hgrows
  | work m held => exact hinv.worked hstart held
  | takeEvents max hideFor =>
    obtain ⟨hgrows, hnext⟩ := hinv.dequeued MessageTable.triggerQueue max hideFor
    refine { hnext with events := ?_ }
    intro m hm
    rcases List.mem_append.mp hm with hold | hnew
    · exact hnext.events m hold
    · exact (isEvent_dequeue ho hnew).grows hgrows
  | acknowledgeEvent m held =>
    have hgrows : Grows p.service ((Service.acknowledge m).exec p.service).2 :=
      .acknowledge (.refl _) (.inr rfl)
    have horder := ho.withMessages (stillLetters_acknowledge (hinv.events m held))
    exact hinv.of_grows hgrows horder (.refl _)
  | deferEvent m held delay counts =>
    -- when a message shows and how often it was taken is no part of order
    have hletters := MessageTable.sameLetters_defer (t := p.service.messages) m p.service.now delay
      counts
    have hgrows : Grows p.service ((Service.defer m delay counts).exec p.service).2 :=
      .of_sameLetters (.refl _) hletters
    have horder := ho.withMessages (.of_sameLetters hletters)
    exact hinv.of_grows hgrows horder (.refl _)
  | offerEvent payload delay =>
    rw [Service.exec_enqueue]
    split
    · exact hinv.of_grows (.refl _) ho (.refl _)
    · have horder := ho.withMessages
        (stillLetters_enqueue p.service.messages payload p.service.now delay)
      exact hinv.of_grows (grows_enqueue p.service payload delay) horder (.refl _)
  | maintain retention =>
    have hsame := exec_maintain retention p.service
    -- of what posts depend on, only the sweep touches anything
    have hsweep := sweep_frame ho.sound (r := ((sweep).exec p.service.store).1) rfl
    have hgrows : Grows p.service { p.service with store := ((sweep).exec p.service.store).2 } :=
      .of_sameJobs (.refl _) rfl fun m hm => ⟨m, hm, rfl⟩
    refine hinv.of_grows (hgrows.trans (grows_samePosts hsame)) ?_ ?_
    · exact (ho.swept (Prod.ext rfl rfl)).samePosts hsame
    · exact hsweep.1.trans hsame.bundles.later
  | surroundings s same =>
    exact hinv.of_grows (grows_samePosts same) (ho.samePosts same) same.bundles.later

/-- **A whole run keeps the invariant.** -/
theorem inv_run (hstart : Starts start) (hrun : Run start p) : Inv start p := by
  induction hrun with
  | refl => exact inv_start hstart
  | tail _ hstep ih => exact inv_step hstart ih hstep

end Pipeline
end Syndication
