import Syndication.Proofs.Pipeline.Tidy
import Syndication.Proofs.Worker.Batch

/-!
# Proofs.Pipeline.AnyOrder — a batch may be handled in any order

A worker takes a batch and handles its messages one after the other. They share all tables, the store,
and often the content of one post. If their jobs are different ones and go to different targets, the
order does not matter, and they might as well be handled at one time: in every state that a run comes to
they are strangers to each other. What a run adds to that is that a job whose message is under way has a
lock whose name the store has taken, so it takes the other names of the job as well, and that a message
that is held twice is one message.

In these runs the store may be out of order at any time, for any calls, and workers may call any platforms
that are local.

## Contents
* `TidyStep`, `TidyRun`                                 — runs with any local platforms
* `Holding`, `Deliverable`, `Deliverable.step`, `Deliverable.run`
* `takes_contentKey`, `SeparateSessions`, `separateSessions_ownSession`
* `Different`, `OrdersAgree`, `ordersAgree`, `run_anyOrder`
-/

namespace Syndication.Pipeline

open ObjectStore Session Staging Submission Worker

variable {p p' start : Pipeline} {s s' : Service} {st st' : ObjectStore}

/-! ## Runs -/

/-- One step of a run. Messages may be handled with any platforms that are local, the store may fall out of
order and recover, and whoever changes what is around the service leaves sessions and objects tidy. -/
inductive TidyStep : Pipeline → Pipeline → Prop
  | step {p p' : Pipeline} (step : Step p p')
      (quiet : SamePosts p.service p'.service → IsTidy p.service.sessionWorld →
        IsTidy p'.service.sessionWorld) : TidyStep p p'
  | handled (p : Pipeline) (m : Held) (held : m ∈ p.deliveries) {own : String → String} {deliver : Deliver}
      (isLocal : IsLocal own deliver) :
      TidyStep p { p with service := ((handleBy deliver m).exec p.service).2 }
  | outage (p : Pipeline) (outage : Outage) :
      TidyStep p { p with service := { p.service with store := { p.service.store with outage := outage } } }

/-- Any number of steps. -/
def TidyRun : Pipeline → Pipeline → Prop := Relation.ReflTransGen TidyStep

/-- Nothing is under way yet. -/
structure Idle (p : Pipeline) : Prop where
  tidy : IsTidy p.service.sessionWorld
  messages : p.service.messages.messages = []
  deliveries : p.deliveries = []

/-- Who holds a message of the delivery queue: it carries a job that was locked, and if it is still
there its payload is the one that is held. -/
structure Holding (s : Service) (h : Held) : Prop where
  number : h.id < s.messages.nextId
  carries : Carries s.store h.payload
  letter : ∀ m ∈ s.messages.messages, m.id = h.id → m.payload = h.payload

/-- **What runs keep**: sessions and objects are tidy, messages of the delivery queue carry jobs that were
locked, and what is held under one number is one message. -/
structure Deliverable (p : Pipeline) : Prop where
  tidy : IsTidy p.service.sessionWorld
  numbered : p.service.messages.WellNumbered
  queued : ∀ m ∈ p.service.messages.messages, m.queue = MessageTable.deliveryQueue →
    Carries p.service.store m.payload
  held : ∀ h ∈ p.deliveries, Holding p.service h
  alike : ∀ h ∈ p.deliveries, ∀ h' ∈ p.deliveries, h'.id = h.id → h'.payload = h.payload

theorem Holding.proceeds {h : Held} (hh : Holding s h) (hs : s.Proceeds s') : Holding s' h where
  number := Nat.lt_of_lt_of_le hh.number hs.nextId
  carries := hh.carries.mono hs.takes
  letter := by
    intro m' hm' hid
    rcases hs.letters m' hm' with ⟨m, hm, hletter⟩ | ⟨hnew, -⟩
    · have hpayload : m.payload = m'.payload := congrArg Letter.payload hletter
      exact hpayload ▸ hh.letter m hm ((congrArg Letter.id hletter).trans hid)
    · have := hh.number
      omega

/-- A step that proceeds, and takes nothing of the delivery queue. -/
theorem Deliverable.proceeds (h : Deliverable p) (hs : p.service.Proceeds p'.service)
    (hdeliveries : p'.deliveries = p.deliveries) : Deliverable p' where
  tidy := hs.tidy
  numbered := hs.numbered h.numbered
  queued := by
    intro m' hm' hqueue
    rcases hs.letters m' hm' with ⟨m, hm, hletter⟩ | ⟨-, hcarries⟩
    · have hqueue' : m.queue = m'.queue := congrArg Letter.queue hletter
      have hpayload : m.payload = m'.payload := congrArg Letter.payload hletter
      exact hpayload ▸ (h.queued m hm (hqueue'.trans hqueue)).mono hs.takes
    · exact hcarries hqueue
  held := by
    rw [hdeliveries]
    exact fun m hm => (h.held m hm).proceeds hs
  alike := by
    rw [hdeliveries]
    exact h.alike

/-- What is taken of the delivery queue is held as it was queued. -/
theorem Deliverable.holding_dequeue (h : Deliverable p) {max : Nat} {now : Int} {hideFor : Span} {m : Held}
    (hm : m ∈ (p.service.messages.dequeue MessageTable.deliveryQueue now max hideFor).1) :
    Holding p.service m := by
  obtain ⟨row, hrow, hletter⟩ := MessageTable.mem_dequeue hm h.numbered.nodup
  have hid : row.id = m.id := congrArg Letter.id hletter
  have hpayload : row.payload = m.payload := congrArg Letter.payload hletter
  refine ⟨hid ▸ h.numbered.lt row hrow, ?_, ?_⟩
  · exact hpayload ▸ h.queued row hrow (congrArg Letter.queue hletter)
  · intro row' hrow' hid'
    rw [List.inj_on_of_nodup_map h.numbered.nodup hrow' hrow (hid'.trans hid.symm)]
    exact hpayload

/-- Messages that are taken of the delivery queue are held with the rest. -/
theorem Deliverable.taken (h : Deliverable p) (max : Nat) (hideFor : Span) :
    Deliverable { p with
      service := ((Service.dequeue MessageTable.deliveryQueue max hideFor).exec p.service).2
      deliveries := p.deliveries ++
        (p.service.messages.dequeue MessageTable.deliveryQueue p.service.now max hideFor).1 } := by
  have hs : p.service.Proceeds
      ((Service.dequeue MessageTable.deliveryQueue max hideFor).exec p.service).2 :=
    Service.keeps_dequeue _ max hideFor p.service h.tidy
  have hheld : ∀ m ∈ p.deliveries ++
      (p.service.messages.dequeue MessageTable.deliveryQueue p.service.now max hideFor).1,
      Holding p.service m := by
    intro m hm
    rcases List.mem_append.mp hm with hold | hnew
    · exact h.held m hold
    · exact h.holding_dequeue hnew
  -- what is taken is still there, so all who hold it have its payload
  have hagrees : ∀ m, Holding p.service m → ∀ m' ∈
      (p.service.messages.dequeue MessageTable.deliveryQueue p.service.now max hideFor).1,
      m'.id = m.id → m'.payload = m.payload := by
    intro m hm m' hm' hid
    obtain ⟨row, hrow, hletter⟩ := MessageTable.mem_dequeue hm' h.numbered.nodup
    have hpayload : row.payload = m'.payload := congrArg Letter.payload hletter
    exact hpayload ▸ hm.letter row hrow ((congrArg Letter.id hletter).trans hid)
  have hnext : Deliverable { p with
      service := ((Service.dequeue MessageTable.deliveryQueue max hideFor).exec p.service).2 } :=
    h.proceeds hs rfl
  obtain ⟨htidy, hnumbered, hqueued, -, -⟩ := hnext
  refine ⟨htidy, hnumbered, hqueued, fun m hm => (hheld m hm).proceeds hs, ?_⟩
  intro m hm m' hm' hid
  rcases List.mem_append.mp hm' with hold' | hnew'
  · rcases List.mem_append.mp hm with hold | hnew
    · exact h.alike m hold m' hold' hid
    · exact (hagrees m' (h.held m' hold') m hnew hid.symm).symm
  · exact hagrees m (hheld m hm) m' hnew' hid

/-- **One step keeps what is deliverable.** -/
theorem Deliverable.step (h : Deliverable p) (hstep : TidyStep p p') : Deliverable p' := by
  cases hstep with
  | handled m held isLocal => exact h.proceeds (keeps_handleBy isLocal m p.service h.tidy) rfl
  | outage outage =>
    have htidy : IsTidy ({ p.service with store := { p.service.store with outage := outage } } :
        Service).sessionWorld := ⟨h.tidy.registry, h.tidy.store⟩
    exact h.proceeds ⟨htidy, fun _ => id, id, Nat.le_refl _, fun m hm => .inl ⟨m, hm, rfl⟩⟩ rfl
  | step hstep quiet =>
    cases hstep with
    | submit request calendar => exact h.proceeds (keeps_submit request calendar p.service h.tidy) rfl
    | consider e userId t => exact h.proceeds (Firing.keeps_consider e userId t p.service h.tidy) rfl
    | takeDeliveries max hideFor => exact h.taken max hideFor
    | work m held => exact h.proceeds (keeps_handle m p.service h.tidy) rfl
    | takeEvents max hideFor => exact h.proceeds (Service.keeps_dequeue _ max hideFor p.service h.tidy) rfl
    | acknowledgeEvent m held => exact h.proceeds (Service.keeps_acknowledge m p.service h.tidy) rfl
    | deferEvent m held delay counts =>
      exact h.proceeds (Service.keeps_defer m delay counts p.service h.tidy) rfl
    | offerEvent payload delay =>
      rw [Service.exec_enqueue]
      split
      · exact h
      · have hqueue : MessageTable.triggerQueue ≠ MessageTable.deliveryQueue := by decide
        exact h.proceeds (Service.keeps_enqueued p.service _ payload delay (absurd · hqueue) h.tidy) rfl
    | maintain retention => exact h.proceeds (Maintenance.keeps_maintain retention p.service h.tidy) rfl
    | surroundings s same =>
      refine h.proceeds ⟨quiet same h.tidy, fun k => same.bundles.later.takes, ?_, ?_, ?_⟩ rfl
      · exact fun hn => by rw [same.messages]; exact hn
      · rw [same.messages]
      · exact fun m hm => .inl ⟨m, same.messages ▸ hm, rfl⟩

/-- **A whole run keeps what is deliverable.** -/
theorem Deliverable.run (hidle : Idle start) (hrun : TidyRun start p) : Deliverable p := by
  induction hrun with
  | refl =>
    have hmessage : ∀ m, m ∉ start.service.messages.messages := by
      intro m
      rw [hidle.messages]
      exact List.not_mem_nil
    have hheld : ∀ m, m ∉ start.deliveries := by
      intro m
      rw [hidle.deliveries]
      exact List.not_mem_nil
    refine ⟨hidle.tidy, ⟨?_, fun m hm => absurd hm (hmessage m)⟩, fun m hm => absurd hm (hmessage m),
      fun m hm => absurd hm (hheld m), fun m hm => absurd hm (hheld m)⟩
    rw [hidle.messages]
    exact List.nodup_nil
  | tail _ hstep ih => exact ih.step hstep

/-! ## Names and sessions -/

/-- The parts of a bundle have names that are shorter than that of a lock, or that all stores take. -/
theorem takes_contentKey {job : Job} (hjob : IsPlaced job)
    (h : st.Takes (lockKey job.rootId job.target)) {name : String} (hname : name ∈ partNames) :
    st.Takes (contentKey job.rootId name) := by
  have hpart : ∀ name ∈ partNames, Store.Tree.octets name ≤ Store.Tree.maxName := by decide
  refine h.imp fun hfits => ?_
  rw [lockKey, segments_contentKey hjob.root.slash (isName_lock hjob.target).slash] at hfits
  rw [segments_contentKey hjob.root.slash (isName_part name hname).slash]
  intro segment hsegment
  simp only [List.mem_cons, List.not_mem_nil, or_false] at hsegment
  rcases hsegment with rfl | rfl | rfl
  · exact hfits _ (by simp)
  · exact hfits _ (by simp)
  · exact hpart _ hname

/-- The sessions of different platforms stand apart, and the store takes their names where it takes the
name of a lock. -/
structure SeparateSessions (own : String → String) : Prop where
  apart : ∀ {a b}, isPathSafe a = true → isPathSafe b = true → a ≠ b →
    Store.Apart (Store.segments (storageKey (own a))) (Store.segments (storageKey (own b)))
  takes : ∀ {st : ObjectStore} {job : Job}, IsPlaced job → st.Takes (lockKey job.rootId job.target) →
    st.Takes (storageKey (own job.target))

theorem not_mem_slash {target : String} (h : isPathSafe target = true) : '/' ∉ target.toList := by
  intro hmem
  exact absurd (((isPathSafe_iff target).mp h).2.2 _ hmem) (by decide)

theorem segments_ownSession {target : String} (h : isPathSafe target = true) :
    Store.segments (storageKey (Platform.ownSession target)) = ["session", "mock", target] := by
  have hmock : Text.split '/' "mock" = ["mock"] := Text.split_eq_singleton (by decide)
  calc Store.segments (storageKey (Platform.ownSession target))
      = "session" :: Text.split '/' ("mock" ++ "/" ++ target) := segments_storageKey _
    _ = "session" :: (Text.split '/' "mock" ++ Text.split '/' target) :=
        congrArg _ (Text.split_append '/' "mock" target)
    _ = ["session", "mock", target] := by
        rw [hmock, Text.split_eq_singleton (not_mem_slash h)]
        rfl

/-- Mocks have sessions of their own. -/
theorem separateSessions_ownSession : SeparateSessions Platform.ownSession where
  apart := by
    intro a b ha hb hne
    rw [segments_ownSession ha, segments_ownSession hb]
    refine Store.apart_of_length rfl fun heq => hne ?_
    simpa using heq
  takes := by
    intro st job hjob h
    have hfixed : ∀ name ∈ ["session", "mock"], Store.Tree.octets name ≤ Store.Tree.maxName := by decide
    -- the name of a target is shorter than that of its lock
    have htarget : Store.Tree.octets job.target ≤ Store.Tree.octets (lockStart ++ job.target) := by
      simp [Store.Tree.octets]
    refine h.imp fun hfits => ?_
    rw [lockKey, segments_contentKey hjob.root.slash (isName_lock hjob.target).slash] at hfits
    rw [segments_ownSession hjob.target]
    intro segment hsegment
    simp only [List.mem_cons, List.not_mem_nil, or_false] at hsegment
    rcases hsegment with rfl | rfl | rfl
    · exact hfixed _ (by simp)
    · exact hfixed _ (by simp)
    · exact htarget.trans (hfits _ (by simp))

/-! ## Any order -/

/-- The messages carry different jobs, and these go to different targets. -/
def Different (m m' : Held) : Prop :=
  ∀ job job', Job.ofPayload? m.payload = some job → Job.ofPayload? m'.payload = some job' →
    job.jobId ≠ job'.jobId ∧ job.target ≠ job'.target

/-- The batch may be handled in the one and in the other order: either way each message comes to what it
comes to alone, and the services that are left are the same but for the order of rows. -/
def OrdersAgree (handle : Held → Effect Service Outcome)
    (handleAll : List Held → Effect Service (List (Except Error Outcome))) (s : Service)
    (batch batch' : List Held) : Prop :=
  ∃ t u, (handleAll batch).exec s = (.ok (batch.map fun m => ((handle m).exec s).1), t) ∧
    (handleAll batch').exec s = (.ok (batch'.map fun m => ((handle m).exec s).1), u) ∧
    SameButOrder t u

/-- What is held of the delivery queue is a message with its job. -/
theorem Deliverable.exists_task (h : Deliverable p) {m : Held} (held : m ∈ p.deliveries) :
    ∃ x : Task, x.held = m := by
  obtain ⟨job, hjob, hplaced, -⟩ := (h.held m held).carries
  exact ⟨⟨m, job, hjob, hplaced⟩, rfl⟩

/-- The messages of permuted batches with their jobs. -/
theorem exists_tasks {batch batch' : List Held} (h : ∀ m ∈ batch, ∃ x : Task, x.held = m)
    (hperm : batch'.Perm batch) : ∃ tasks tasks' : List Task, tasks.map Task.held = batch ∧
      tasks'.map Task.held = batch' ∧ tasks'.Perm tasks := by
  have h' : ∀ m ∈ batch', ∃ x : Task, x.held = m := fun m hm => h m (hperm.subset hm)
  have hmap : ∀ (l : List Held) (hl : ∀ m ∈ l, ∃ x : Task, x.held = m),
      (l.pmap (fun _ hm => Exists.choose hm) hl).map Task.held = l := by
    intro l hl
    rw [List.map_pmap]
    calc l.pmap (fun _ hm => (Exists.choose hm).held) hl
        = l.pmap (fun m _ => m) hl := List.pmap_congr_left l fun m _ hm _ => Exists.choose_spec hm
      _ = l := by simp
  exact ⟨_, _, hmap batch h, hmap batch' h', hperm.pmap _⟩

section Batch

variable (hdeliverable : Deliverable p) {own : String → String} {deliver : Deliver}
  (hown : SeparateSessions own)
include hdeliverable hown

/-- Who holds a message of a run can be served. -/
theorem serves_of_held {x : Task} (held : x.held ∈ p.deliveries) : Serves own x p.service := by
  obtain ⟨job, hjob, -, hlock⟩ := (hdeliverable.held x.held held).carries
  obtain rfl := Option.some.inj (x.carries.symm.trans hjob)
  exact ⟨hdeliverable.tidy, fun name hname => takes_contentKey x.placed hlock hname, hlock,
    hown.takes x.placed hlock⟩

/-- Messages of a run with different jobs for different targets are strangers. -/
theorem strangers_of_different {x y : Task} (hx : x.held ∈ p.deliveries) (hy : y.held ∈ p.deliveries)
    (h : Different x.held y.held) : Strangers own x y := by
  obtain ⟨hjob, htarget⟩ := h x.job y.job x.carries y.carries
  refine ⟨?_, hjob, htarget, hown.apart x.placed.target y.placed.target htarget⟩
  intro hid
  have hsame := y.carries
  rw [hdeliverable.alike x.held hx y.held hy hid.symm, x.carries] at hsame
  exact hjob (congrArg Job.jobId (Option.some.inj hsame))

/-- **Batches of messages that are held** may be handled in any order. -/
theorem ordersAgree (hlocal : IsLocal own deliver) {batch batch' : List Held}
    (held : ∀ m ∈ batch, m ∈ p.deliveries) (different : batch.Pairwise Different)
    (hperm : batch'.Perm batch) :
    OrdersAgree (handleBy deliver) (handleAllBy deliver) p.service batch batch' := by
  obtain ⟨tasks, tasks', rfl, rfl, htasks⟩ :=
    exists_tasks (fun m hm => hdeliverable.exists_task (held m hm)) hperm
  have hheld : ∀ x ∈ tasks, x.held ∈ p.deliveries := fun x hx => held _ (List.mem_map_of_mem hx)
  have hserves : ∀ x ∈ tasks, Serves own x p.service := fun x hx =>
    serves_of_held hdeliverable hown (hheld x hx)
  have hstrange : tasks.Pairwise (Strangers own) :=
    (List.pairwise_map.mp different).imp_of_mem fun hx hy h =>
      strangers_of_different hdeliverable hown (hheld _ hx) (hheld _ hy) h
  obtain ⟨t, u, hexec, hexec', hsame⟩ := handleAllBy_perm hlocal hserves hstrange htasks
  refine ⟨t, u, ?_, ?_, hsame⟩
  · rw [List.map_map]
    exact hexec
  · rw [List.map_map]
    exact hexec'

end Batch

/-- **The order within a batch does not matter.** After any run from a service on which nothing is under
way, let a batch be messages that are held, with different jobs for different targets. In whatever order it
is handled, each message comes to the same outcome, and records, messages, budget windows, objects,
platforms and sessions are the same at the end. This holds of the platforms of the program, and of any that
are local and have sessions of their own. -/
theorem run_anyOrder (start p : Pipeline) (hidle : Idle start) (hrun : TidyRun start p)
    (batch batch' : List Held) (held : ∀ m ∈ batch, m ∈ p.deliveries)
    (different : batch.Pairwise Different) (hperm : batch'.Perm batch) :
    OrdersAgree handle handleAll p.service batch batch' ∧
      ∀ own deliver, IsLocal own deliver → SeparateSessions own →
        OrdersAgree (handleBy deliver) (handleAllBy deliver) p.service batch batch' := by
  have hagree : ∀ own deliver, IsLocal own deliver → SeparateSessions own →
      OrdersAgree (handleBy deliver) (handleAllBy deliver) p.service batch batch' :=
    fun own deliver hlocal hown => ordersAgree (.run hidle hrun) hown hlocal held different hperm
  refine ⟨?_, hagree⟩
  have hmine := hagree _ _ Platform.isLocal_deliver separateSessions_ownSession
  rwa [funext handleBy_deliver, funext handleAllBy_deliver] at hmine

/-! ## A post for two targets -/

/-- A service with a platform for each target of the sample post. -/
def twoPlatforms : Pipeline where
  service := { Service.started {} Service.sampleKeys with
    platforms := ⟨[.mock { id := "blog" }, .mock { id := "x" }]⟩ }

/-- There are no sessions yet, and no objects. -/
theorem isTidy_twoPlatforms : IsTidy twoPlatforms.service.sessionWorld where
  registry := by
    refine ⟨List.nodup_nil, ?_, ?_⟩ <;>
    · intro x hx
      cases hx
  store := isTidy_inMemory

/-- A job of the sample post. -/
def jobOfTwo (n : Nat) (target : String) : Job :=
  jobFor (rootOf twoPlatforms.service) "ada" (twoPlatforms.service.issuer.idOf n) target
    Service.samplePost.content none

/-- The messages of the sample post. -/
def messagesOfTwo : MessageTable where
  messages := [⟨1, MessageTable.deliveryQueue, (jobOfTwo 1 "blog").payload, 0, 0, none, 0⟩,
    ⟨2, MessageTable.deliveryQueue, (jobOfTwo 2 "x").payload, 0, 0, none, 0⟩]
  nextId := 3

/-- A message as a worker takes it. -/
def heldOfTwo (n : Nat) (target : String) : Held := ⟨n, 0, 1, (jobOfTwo n target).payload, 0⟩

theorem exec_samplePost : (submit Service.samplePost).exec twoPlatforms.service =
    (fanOut "ada" ["blog", "x"] Service.samplePost.content none).exec twoPlatforms.service := by
  have hauthentic : twoPlatforms.service.keys.authenticate Service.samplePost.credential = .ok () := by rfl
  have hvalid : validate Service.samplePost.targets Service.samplePost.content = .ok () := by rfl
  rw [exec_submit, hauthentic]
  simp only [hvalid]
  rfl

theorem posted_samplePost :
    ((submit Service.samplePost).exec twoPlatforms.service).2.messages = messagesOfTwo ∧
      ((submit Service.samplePost).exec twoPlatforms.service).2.now = 0 := by
  have hsafe : ∀ target ∈ ["blog", "x"], isPathSafe target = true := by decide +kernel
  have hfresh : FreshIds twoPlatforms.service := freshIds_of_empty rfl rfl fun _ _ => rfl
  have hanswered : ((submit Service.samplePost).exec twoPlatforms.service).1.isOk = true := by
    decide +kernel
  have hfanned := @fanOut_spec twoPlatforms.service inMemory_isSound (fun _ => rfl) hfresh "ada"
    ["blog", "x"] (by decide) hsafe Service.samplePost.content none
  rw [exec_samplePost] at hanswered ⊢
  generalize (fanOut "ada" ["blog", "x"] Service.samplePost.content none).exec twoPlatforms.service =
    answer at hanswered hfanned ⊢
  obtain ⟨r, s'⟩ := answer
  cases hfanned with
  | unstaged cause st only unlocked => cases hanswered
  | staged st only holds locked unlocked => exact ⟨rfl, rfl⟩

theorem dequeue_messagesOfTwo :
    (messagesOfTwo.dequeue MessageTable.deliveryQueue 0 16 Span.zero).1 =
      [heldOfTwo 1 "blog", heldOfTwo 2 "x"] := by
  rw [MessageTable.dequeue, MessageTable.due, List.mergeSort_of_pairwise]
  · rfl
  · decide +kernel

theorem different_heldOfTwo : Different (heldOfTwo 1 "blog") (heldOfTwo 2 "x") := by
  intro job job' hjob hjob'
  have hcalendar : ∀ n target, (jobOfTwo n target).InCalendar := by
    intro n target t hat
    cases hat
  obtain ⟨read, hread⟩ := Job.ofPayload?_payload (hcalendar 1 "blog")
  obtain ⟨read', hread'⟩ := Job.ofPayload?_payload (hcalendar 2 "x")
  obtain rfl := Option.some.inj (hread.symm.trans hjob)
  obtain rfl := Option.some.inj (hread'.symm.trans hjob')
  refine ⟨fun hid => ?_, ?_⟩
  · have hsame := twoPlatforms.service.issuer.idOf_injective hid
    omega
  · show "blog" ≠ "x"
    decide

/-- The two messages of a post are taken, and may be handled in either order. -/
theorem run_anyOrder_samplePost : ∃ p, TidyRun twoPlatforms p ∧
    p.deliveries = [heldOfTwo 1 "blog", heldOfTwo 2 "x"] ∧
    OrdersAgree handle handleAll p.service [heldOfTwo 1 "blog", heldOfTwo 2 "x"]
      [heldOfTwo 2 "x", heldOfTwo 1 "blog"] := by
  have hidle : Idle twoPlatforms := ⟨isTidy_twoPlatforms, rfl, rfl⟩
  have hcalendar : ∀ t ∈ Service.samplePost.postAt, t.InCalendar := by
    intro t ht
    cases ht
  obtain ⟨hmessages, hnow⟩ := posted_samplePost
  have hsubmit : Step twoPlatforms _ := .submit twoPlatforms Service.samplePost hcalendar
  have hquiet := fun hs => (keeps_submit Service.samplePost hcalendar twoPlatforms.service hs).tidy
  rcases hexec : (submit Service.samplePost).exec twoPlatforms.service with ⟨r, s⟩
  rw [hexec] at hmessages hnow hsubmit hquiet
  have hmessages : s.messages = messagesOfTwo := hmessages
  have hnow : s.now = 0 := hnow
  let posted : Pipeline :=
    { twoPlatforms with service := s, posts := [] ++ accepted Service.samplePost.content r }
  have hpost : TidyStep twoPlatforms posted := .step hsubmit fun _ => hquiet
  have htake : TidyStep posted _ := .step (.takeDeliveries posted 16 Span.zero) fun _ => id
  have hrun : TidyRun twoPlatforms _ := .tail (.single hpost) htake
  have hdeliveries : [] ++ (s.messages.dequeue MessageTable.deliveryQueue s.now 16 Span.zero).1 =
      [heldOfTwo 1 "blog", heldOfTwo 2 "x"] := by
    rw [hmessages, hnow, dequeue_messagesOfTwo]
    rfl
  refine ⟨_, hrun, hdeliveries, (run_anyOrder _ _ hidle hrun _ _ ?_
    (List.pairwise_pair.mpr different_heldOfTwo) (.swap _ _ _)).1⟩
  intro m hm
  rw [← hdeliveries] at hm
  exact hm

end Syndication.Pipeline
