import Syndication.Proofs.Platform.Own
import Syndication.Proofs.Worker.Handling
import Syndication.Proofs.Worker.Parts

/-!
# Proofs.Worker.Own — handling a message reads and writes what is its own

Messages of different jobs that go to different targets have nothing in common that is written: each has
the rows of its job, of its message and of its target, the lock of the target, the platform and the
session of the platform. The content of a bundle may be common to many, and is read only. Whatever way
handling a message takes, what is answered, and what is left of the message's own, can be told from the
message's own and from the content. Nothing else changes.

The platforms are any that are local; those of the program are a case of this.

## Contents
* `followBy`, `handleBy`, `handleBy_deliver`  — handling, with any way to deliver
* `Task`, `Serves`, `SameFor`, `TouchesOnly`  — what is a message's own
* `Confined`                                  — steps that keep to it
* `courseOf_congr`, `confined_handleBy`
-/

namespace Syndication.Worker

open ObjectStore Session Staging

/-! ## Any way to deliver -/

/-- Calls a platform in this way. -/
def callBy (deliver : Deliver) (p : Platform) (d : Delivery) : Effect Service DeliveryResult :=
  .ofFun fun s =>
    let (result, p, w) := deliver p d s.settings.deliveryTimeout s.sessionWorld
    (.ok result, { s.withSessionWorld w with platforms := s.platforms.register p })

/-- Takes a job. -/
def takeJob (job : Job) : Effect Service Unit := do
  let s ← get
  let _ ← Service.changeJobs (·.claim job.jobId s.nowSecs (leaseNow s))

/-- Counts a delivery in the budget of its target. -/
def countCall (job : Job) : Effect Service Unit := do
  let s ← get
  Service.changeWindows fun t => ((), t.record s.config.rateLimits job.target s.nowSecs)

/-- Ends an attempt as the result of its call says. -/
def endCall (m : Held) (job : Job) (result : DeliveryResult) : Effect Service Outcome := do
  let s ← get
  endAttempt m job (ending m s result)

/-- Follows a course, with platforms that are called in this way. -/
def followBy (deliver : Deliver) (m : Held) : Course → Effect Service Outcome
  | .drop reason => do
    let _ ← Service.acknowledge m
    return .dropped reason
  | .clear job status => clearAway m job status
  | .wait secs => putOff m secs
  | .leave => return .busy
  | .giveUp job reason => do
    takeJob job
    finish m job (.faulted reason)
  | .stall job cause => do
    takeJob job
    throw cause
  | .call job content p => do
    takeJob job
    countCall job
    let result ← callBy deliver p (deliveryOf m job content)
    endCall m job result

/-- Handles a message, with platforms that are called in this way. -/
def handleBy (deliver : Deliver) (m : Held) : Effect Service Outcome := do
  followBy deliver m (courseOf m (← get))

/-- The program calls its platforms in their own way. -/
theorem handleBy_deliver (m : Held) : handleBy Platform.deliver m = handle m := by
  funext s
  show (handleBy Platform.deliver m).exec s = (handle m).exec s
  rw [exec_handle, handleBy, Effect.exec_bind_ok (Effect.exec_get s)]
  cases courseOf m s with
  | call job content p => rfl
  | _ => rfl

/-! ## What is a message's own -/

/-- The names of a job are such that its objects have places of their own. -/
structure IsPlaced (job : Job) : Prop where
  root : IsName job.rootId
  target : isPathSafe job.target = true

/-- A message in the hands of a worker, with the job that it carries. -/
structure Task where
  held : Held
  job : Job
  carries : Job.ofPayload? held.payload = some job
  placed : IsPlaced job

/-- Sessions and objects are in order, and the store takes the names of a job's objects. -/
structure Serves (own : String → String) (x : Task) (s : Service) : Prop where
  tidy : IsTidy s.sessionWorld
  content : ∀ name ∈ partNames, s.store.Takes (contentKey x.job.rootId name)
  lock : s.store.Takes (lockKey x.job.rootId x.job.target)
  session : s.store.Takes (storageKey (own x.job.target))

/-- For a message of a job the services are the same: the rows of the job, of the message and of the
target, the platform and its session, the lock, and the content. -/
structure SameFor (own : String → String) (x : Task) (s t : Service) : Prop where
  config : s.config = t.config
  settings : s.settings = t.settings
  now : s.now = t.now
  jobs : s.jobs.part x.job.jobId = t.jobs.part x.job.jobId
  messages : s.messages.part x.held.id = t.messages.part x.held.id
  windows : s.windows.part x.job.target = t.windows.part x.job.target
  platform : s.platforms.get? x.job.target = t.platforms.get? x.job.target
  session : SameSession (own x.job.target) s.sessionWorld t.sessionWorld
  lock : AlikeAt (lockKey x.job.rootId x.job.target) s.store t.store
  content : ∀ name ∈ partNames, AlikeAt (contentKey x.job.rootId name) s.store t.store

/-- The keys under which objects are written when a message is handled. -/
def Task.writes (own : String → String) (x : Task) : List String :=
  [lockKey x.job.rootId x.job.target, storageKey (own x.job.target)]

/-- Nothing has changed but what is the own of messages of a batch. -/
structure TouchesOnly (own : String → String) (batch : List Task) (s s' : Service) : Prop where
  work : OnlyWork s s'
  tidy : IsTidy s.sessionWorld → IsTidy s'.sessionWorld
  jobs : ∀ k, (∀ x ∈ batch, k ≠ x.job.jobId) → s'.jobs.part k = s.jobs.part k
  messages : ∀ id, (∀ x ∈ batch, id ≠ x.held.id) → s'.messages.part id = s.messages.part id
  windows : ∀ k, (∀ x ∈ batch, k ≠ x.job.target) → s'.windows.part k = s.windows.part k
  platforms : ∀ k, (∀ x ∈ batch, k ≠ x.job.target) → s'.platforms.get? k = s.platforms.get? k
  buffers : ∀ k, (∀ x ∈ batch, k ≠ own x.job.target) → buffer? s'.sessions k = buffer? s.sessions k
  store : OnlyAt (batch.flatMap (Task.writes own)) s.store s'.store

/-- The step reads and writes what is a message's own. -/
structure Confined (own : String → String) (x : Task) {α : Type} (e : Effect Service α) : Prop where
  same : ∀ {s t}, Serves own x s → Serves own x t → SameFor own x s t →
    (e.exec s).1 = (e.exec t).1 ∧ SameFor own x (e.exec s).2 (e.exec t).2
  only : ∀ {s}, Serves own x s → TouchesOnly own [x] s (e.exec s).2

section

variable {own : String → String} {deliver : Deliver} {x y : Task} {batch batch' : List Task}
  {s s' s'' t : Service} {α β : Type}

/-! ### Places -/

theorem segments_storageKey (key : String) :
    Store.segments (storageKey key) = "session" :: Text.split '/' key := by
  have hsession : Text.split '/' "session" = ["session"] := Text.split_eq_singleton (by decide)
  calc Store.segments (storageKey key)
      = Text.split '/' "session" ++ Text.split '/' key := Text.split_append '/' "session" key
    _ = "session" :: Text.split '/' key := by rw [hsession]; rfl

/-- Sessions and bundles stand apart. -/
theorem apart_storageKey (key root name : String) :
    Store.Apart (Store.segments (contentKey root name)) (Store.segments (storageKey key)) := by
  rw [segments_storageKey, segments_contentKey_eq]
  exact Store.apart_cons (by decide) _ _

/-- Parts of bundles stand apart if they are two. -/
theorem apart_contentKey {root root' name name' : String} (hroot : IsName root) (hroot' : IsName root')
    (hname : IsName name) (hname' : IsName name')
    (hne : contentKey root name ≠ contentKey root' name') :
    Store.Apart (Store.segments (contentKey root name)) (Store.segments (contentKey root' name')) := by
  apply Store.apart_of_length
  · rw [segments_contentKey hroot.slash hname.slash, segments_contentKey hroot'.slash hname'.slash]
    rfl
  · exact fun heq => hne (Store.Tree.segments_injective heq)

/-- Content stands apart from locks. -/
theorem apart_lockKey {root name : String} (hroot : IsName root) (hname : name ∈ partNames) {job : Job}
    (hjob : IsPlaced job) : Store.Apart (Store.segments (contentKey root name))
      (Store.segments (lockKey job.rootId job.target)) :=
  apart_contentKey hroot hjob.root (isName_part name hname) (isName_lock hjob.target)
    (lockKey_ne_contentKey hroot.slash hname job.target).symm

/-! ### Nothing but -/

theorem OnlyWork.trans (h : OnlyWork s s') (h' : OnlyWork s' s'') : OnlyWork s s'' := by
  unfold OnlyWork at h h' ⊢
  rw [h', h]

namespace TouchesOnly

theorem refl (own : String → String) (batch : List Task) (s : Service) : TouchesOnly own batch s s where
  work := rfl
  tidy := id
  jobs := fun _ _ => rfl
  messages := fun _ _ => rfl
  windows := fun _ _ => rfl
  platforms := fun _ _ => rfl
  buffers := fun _ _ => rfl
  store := .refl _ _

theorem trans (h : TouchesOnly own batch s s') (h' : TouchesOnly own batch s' s'') :
    TouchesOnly own batch s s'' where
  work := h.work.trans h'.work
  tidy := h'.tidy ∘ h.tidy
  jobs := fun k hk => (h'.jobs k hk).trans (h.jobs k hk)
  messages := fun id hid => (h'.messages id hid).trans (h.messages id hid)
  windows := fun k hk => (h'.windows k hk).trans (h.windows k hk)
  platforms := fun k hk => (h'.platforms k hk).trans (h.platforms k hk)
  buffers := fun k hk => (h'.buffers k hk).trans (h.buffers k hk)
  store := h.store.trans h'.store

theorem mono (h : TouchesOnly own batch s s') (hmore : batch ⊆ batch') :
    TouchesOnly own batch' s s' where
  work := h.work
  tidy := h.tidy
  jobs := fun k hk => h.jobs k fun x hx => hk x (hmore hx)
  messages := fun id hid => h.messages id fun x hx => hid x (hmore hx)
  windows := fun k hk => h.windows k fun x hx => hk x (hmore hx)
  platforms := fun k hk => h.platforms k fun x hx => hk x (hmore hx)
  buffers := fun k hk => h.buffers k fun x hx => hk x (hmore hx)
  store := h.store.mono fun _ hkey =>
    List.mem_flatMap.mpr ((List.mem_flatMap.mp hkey).imp fun _ hx => ⟨hmore hx.1, hx.2⟩)

/-- Who could be served before can be served after. -/
theorem serves (h : TouchesOnly own batch s s') (hs : Serves own y s) : Serves own y s' where
  tidy := h.tidy hs.tidy
  content := fun name hname => (h.store.takes _).mpr (hs.content name hname)
  lock := (h.store.takes _).mpr hs.lock
  session := (h.store.takes _).mpr hs.session

end TouchesOnly

/-! ### Steps -/

namespace Confined

theorem pure (a : α) : Confined own x (Pure.pure a : Effect Service α) :=
  ⟨fun _ _ h => ⟨rfl, h⟩, fun _ => .refl _ _ _⟩

theorem throw (e : Error) : Confined own x (MonadExcept.throw e : Effect Service α) :=
  ⟨fun _ _ h => ⟨rfl, h⟩, fun _ => .refl _ _ _⟩

/-- **Sequences** of confined steps are confined. -/
theorem bind {e : Effect Service α} {f : α → Effect Service β} (he : Confined own x e)
    (hf : ∀ a, Confined own x (f a)) : Confined own x (e >>= f) where
  same := by
    intro s t hs ht h
    obtain ⟨hanswer, hsame⟩ := he.same hs ht h
    have hs' := (he.only hs).serves hs
    have ht' := (he.only ht).serves ht
    rw [Effect.exec_bind, Effect.exec_bind]
    rcases hexec : e.exec s with ⟨c | a, s'⟩ <;> rcases hexec' : e.exec t with ⟨c' | a', t'⟩ <;>
      rw [hexec] at hanswer hsame hs' <;> rw [hexec'] at hanswer hsame ht'
    · exact ⟨congrArg Except.error (Except.error.inj hanswer), hsame⟩
    · cases hanswer
    · cases hanswer
    · obtain rfl := Except.ok.inj hanswer
      exact (hf a).same hs' ht' hsame
  only := by
    intro s hs
    have honly := he.only hs
    rw [Effect.exec_bind]
    rcases hexec : e.exec s with ⟨c | a, s'⟩ <;> rw [hexec] at honly
    · exact honly
    · exact honly.trans ((hf a).only (honly.serves hs))

/-- A step may read what is the message's own. -/
theorem get_bind {f : Service → Effect Service α}
    (hread : ∀ {s t}, Serves own x s → Serves own x t → SameFor own x s t → f s = f t)
    (hf : ∀ s, Confined own x (f s)) : Confined own x (MonadState.get >>= f) where
  same := by
    intro s t hs ht h
    rw [Effect.exec_bind_ok (Effect.exec_get s), Effect.exec_bind_ok (Effect.exec_get t),
      hread hs ht h]
    exact (hf t).same hs ht h
  only := by
    intro s hs
    rw [Effect.exec_bind_ok (Effect.exec_get s)]
    exact (hf s).only hs

end Confined

theorem SameFor.nowSecs (h : SameFor own x s t) : s.nowSecs = t.nowSecs := congrArg secondOf h.now

/-- A move of the job. -/
theorem confined_move (may : JobRecord → Bool) {change : JobRecord → JobRecord}
    (hsame : ∀ r, (change r).jobId = r.jobId) :
    Confined own x (Service.changeJobs (·.move x.job.jobId may change)) where
  same := by
    intro s t _ _ h
    have hanswer : (s.jobs.move x.job.jobId may change).1 = (t.jobs.move x.job.jobId may change).1 := by
      rw [← JobTable.fst_move_part, h.jobs, JobTable.fst_move_part]
    have hpart : (s.jobs.move x.job.jobId may change).2.part x.job.jobId =
        (t.jobs.move x.job.jobId may change).2.part x.job.jobId := by
      rw [JobTable.part_move hsame, h.jobs, JobTable.part_move hsame]
    exact ⟨congrArg Except.ok hanswer, { h with jobs := hpart }⟩
  only := by
    intro s _
    exact { TouchesOnly.refl own [x] s with
      jobs := fun _ hk => JobTable.part_move_other hsame (hk x (List.mem_singleton_self x))
      work := rfl }

theorem confined_acknowledge : Confined own x (Service.acknowledge x.held) where
  same := by
    intro s t _ _ h
    have hanswer : (s.messages.acknowledge x.held).1 = (t.messages.acknowledge x.held).1 := by
      rw [← MessageTable.fst_acknowledge_part, h.messages, MessageTable.fst_acknowledge_part]
    have hpart : (s.messages.acknowledge x.held).2.part x.held.id =
        (t.messages.acknowledge x.held).2.part x.held.id := by
      rw [MessageTable.part_acknowledge, h.messages, MessageTable.part_acknowledge]
    exact ⟨congrArg Except.ok hanswer, { h with messages := hpart }⟩
  only := by
    intro s _
    exact { TouchesOnly.refl own [x] s with
      messages := fun _ hid => MessageTable.part_acknowledge_other (hid x (List.mem_singleton_self x))
      work := rfl }

theorem confined_defer (delay : Span) (counts : Bool) :
    Confined own x (Service.defer x.held delay counts) where
  same := by
    intro s t _ _ h
    have hanswer : (s.messages.defer x.held s.now delay counts).1 =
        (t.messages.defer x.held t.now delay counts).1 := by
      rw [← MessageTable.fst_defer_part, h.messages, MessageTable.fst_defer_part, h.now]
    have hpart : (s.messages.defer x.held s.now delay counts).2.part x.held.id =
        (t.messages.defer x.held t.now delay counts).2.part x.held.id := by
      rw [MessageTable.part_defer, h.messages, h.now, MessageTable.part_defer]
    exact ⟨congrArg Except.ok hanswer, { h with messages := hpart }⟩
  only := by
    intro s _
    exact { TouchesOnly.refl own [x] s with
      messages := fun _ hid => MessageTable.part_defer_other _ _ _ (hid x (List.mem_singleton_self x))
      work := rfl }

theorem confined_countCall : Confined own x (countCall x.job) where
  same := by
    intro s t _ _ h
    have hpart : (s.windows.record s.config.rateLimits x.job.target s.nowSecs).part x.job.target =
        (t.windows.record t.config.rateLimits x.job.target t.nowSecs).part x.job.target := by
      rw [RateWindows.part_record, h.windows, h.config, h.nowSecs, RateWindows.part_record]
    exact ⟨rfl, { h with windows := hpart }⟩
  only := by
    intro s _
    exact { TouchesOnly.refl own [x] s with
      windows := fun _ hk => RateWindows.part_record_other (hk x (List.mem_singleton_self x))
      work := rfl }

/-- A lock is removed by one deletion, unless the name of the bundle is refused. -/
theorem removeLock_eq (root target : String) :
    removeLock root target = ObjectStore.delete (lockKey root target) ∨
      ∃ e, removeLock root target = MonadExcept.throw e := by
  unfold removeLock checkRoot
  split
  · exact .inl rfl
  · exact .inr ⟨_, rfl⟩

/-- The lock of a job is removed, and nothing else. -/
theorem confined_releaseLock : Confined own x (releaseLock x.job) := by
  refine .bind ?_ fun _ => .pure ()
  rcases removeLock_eq x.job.rootId x.job.target with hremove | ⟨e, hremove⟩ <;> rw [hremove]
  case inr => exact .throw e
  constructor
  case same =>
    intro s t hs ht h
    rw [Service.exec_onStore, Service.exec_onStore]
    obtain ⟨hanswer, hlock⟩ := delete_congr hs.tidy.store ht.tidy.store hs.lock h.lock
    have honly := onlyAt_delete hs.tidy.store (lockKey x.job.rootId x.job.target)
    have honly' := onlyAt_delete ht.tidy.store (lockKey x.job.rootId x.job.target)
    have hstored := honly.alikeAt honly' (apart_storageKey _ _ _).symm h.session.stored
    exact ⟨hanswer, { h with
      session := ⟨h.session.buffer, hstored⟩
      lock := hlock
      content := fun name hname =>
        honly.alikeAt honly' (apart_lockKey x.placed.root hname x.placed) (h.content name hname) }⟩
  case only =>
    intro s hs
    rw [Service.exec_onStore]
    have honly := onlyAt_delete hs.tidy.store (lockKey x.job.rootId x.job.target)
    exact { TouchesOnly.refl own [x] s with
      work := rfl
      tidy := fun h => ⟨h.registry, honly.tidy h.store⟩
      store := honly.mono (by simp [Task.writes]) }

/-- **A call** of a local platform is confined. -/
theorem confined_callBy (hlocal : IsLocal own deliver) {p : Platform}
    (hid : p.id = x.job.target) (d : Delivery) : Confined own x (callBy deliver p d) where
  same := by
    intro s t hs ht h
    have hlimit : s.settings.deliveryTimeout = t.settings.deliveryTimeout := by rw [h.settings]
    obtain ⟨hanswer, hplatform, hsession⟩ := hlocal.same p d t.settings.deliveryTimeout hs.tidy ht.tidy
      (hid ▸ hs.session) (hid ▸ h.session)
    have honly := (hlocal.only p d t.settings.deliveryTimeout hs.tidy).store
    have honly' := (hlocal.only p d t.settings.deliveryTimeout ht.tidy).store
    rw [callBy, Effect.exec_ofFun, Effect.exec_ofFun, hlimit]
    exact ⟨congrArg Except.ok hanswer, { h with
      platform := by simp only [PlatformRegistry.get?_register, hplatform, h.platform]
      session := hid ▸ hsession
      lock := honly.alikeAt honly' (apart_storageKey _ _ _) h.lock
      content := fun name hname => honly.alikeAt honly' (apart_storageKey _ _ _) (h.content name hname) }⟩
  only := by
    intro s hs
    have honly := hlocal.only p d s.settings.deliveryTimeout hs.tidy
    rw [hid] at honly
    exact { TouchesOnly.refl own [x] s with
      work := rfl
      tidy := honly.tidy
      platforms := fun k hk => by
        rw [callBy, Effect.exec_ofFun, PlatformRegistry.get?_register, hlocal.id, hid,
          if_neg (hk x (List.mem_singleton_self x))]
      buffers := fun k hk => honly.buffers k (hk x (List.mem_singleton_self x))
      store := honly.store.mono (by simp [Task.writes]) }

/-! ### Handling -/

theorem confined_takeJob : Confined own x (takeJob x.job) := by
  refine .get_bind (fun _ _ h => ?_) fun s => .bind (confined_move _ fun _ => rfl) fun _ => .pure _
  simp only [leaseNow, h.nowSecs, h.now, h.settings]

theorem confined_putOff (secs : Int) : Confined own x (putOff x.held secs) :=
  .bind (confined_defer _ _) fun _ => .pure _

theorem confined_clearAway (status : JobStatus) :
    Confined own x (clearAway x.held x.job status) :=
  .bind (confined_releaseLock) fun _ => .bind confined_acknowledge fun _ => .pure _

theorem confined_finish (c : Completion) : Confined own x (finish x.held x.job c) := by
  refine .get_bind (fun _ _ h => ?_) fun s => .bind (confined_move _ fun _ => rfl) fun _ =>
    .bind (confined_releaseLock) fun _ => .bind confined_acknowledge fun _ => .pure _
  simp only [h.nowSecs]

theorem confined_retryLater (cause : Error) : Confined own x (retryLater x.held x.job cause) := by
  refine .get_bind (fun _ _ h => ?_) fun s => .bind (confined_move _ fun _ => rfl) fun _ =>
    .bind (confined_defer _ _) fun _ => .pure _
  simp only [h.nowSecs, h.settings]

theorem confined_endCall (result : DeliveryResult) :
    Confined own x (endCall x.held x.job result) := by
  refine .get_bind (fun _ _ h => ?_) fun s => ?_
  · cases result <;> simp only [ending, h.settings]
  · cases ending x.held s result with
    | ok c => exact confined_finish c
    | error cause => exact confined_retryLater cause

/-- The course is that of a message of this job. -/
def Course.IsFor (job : Job) : Course → Prop
  | .drop _ => True
  | .clear job' _ => job' = job
  | .wait _ => True
  | .leave => True
  | .giveUp job' _ => job' = job
  | .stall job' _ => job' = job
  | .call job' _ p => job' = job ∧ p.id = job.target

/-- Whatever course is followed, what is done is confined. -/
theorem confined_followBy (hlocal : IsLocal own deliver) {course : Course} (h : course.IsFor x.job) :
    Confined own x (followBy deliver x.held course) := by
  cases course with
  | drop reason => exact .bind confined_acknowledge fun _ => .pure _
  | clear job status =>
    obtain rfl := h
    exact confined_clearAway status
  | wait secs => exact confined_putOff secs
  | leave => exact .pure _
  | giveUp job reason =>
    obtain rfl := h
    exact .bind confined_takeJob fun _ => confined_finish _
  | stall job cause =>
    obtain rfl := h
    exact .bind confined_takeJob fun _ => .throw cause
  | call job content p =>
    obtain ⟨rfl, hid⟩ := h
    exact .bind confined_takeJob fun _ => .bind confined_countCall fun _ =>
      .bind (confined_callBy hlocal hid _) confined_endCall

theorem isFor_courseOfTaken (m : Held) (s : Service) (job : Job) : (courseOfTaken m s job).IsFor job := by
  unfold courseOfTaken
  split
  · rfl
  split
  · rfl
  · rfl
  split
  · rfl
  rename_i p hp
  have hid : p.id = job.target := by simpa using List.find?_some hp
  exact ⟨rfl, hid⟩

/-- The course of a message is for its job. -/
theorem isFor_courseOf (x : Task) (s : Service) : (courseOf x.held s).IsFor x.job := by
  rw [courseOf, x.carries]
  simp only
  split
  · trivial
  split
  · rfl
  unfold courseOfOpen
  split
  · trivial
  split
  · trivial
  split
  · exact isFor_courseOfTaken x.held s x.job
  · trivial

/-- **The course of a message** is told by what is the message's own. -/
theorem courseOf_congr (hs : Serves own x s) (ht : Serves own x t) (h : SameFor own x s t) :
    courseOf x.held s = courseOf x.held t := by
  have hrecord : s.jobs.get? x.job.jobId = t.jobs.get? x.job.jobId := by
    rw [← JobTable.get?_part, h.jobs, JobTable.get?_part]
  have hcheck : ∀ limits now,
      s.windows.check limits x.job.target now = t.windows.check limits x.job.target now := by
    intro limits now
    rw [← RateWindows.check_part, h.windows, RateWindows.check_part]
  have hclaim : ∀ now lease,
      (s.jobs.claim x.job.jobId now lease).1 = (t.jobs.claim x.job.jobId now lease).1 := by
    intro now lease
    rw [JobTable.claim, JobTable.claim, ← JobTable.fst_move_part, h.jobs, JobTable.fst_move_part]
  have hlease : leaseNow s = leaseNow t := by rw [leaseNow, leaseNow, h.now, h.settings]
  have hload : ((load x.job.rootId).exec s.store).1 = ((load x.job.rootId).exec t.store).1 :=
    fst_load_congr fun name hname =>
      get_congr hs.tidy.store ht.tidy.store (hs.content name hname) (h.content name hname)
  simp only [courseOf, courseOfOpen, courseOfTaken, x.carries, hrecord, hcheck, hclaim, hlease, hload,
    h.nowSecs, h.config, h.settings, h.platform]

/-- **Handling a message is confined**: what is answered and what is left of the message's own depends on
that alone, and nothing else changes. -/
theorem confined_handleBy (hlocal : IsLocal own deliver) (x : Task) :
    Confined own x (handleBy deliver x.held) :=
  .get_bind (fun hs ht h => congrArg (followBy deliver x.held) (courseOf_congr hs ht h))
    fun s => confined_followBy hlocal (isFor_courseOf x s)

end

end Syndication.Worker
